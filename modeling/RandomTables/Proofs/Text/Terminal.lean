import RandomTables.Proofs.Diagnostic.Line
import RandomTables.Proofs.Text.Console

namespace RandomTables.Text

section Lines
variable {before pieces after : List Piece} {style : Option Style} {text text' : List Char}

/-- Pieces without a line feed stand on the first line. -/
theorem pieceLines_append (h : '\n' ∉ plainText before) (pieces : List Piece) :
    pieceLines (before ++ pieces) = (before ++ (pieceLines pieces).1, (pieceLines pieces).2) := by
  induction before with
  | nil => rfl
  | cons piece before ih =>
    rw [plainText_cons, List.mem_append, not_or] at h
    obtain ⟨hfirst, hmore⟩ := List.cons_eq_cons.mp (rawLines_of_not_mem piece.text h.1)
    rw [List.cons_append, pieceLines, ih h.2, hfirst, hmore]
    rfl

/-- A line feed in a piece ends the first line. -/
theorem pieceLines_lineFeed (h : '\n' ∉ text) (style : Option Style) (text' : List Char)
    (after : List Piece) : pieceLines (⟨style, text ++ '\n' :: text'⟩ :: after) =
      ([⟨style, text⟩], (pieceLines (⟨style, text'⟩ :: after)).1 ::
        (pieceLines (⟨style, text'⟩ :: after)).2) := by
  obtain ⟨hfirst, hmore⟩ := List.cons_eq_cons.mp (rawLines_append_lineFeed text text' h)
  rw [pieceLines, hfirst, hmore]
  rfl

variable {cells : List Char → Nat}

/-- A single line is printed without a line feed. -/
theorem print_line {line : List Piece} (h : '\n' ∉ plainText line) :
    (Console.terminal cells).print line = escapedLine cells line := by
  have hlines := pieceLines_append h []
  rw [List.append_nil] at hlines
  change escapedLine cells (pieceLines line).1 ++ _ = _
  rw [hlines]
  simp [pieceLines]

/-- A line feed cuts what is printed in two. -/
theorem print_lines (hbefore : '\n' ∉ plainText before) (htext : '\n' ∉ text) :
    (Console.terminal cells).print (before ++ ⟨style, text ++ '\n' :: text'⟩ :: after) =
      (Console.terminal cells).print (before ++ [⟨style, text⟩]) ++
        '\n' :: (Console.terminal cells).print (⟨style, text'⟩ :: after) := by
  have hline : '\n' ∉ plainText (before ++ [⟨style, text⟩]) := by
    simpa using ⟨hbefore, htext⟩
  rw [print_line hline]
  simp only [Console.terminal, pieceLines_append hbefore, pieceLines_lineFeed htext,
    List.flatMap_cons, List.cons_append]

end Lines

section Tabs
variable {cells : List Char → Nat} {text : List Char}

theorem tabParts_of_not_mem (h : '\t' ∉ text) : tabParts text = ([], text) := by
  induction text with
  | nil => rfl
  | cons c text ih =>
    rw [List.mem_cons, not_or] at h
    rw [tabParts, ih h.2]
    exact if_neg (Ne.symm h.1)

/-- The first part ends at the first tab. -/
theorem tabParts_tab (h : '\t' ∉ text) (text' : List Char) :
    tabParts (text ++ '\t' :: text') = (text :: (tabParts text').1, (tabParts text').2) := by
  induction text with
  | nil =>
    rw [List.nil_append, tabParts]
    rcases tabParts text' with ⟨_ | ⟨part, parts⟩, last⟩ <;> rfl
  | cons c text ih =>
    rw [List.mem_cons, not_or] at h
    rw [List.cons_append, tabParts, ih h.2]
    exact if_neg (Ne.symm h.1)

/-- Pieces without a tab pass through, and move the column on. -/
theorem expandTabs_append {before : List Piece} (h : '\t' ∉ plainText before) (column : Nat)
    (shown : List Char) (rest : List Piece) : expandTabs cells column shown (before ++ rest) =
      before ++ expandTabs cells column (shown ++ plainText before) rest := by
  induction before generalizing shown with
  | nil => simp
  | cons piece before ih =>
    rw [plainText_cons, List.mem_append, not_or] at h
    rw [List.cons_append, expandTabs, tabParts_of_not_mem h.1]
    simp only [expandParts]
    rw [ih h.2, plainText_cons, List.append_assoc]
    rfl

/-- A tab cuts its piece in two, of which the first ends with the blanks. -/
theorem expandTabs_tab (h : '\t' ∉ text) (style : Option Style) (column : Nat)
    (shown text' : List Char) (after : List Piece) :
    expandTabs cells column shown (⟨style, text ++ '\t' :: text'⟩ :: after) =
      ⟨style, text ++ List.replicate ((tabColumns cells column (shown ++ text)).1 + 1) ' '⟩ ::
        expandTabs cells (tabColumns cells column (shown ++ text)).2 []
          (⟨style, text'⟩ :: after) := by
  rw [expandTabs, tabParts_tab h, expandTabs]
  simp only [expandParts, List.cons_append]

end Tabs

section Cells
variable {cells : List Char → Nat}

structure IsAdditive (cells : List Char → Nat) : Prop where
  append : ∀ s t, cells (s ++ t) = cells s + cells t
  blank : cells [' '] = 1

namespace IsAdditive

theorem nil (h : IsAdditive cells) : cells [] = 0 := by
  have happend := h.append [] []
  rw [List.append_nil] at happend
  omega

theorem blanks (h : IsAdditive cells) (s : List Char) (n : Nat) :
    cells (s ++ List.replicate n ' ') = cells s + n := by
  induction n with
  | zero => simp
  | succ n ih =>
    rw [List.replicate_succ', ← List.append_assoc, h.append, ih, h.blank, Nat.add_assoc]

/-- The blanks fill the line up to the next multiple of eight, one of them in place of the tab. -/
theorem isTab (h : IsAdditive cells) (line : List Char) :
    IsTab cells line ((tabColumns cells 0 line).1 + 1) := by
  constructor
  all_goals simp only [h.blanks, tabColumns, tabStop, h.append, h.blank]
  case pos => omega
  case stop => omega
  case least =>
    intro k hk hstop
    omega

variable {column column' : Nat} {shown shown' : List Char}

/-- The distance to the next stop is told by the cells of the line alone. -/
theorem tabColumns_congr (h : IsAdditive cells)
    (heq : column + cells shown = column' + cells shown')
    (part : List Char) :
    tabColumns cells column (shown ++ part) = tabColumns cells column' (shown' ++ part) := by
  have hreached : column + cells (shown ++ part ++ [' ']) =
      column' + cells (shown' ++ part ++ [' ']) := by
    simp only [h.append]
    omega
  simp only [tabColumns, hreached]

/-- What a tab comes to depends on the cells that are taken so far, and not on where they were
counted. -/
theorem expandTabs_congr (h : IsAdditive cells)
    (heq : column + cells shown = column' + cells shown') (line : List Piece) :
    expandTabs cells column shown line = expandTabs cells column' shown' line := by
  induction line generalizing column column' shown shown' with
  | nil => rfl
  | cons piece line ih =>
    rw [expandTabs, expandTabs]
    generalize tabParts piece.text = cut
    obtain ⟨parts, last⟩ := cut
    cases parts with
    | nil =>
      simp only [expandParts]
      rw [ih]
      simp only [h.append]
      omega
    | cons part parts => simp only [expandParts, h.tabColumns_congr heq part]

/-- A tab may be printed as its blanks before the rest of the line is looked at. -/
theorem print_tab (h : IsAdditive cells) {before after : List Piece} {style : Option Style}
    {text text' : List Char}
    (hfeed : '\n' ∉ plainText (before ++ ⟨style, text ++ '\t' :: text'⟩ :: after))
    (hbefore : '\t' ∉ plainText before) (htext : '\t' ∉ text) :
    ∃ n, IsTab cells (plainText before ++ text) n ∧
      (Console.terminal cells).print (before ++ ⟨style, text ++ '\t' :: text'⟩ :: after) =
        (Console.terminal cells).print
          (before ++ ⟨style, text ++ List.replicate n ' '⟩ :: ⟨style, text'⟩ :: after) := by
  refine ⟨_, h.isTab _, ?_⟩
  generalize hn : (tabColumns cells 0 (plainText before ++ text)).1 + 1 = n
  have hfront : '\t' ∉ plainText (before ++ [⟨style, text ++ List.replicate n ' '⟩]) := by
    simp [hbefore, htext]
  have hfeed' : '\n' ∉ plainText
      (before ++ ⟨style, text ++ List.replicate n ' '⟩ :: ⟨style, text'⟩ :: after) := by
    rw [plainText_tab] at hfeed
    rw [plainText_blanked]
    exact not_mem_blanked (by decide) hfeed n
  have hcells : (tabColumns cells 0 (plainText before ++ text)).2 + cells [] =
      0 + cells (plainText (before ++ [⟨style, text ++ List.replicate n ' '⟩])) := by
    have hline : plainText (before ++ [⟨style, text ++ List.replicate n ' '⟩]) =
        plainText before ++ text ++ List.replicate n ' ' := by
      simp
    rw [hline, h.blanks, ← hn, h.nil, tabColumns]
    simp only [h.append (plainText before ++ text) [' '], h.blank]
    omega
  have hrest := h.expandTabs_congr hcells (⟨style, text'⟩ :: after)
  have hsplit := List.append_cons before ⟨style, text ++ List.replicate n ' '⟩
    (⟨style, text'⟩ :: after)
  rw [print_line hfeed, print_line hfeed', escapedLine, escapedLine, hsplit,
    expandTabs_append hfront, expandTabs_append hbefore, List.nil_append, List.nil_append,
    expandTabs_tab htext, hn, hrest, List.append_assoc, List.singleton_append]

/-- Without tabs there is nothing to replace. -/
theorem print_flat {line : List Piece} (h : IsFlat (plainText line)) :
    (Console.terminal cells).print line = line.flatMap Piece.escaped := by
  have htabs := @expandTabs_append cells line h.2 0 [] []
  rw [List.append_nil] at htabs
  rw [print_line h.1, escapedLine, htabs]
  simp [expandTabs]

/-- A terminal is a console as it is relied on, if it measures texts by their parts. -/
theorem documented_terminal (h : IsAdditive cells) : (Console.terminal cells).Documented := by
  have hprint (piece : Piece) (hflat : IsFlat piece.text) :
      (Console.terminal cells).print [piece] = piece.escaped := by
    rw [print_flat (by simpa using hflat), List.flatMap_singleton]
  constructor
  case lines => exact fun before style text text' after => print_lines
  case tabs => exact fun before style text text' after => h.print_tab
  case pieces =>
    intro piece rest hflat
    obtain ⟨hpiece, hrest⟩ := (isFlat_cons piece rest).mp hflat
    rw [print_flat hflat, hprint piece hpiece, print_flat hrest, List.flatMap_cons]
  case nothing => rfl
  case empty =>
    intro style
    rw [hprint _ ⟨List.not_mem_nil, List.not_mem_nil⟩]
    cases style <;> rfl
  case unstyled =>
    intro text hflat
    rw [hprint _ hflat]
    cases text <;> rfl
  case styled =>
    intro style text hne hflat
    refine ⟨style.attributes, ['0'], by cases style <;> decide, by decide, ?_⟩
    rw [hprint _ hflat]
    cases text with
    | nil => exact absurd rfl hne
    | cons c text => rfl

end IsAdditive

def cellCount (s : List Char) : Nat :=
  s.foldr (fun c n => charWidth c + n) 0

/-- A count by characters adds up. -/
theorem isAdditive_cellCount : IsAdditive cellCount := by
  constructor
  case append =>
    intro s t
    induction s with
    | nil => simp [cellCount]
    | cons c s ih =>
      simp only [cellCount, List.cons_append, List.foldr_cons] at ih ⊢
      rw [ih, Nat.add_assoc]
  case blank => decide

end Cells

end RandomTables.Text
