import Mathlib.Data.List.Count
import RandomTables.Proofs.Text.Escapes

namespace RandomTables.Text

/-- The blanks that a tab stands for behind a text on its line: the fewest, but at least one, with
which the line takes a multiple of eight cells. -/
structure IsTab (cells : List Char → Nat) (line : List Char) (n : Nat) : Prop where
  pos : 0 < n
  stop : tabStop ∣ cells (line ++ List.replicate n ' ')
  least : ∀ k, 0 < k → tabStop ∣ cells (line ++ List.replicate k ' ') → n ≤ k

inductive Untabbed (cells : List Char → Nat) : List Char → List Char → List Char → Prop
  | nil {line} : Untabbed cells line [] []
  | lineFeed {line text untabbed} : Untabbed cells [] text untabbed →
      Untabbed cells line ('\n' :: text) ('\n' :: untabbed)
  | tab {line text untabbed n} : IsTab cells line n →
      Untabbed cells (line ++ List.replicate n ' ') text untabbed →
      Untabbed cells line ('\t' :: text) (List.replicate n ' ' ++ untabbed)
  | other {line c text untabbed} : c ≠ '\n' → c ≠ '\t' →
      Untabbed cells (line ++ [c]) text untabbed → Untabbed cells line (c :: text) (c :: untabbed)

section Untabbed
variable {cells : List Char → Nat} {line s text untabbed : List Char} {n k : Nat}

theorem not_mem_blanks {c : Char} (h : c ≠ ' ') (n : Nat) : c ∉ List.replicate n ' ' :=
  fun hmem => h (List.eq_of_mem_replicate hmem)

/-- With blanks in place of a tab, a text has no new characters but blanks. -/
theorem not_mem_blanked {c : Char} (hc : c ≠ ' ') (h : c ∉ s ++ '\t' :: text) (n : Nat) :
    c ∉ s ++ List.replicate n ' ' ++ text := by
  rw [List.mem_append, List.mem_cons, not_or, not_or] at h
  rw [List.mem_append, List.mem_append, not_or, not_or]
  exact ⟨⟨h.1, not_mem_blanks hc n⟩, h.2.2⟩

/-- With blanks in place of a tab, a text has one tab less. -/
theorem count_blanked (s text : List Char) (n : Nat) :
    (s ++ '\t' :: text).count '\t' = (s ++ List.replicate n ' ' ++ text).count '\t' + 1 := by
  have hblanks := List.count_eq_zero.mpr (not_mem_blanks (by decide : '\t' ≠ ' ') n)
  rw [List.count_append, List.count_append, List.count_append, List.count_cons_self, hblanks]
  omega

/-- The blanks of a tab are told by the line before it. -/
theorem IsTab.eq (h : IsTab cells line n) (h' : IsTab cells line k) : n = k :=
  Nat.le_antisymm (h.least k h'.pos h'.stop) (h'.least n h.pos h.stop)

/-- Text without tabs and line feeds stays as it is, and stands on the line for what follows. -/
theorem untabbed_append (hfeed : '\n' ∉ s) (htab : '\t' ∉ s) :
    Untabbed cells line (s ++ text) untabbed ↔
      ∃ rest, untabbed = s ++ rest ∧ Untabbed cells (line ++ s) text rest := by
  induction s generalizing line untabbed with
  | nil => simp
  | cons c s ih =>
    rw [List.mem_cons, not_or] at hfeed htab
    constructor
    · intro h
      cases h with
      | lineFeed => exact absurd rfl hfeed.1
      | tab => exact absurd rfl htab.1
      | other _ _ htail =>
        obtain ⟨rest, rfl, hrest⟩ := (ih hfeed.2 htab.2).mp htail
        exact ⟨rest, rfl, by simpa using hrest⟩
    · rintro ⟨rest, rfl, hrest⟩
      refine .other (Ne.symm hfeed.1) (Ne.symm htab.1) ((ih hfeed.2 htab.2).mpr ⟨rest, rfl, ?_⟩)
      simpa using hrest

/-- A tab is read as the blanks that it stands for. -/
theorem untabbed_tab (hfeed : '\n' ∉ s) (htab : '\t' ∉ s) (h : IsTab cells (line ++ s) n) :
    Untabbed cells line (s ++ '\t' :: text) untabbed ↔
      Untabbed cells line (s ++ List.replicate n ' ' ++ text) untabbed := by
  rw [List.append_assoc, untabbed_append hfeed htab, untabbed_append hfeed htab]
  refine exists_congr fun rest => and_congr_right fun _ => ?_
  rw [untabbed_append (not_mem_blanks (by decide) n) (not_mem_blanks (by decide) n)]
  constructor
  · intro hrest
    cases hrest with
    | tab htab' hrest =>
      obtain rfl := h.eq htab'
      exact ⟨_, rfl, hrest⟩
    | other _ hne => exact absurd rfl hne
  · rintro ⟨_, rfl, hrest⟩
    exact .tab h hrest

/-- The next line begins by itself. -/
theorem untabbed_lineFeed (hfeed : '\n' ∉ s) {untabbed' : List Char}
    (hfirst : Untabbed cells line s untabbed) (hrest : Untabbed cells [] text untabbed') :
    Untabbed cells line (s ++ '\n' :: text) (untabbed ++ '\n' :: untabbed') := by
  induction hfirst with
  | nil => exact .lineFeed hrest
  | lineFeed => exact absurd List.mem_cons_self hfeed
  | tab htab _ ih =>
    rw [List.append_assoc]
    exact .tab htab (ih (List.not_mem_of_not_mem_cons hfeed))
  | other hne hne' _ ih => exact .other hne hne' (ih (List.not_mem_of_not_mem_cons hfeed))

/-- By induction on the text: each tab has its own number of blanks. -/
theorem untabbed_unique {untabbed' : List Char} (h : Untabbed cells line text untabbed)
    (h' : Untabbed cells line text untabbed') : untabbed = untabbed' := by
  induction h generalizing untabbed' with
  | nil =>
    cases h'
    rfl
  | lineFeed _ ih =>
    cases h' with
    | lineFeed h' => rw [ih h']
    | other hne => exact absurd rfl hne
  | tab htab _ ih =>
    cases h' with
    | tab htab' h' =>
      obtain rfl := htab.eq htab'
      rw [ih h']
    | other _ hne => exact absurd rfl hne
  | other hne hne' _ ih =>
    cases h' with
    | lineFeed => exact absurd rfl hne
    | tab => exact absurd rfl hne'
    | other _ _ h' => rw [ih h']

end Untabbed

def IsFlat (s : List Char) : Prop :=
  '\n' ∉ s ∧ '\t' ∉ s

/-- What is relied on of a console. Lines are printed one by one. On a line, a tab is printed as the
blanks up to the next tab stop, and the pieces are printed one by one: nothing is wrapped or cut
off, and a style is turned on and off again by escape sequences around its text. -/
structure Console.Documented (console : Console) : Prop where
  lines : ∀ before style text text' after, '\n' ∉ plainText before → '\n' ∉ text →
    console.print (before ++ ⟨style, text ++ '\n' :: text'⟩ :: after) =
      console.print (before ++ [⟨style, text⟩]) ++ '\n' :: console.print (⟨style, text'⟩ :: after)
  tabs : ∀ before style text text' after,
    '\n' ∉ plainText (before ++ ⟨style, text ++ '\t' :: text'⟩ :: after) →
    '\t' ∉ plainText before → '\t' ∉ text → ∃ n, IsTab console.cells (plainText before ++ text) n ∧
      console.print (before ++ ⟨style, text ++ '\t' :: text'⟩ :: after) =
        console.print (before ++ ⟨style, text ++ List.replicate n ' '⟩ :: ⟨style, text'⟩ :: after)
  pieces : ∀ piece rest, IsFlat (plainText (piece :: rest)) →
    console.print (piece :: rest) = console.print [piece] ++ console.print rest
  nothing : console.print [] = []
  empty : ∀ style, console.print [⟨style, []⟩] = []
  unstyled : ∀ text, IsFlat text → console.print [⟨none, text⟩] = text
  styled : ∀ style text, text ≠ [] → IsFlat text → ∃ on off, 'm' ∉ on ∧ 'm' ∉ off ∧
    console.print [⟨some style, text⟩] = escape on ++ text ++ escape off

theorem isFlat_cons (piece : Piece) (line : List Piece) :
    IsFlat (plainText (piece :: line)) ↔ IsFlat piece.text ∧ IsFlat (plainText line) := by
  simp only [IsFlat, plainText_cons, List.mem_append, not_or]
  exact and_and_and_comm

section Printing
variable {console : Console} {pieces line : List Piece}

/-- A character of a text stands in one of its pieces. The first time that it comes up, it is in
none of the pieces before. -/
theorem exists_first {c : Char} (h : c ∈ plainText pieces) : ∃ before style text text' after,
    pieces = before ++ ⟨style, text ++ c :: text'⟩ :: after ∧ c ∉ plainText before ∧ c ∉ text := by
  induction pieces with
  | nil => cases h
  | cons piece pieces ih =>
    by_cases hpiece : c ∈ piece.text
    · obtain ⟨text, text', htext, hfirst⟩ := List.eq_append_cons_of_mem hpiece
      refine ⟨[], piece.style, text, text', pieces, ?_, List.not_mem_nil, hfirst⟩
      rw [List.nil_append, ← htext]
    · rw [plainText_cons, List.mem_append, or_iff_right hpiece] at h
      obtain ⟨before, style, text, text', after, rfl, hbefore, htext⟩ := ih h
      refine ⟨piece :: before, style, text, text', after, rfl, ?_, htext⟩
      rw [plainText_cons, List.mem_append, not_or]
      exact ⟨hpiece, hbefore⟩

section Cut
variable (before : List Piece) (style : Option Style) (text text' : List Char) (after : List Piece)

theorem plainText_tab : plainText (before ++ ⟨style, text ++ '\t' :: text'⟩ :: after) =
    plainText before ++ text ++ '\t' :: (text' ++ plainText after) := by
  simp

theorem plainText_blanked (n : Nat) :
    plainText (before ++ ⟨style, text ++ List.replicate n ' '⟩ :: ⟨style, text'⟩ :: after) =
      plainText before ++ text ++ List.replicate n ' ' ++ (text' ++ plainText after) := by
  simp

end Cut

namespace Console.Documented

/-- A piece is printed between two escape sequences, or none. -/
theorem withoutEscapes_piece (h : console.Documented) {piece : Piece} (hflat : IsFlat piece.text)
    (hescape : '\x1b' ∉ piece.text) (rest : List Char) :
    withoutEscapes (console.print [piece] ++ rest) = piece.text ++ withoutEscapes rest := by
  obtain ⟨style, text⟩ := piece
  cases style with
  | none => rw [h.unstyled text hflat, withoutEscapes_append hescape]
  | some style =>
    cases text with
    | nil => rw [h.empty, List.nil_append, List.nil_append]
    | cons c text =>
      obtain ⟨on, off, hon, hoff, hprint⟩ := h.styled style _ (List.cons_ne_nil c text) hflat
      rw [hprint, List.append_assoc, List.append_assoc, withoutEscapes_escape hon,
        withoutEscapes_append hescape, withoutEscapes_escape hoff]

/-- Pieces without tabs are printed one by one. -/
theorem withoutEscapes_flat (h : console.Documented) (hflat : IsFlat (plainText line))
    (hescape : '\x1b' ∉ plainText line) (rest : List Char) :
    withoutEscapes (console.print line ++ rest) = plainText line ++ withoutEscapes rest := by
  induction line with
  | nil => rw [h.nothing, plainText_nil, List.nil_append, List.nil_append]
  | cons piece line ih =>
    obtain ⟨hpiece, hline⟩ := (isFlat_cons piece line).mp hflat
    rw [plainText_cons, List.mem_append, not_or] at hescape
    rw [h.pieces piece line hflat, List.append_assoc, h.withoutEscapes_piece hpiece hescape.1,
      ih hline hescape.2, plainText_cons, List.append_assoc]

/-- A line is printed with blanks in place of its tabs. -/
theorem withoutEscapes_line (h : console.Documented) (hfeed : '\n' ∉ plainText line)
    (hescape : '\x1b' ∉ plainText line) : ∃ untabbed,
      Untabbed console.cells [] (plainText line) untabbed ∧
      ∀ rest, withoutEscapes (console.print line ++ rest) = untabbed ++ withoutEscapes rest := by
  -- The first tab goes, and the line has one tab less.
  induction htabs : (plainText line).count '\t' generalizing line with
  | zero =>
    have htab : '\t' ∉ plainText line := List.count_eq_zero.mp htabs
    refine ⟨plainText line, ?_, h.withoutEscapes_flat ⟨hfeed, htab⟩ hescape⟩
    rw [← List.append_nil (plainText line), untabbed_append hfeed htab]
    exact ⟨[], rfl, .nil⟩
  | succ tabs ih =>
    have htab : '\t' ∈ plainText line := List.count_pos_iff.mp (by omega)
    obtain ⟨before, style, text, text', after, rfl, hbefore, htext⟩ := exists_first htab
    obtain ⟨n, hn, hprint⟩ := h.tabs before style text text' after hfeed hbefore htext
    have hless := plainText_blanked before style text text' after n
    rw [plainText_tab] at hfeed hescape htabs ⊢
    have hone := count_blanked (plainText before ++ text) (text' ++ plainText after) n
    obtain ⟨untabbed, huntabbed, hrest⟩ := ih (hless ▸ not_mem_blanked (by decide) hfeed n)
      (hless ▸ not_mem_blanked (by decide) hescape n) (hless ▸ by omega)
    refine ⟨untabbed, ?_, fun rest => by rw [hprint, hrest]⟩
    rw [hless] at huntabbed
    have hfront : '\n' ∉ plainText before ++ text := fun h => hfeed (List.mem_append_left _ h)
    have hfront' : '\t' ∉ plainText before ++ text :=
      fun h => (List.mem_append.mp h).elim hbefore htext
    exact (untabbed_tab hfront hfront' hn).mpr huntabbed

/-- Once its escape sequences are deleted, what is printed is the text with blanks in place of its
tabs, and nothing else is. -/
theorem withoutEscapes_print (h : console.Documented) (hescape : '\x1b' ∉ plainText pieces) :
    Untabbed console.cells [] (plainText pieces) (withoutEscapes (console.print pieces)) := by
  -- The first line goes, and the text has one line less.
  induction hfeeds : (plainText pieces).count '\n' generalizing pieces with
  | zero =>
    have hfeed : '\n' ∉ plainText pieces := List.count_eq_zero.mp hfeeds
    obtain ⟨untabbed, huntabbed, hrest⟩ := h.withoutEscapes_line hfeed hescape
    have hprint := hrest []
    rw [List.append_nil, withoutEscapes, List.append_nil] at hprint
    rwa [hprint]
  | succ feeds ih =>
    have hfeed : '\n' ∈ plainText pieces := List.count_pos_iff.mp (by omega)
    obtain ⟨before, style, text, text', after, rfl, hbefore, htext⟩ := exists_first hfeed
    have htext' : plainText (before ++ ⟨style, text ++ '\n' :: text'⟩ :: after) =
        plainText (before ++ [⟨style, text⟩]) ++ '\n' :: plainText (⟨style, text'⟩ :: after) := by
      simp
    have hfirst : '\n' ∉ plainText (before ++ [⟨style, text⟩]) := by
      simpa using ⟨hbefore, htext⟩
    rw [htext', List.mem_append, List.mem_cons, not_or, not_or] at hescape
    rw [htext', List.count_append, List.count_cons_self, List.count_eq_zero.mpr hfirst] at hfeeds
    obtain ⟨untabbed, huntabbed, hrest⟩ := h.withoutEscapes_line hfirst hescape.1
    have hnext (rest : List Char) : withoutEscapes ('\n' :: rest) = '\n' :: withoutEscapes rest :=
      withoutEscapes_append (s := ['\n']) (by decide) rest
    rw [h.lines before style text text' after hbefore htext, hrest, hnext, htext']
    exact untabbed_lineFeed hfirst huntabbed (ih hescape.2.2 (by omega))

end Console.Documented

end Printing

end RandomTables.Text
