import RandomTables.Proofs.Decimal.Numeral
import RandomTables.Proofs.Diagnostic.Line
import RandomTables.Proofs.Diagnostic.Message

namespace RandomTables

namespace Text

def visible (s : List Char) : List Char :=
  s.filter (!movesCursor ·)

/-- Characters are left out one by one. -/
theorem visible_append (s t : List Char) : visible (s ++ t) = visible s ++ visible t :=
  List.filter_append s t

theorem visible_eq_self {s : List Char} (h : ∀ c ∈ s, movesCursor c = false) : visible s = s := by
  rw [visible, List.filter_eq_self]
  intro c hc
  rw [h c hc]
  rfl

theorem not_mem_visible {c : Char} {s : List Char} (h : c ∉ s) : c ∉ visible s :=
  fun hmem => h (List.mem_of_mem_filter hmem)

/-- What is shown and what is left out make up the text. -/
theorem length_visible (s : List Char) :
    (visible s).length + s.countP movesCursor = s.length := by
  have hshown : (fun c => decide ¬movesCursor c = true) = fun c => !movesCursor c := by
    funext c
    simp
  rw [visible, ← List.countP_eq_length_filter, List.length_eq_countP_add_countP movesCursor, hshown,
    Nat.add_comm]

/-- A character that is shown comes next after all that is shown before it. -/
theorem getElem?_visible_iff (s : List Char) (k : Nat) :
    (visible s)[(visible (s.take k)).length]? = s[k]? ↔ ∀ c ∈ s[k]?, movesCursor c = false := by
  have hsplit : visible s = visible (s.take k) ++ visible (s.drop k) := by
    rw [← visible_append, List.take_append_drop]
  have hhead : s[k]? = (s.drop k).head? := by rw [List.head?_drop]
  rw [hsplit, List.getElem?_append_right (Nat.le_refl _), Nat.sub_self, ← List.head?_eq_getElem?,
    hhead]
  cases s.drop k with
  | nil => simp [visible]
  | cons c rest =>
    cases hc : movesCursor c with
    | false => simp [visible, hc]
    | true =>
      have hne : (visible rest).head? ≠ some c := by
        intro hfirst
        have hmem : c ∈ visible rest := List.mem_of_mem_head? hfirst
        have hshown := (List.mem_filter.mp hmem).2
        rw [hc] at hshown
        cases hshown
      simpa [visible, hc] using hne

end Text

namespace Diagnostic
variable {d : Diagnostic}

def gutter (d : Diagnostic) : List Char :=
  (lineLabel d.location.line ++ " │ ").toList

theorem text_ofString_lineFeed (style : Option Text.Style) (s : String) :
    (Text.Piece.ofString style (s ++ "\n")).text = Text.visible s.toList ++ ['\n'] := by
  rw [Text.Piece.ofString, String.toList_append]
  exact Text.visible_append s.toList ['\n']

def placeRow (d : Diagnostic) : String :=
  toString "    ┌─ line " ++ toString d.location.line ++ toString ":" ++ toString d.location.column

/-- The rows of the excerpt, with what the suggestion adds to them. -/
theorem toList_render (d : Diagnostic) : d.render.toList =
    (Text.visible d.heading.toList ++ Text.visible (": " ++ d.message).toList) ++ '\n' ::
      (Text.visible d.placeRow.toList ++ '\n' :: ("    │".toList ++ '\n' ::
        (Text.visible d.gutter ++ Text.visible d.sourceLine.toList ++ '\n' ::
          (Text.visible "    │ ".toList ++ Text.visible d.carets.toList ++ '\n' ::
            Text.plainText ((d.pieces true).drop 8))))) := by
  obtain ⟨rest, hrest, hpieces⟩ : ∃ rest, (d.pieces true).drop 8 = rest ∧ d.pieces true =
      [.ofString (some .boldRed) d.heading, .ofString (some .bold) (": " ++ d.message ++ "\n"),
        .ofString (some .blue) (d.placeRow ++ "\n"), .ofString (some .blue) "    │\n",
        .ofString (some .blue) (lineLabel d.location.line ++ " │ "),
        .ofString none (d.sourceLine ++ "\n"), .ofString (some .blue) "    │ ",
        .ofString (some .boldRed) (d.carets ++ "\n")] ++ rest := ⟨_, rfl, rfl⟩
  have hbar : (Text.Piece.ofString (some .blue) "    │\n").text = "    │".toList ++ ['\n'] := by
    decide
  have hplain : d.render.toList = Text.plainText (d.pieces true) := String.toList_ofList
  rw [hplain, hrest, hpieces, Text.plainText]
  simp only [List.flatMap_append, List.flatMap_cons, List.flatMap_nil, text_ofString_lineFeed, hbar]
  simp only [Text.Piece.ofString, List.append_assoc, List.cons_append, List.nil_append,
    Text.plainText]
  rfl

/-- Numbers, blanks and the bar are all that stands in a gutter. -/
theorem mem_gutter {c : Char} (hc : c ∈ d.gutter) :
    Text.isDigit c = true ∨ c = '-' ∨ c = ' ' ∨ c = '│' := by
  rw [gutter, String.toList_append, List.mem_append, lineLabel, Text.padLeft, String.toList_ofList,
    List.leftpad, List.mem_append] at hc
  rcases hc with (hblank | hdigit) | hbar
  · exact .inr (.inr (.inl (List.eq_of_mem_replicate hblank)))
  · rcases Decimal.digit_or_minus_of_mem_toString _ _ hdigit with hdigit | hminus
    · exact .inl hdigit
    · exact .inr (.inl hminus)
  · have hcells : c ∈ [' ', '│', ' '] := hbar
    simp only [List.mem_cons, List.not_mem_nil, or_false] at hcells
    tauto

/-- A number takes three cells, or as many as it has digits. -/
theorem length_gutter {number : Nat} (h : d.location.line = number) :
    d.gutter.length = max 3 (toString number).length + 3 := by
  rw [gutter, String.toList_append, List.length_append, lineLabel, Text.padLeft,
    String.toList_ofList, List.length_leftpad, h]
  rfl

theorem visible_gutter (d : Diagnostic) : Text.visible d.gutter = d.gutter := by
  refine Text.visible_eq_self fun c hc => ?_
  cases hmoves : Text.movesCursor c with
  | false => rfl
  | true =>
    simp only [Text.movesCursor, Bool.or_eq_true, beq_iff_eq] at hmoves
    have hno := mem_gutter hc
    rcases hmoves with (((rfl | rfl) | rfl) | rfl) | rfl <;> revert hno <;> decide

/-- The first caret stands in the column of the place, whatever comes after it. -/
theorem toList_carets (d : Diagnostic) : ∃ more, d.carets.toList =
    List.replicate (d.location.column - 1).toNat ' ' ++ '^' :: List.replicate more '^' := by
  have hmarks (marked : Int) (h : 1 ≤ marked) : ∃ more,
      (Text.repeated marked.toNat '^').toList = '^' :: List.replicate more '^' := by
    obtain ⟨more, hmore⟩ : ∃ more, marked.toNat = more + 1 := ⟨(marked - 1).toNat, by omega⟩
    refine ⟨more, ?_⟩
    rw [Text.repeated, String.toList_ofList, hmore, List.replicate_succ]
  have hleast : 1 ≤ d.location.endColumn.elim 1 fun stop => max (stop - d.location.column) 1 := by
    cases d.location.endColumn with
    | none => exact Int.le_refl 1
    | some stop => exact Int.le_max_right _ _
  obtain ⟨more, hmore⟩ := hmarks _ hleast
  refine ⟨more, ?_⟩
  rw [carets, String.toList_append, ← hmore, Text.repeated, String.toList_ofList]
  cases d.location.endColumn <;> rfl

/-- Carets are shown as they are. -/
theorem visible_carets (d : Diagnostic) : Text.visible d.carets.toList = d.carets.toList := by
  obtain ⟨more, hcarets⟩ := toList_carets d
  refine Text.visible_eq_self fun c hc => ?_
  rw [hcarets, List.mem_append, List.mem_cons] at hc
  rcases hc with hc | rfl | hc
  · rw [List.eq_of_mem_replicate hc]
    decide
  · decide
  · rw [List.eq_of_mem_replicate hc]
    decide

/-- The row of the carets begins with six cells that are no carets. -/
theorem findIdx_carets (d : Diagnostic) :
    ("    │ ".toList ++ d.carets.toList).findIdx? (· = '^') =
      some (6 + (d.location.column - 1).toNat) := by
  obtain ⟨more, hcarets⟩ := toList_carets d
  have hblanks : (List.replicate (d.location.column - 1).toNat ' ').findIdx? (· = '^') = none := by
    rw [List.findIdx?_eq_none_iff]
    intro c hc
    rw [List.eq_of_mem_replicate hc]
    decide
  have hbar : "    │ ".toList.findIdx? (· = '^') = none := by decide
  rw [hcarets, List.findIdx?_append, hbar, List.findIdx?_append, hblanks, List.findIdx?_cons,
    List.length_replicate]
  simp only [decide_true, if_true, Option.none_or, Option.map_some, Nat.zero_add,
    Option.some.injEq]
  exact Nat.add_comm _ _

/-- The fourth row is the row of the source, and the fifth that of the carets. -/
theorem rows_render (h : d.IsOneLine) (hsource : OneLine d.sourceLine) :
    (Text.rawLines d.render.toList)[3]? =
        some (d.gutter ++ Text.visible d.sourceLine.toList) ∧
      (Text.rawLines d.render.toList)[4]? = some ("    │ ".toList ++ d.carets.toList) := by
  have hrender := toList_render d
  have hnumber (z : Int) : OneLine (toString z) := by
    intro hmem
    rcases Decimal.digit_or_minus_of_mem_toString z _ hmem with h | h <;> exact absurd h (by decide)
  have hmessage : OneLine (": " ++ d.message) :=
    oneLine_append (by decide) h.message
  have hplace : OneLine d.placeRow :=
    oneLine_append (oneLine_append (oneLine_append (by decide) (hnumber _)) (by decide))
      (hnumber _)
  have hgutter : '\n' ∉ d.gutter := fun hmem => by
    have hcell := mem_gutter hmem
    revert hcell
    decide
  have hcarets : '\n' ∉ "    │ ".toList ++ d.carets.toList := by
    obtain ⟨more, hcarets⟩ := toList_carets d
    simp [hcarets]
  have hbar : Text.visible "    │ ".toList = "    │ ".toList := by decide
  have hfirst :
      '\n' ∉ Text.visible d.heading.toList ++ Text.visible (": " ++ d.message).toList := by
    rw [List.mem_append, not_or]
    exact ⟨Text.not_mem_visible h.heading, Text.not_mem_visible hmessage⟩
  have hline : '\n' ∉ d.gutter ++ Text.visible d.sourceLine.toList := by
    rw [List.mem_append, not_or]
    exact ⟨hgutter, Text.not_mem_visible hsource⟩
  rw [hrender, visible_gutter, visible_carets, hbar, Text.rawLines_append_lineFeed _ _ hfirst,
    Text.rawLines_append_lineFeed _ _ (Text.not_mem_visible hplace),
    Text.rawLines_append_lineFeed _ _ (by decide), Text.rawLines_append_lineFeed _ _ hline,
    Text.rawLines_append_lineFeed _ _ hcarets]
  exact ⟨rfl, rfl⟩

end Diagnostic

end RandomTables
