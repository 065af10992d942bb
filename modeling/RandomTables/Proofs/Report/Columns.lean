import RandomTables.Proofs.Decimal.Percent
import RandomTables.Proofs.Diagnostic.Line
import RandomTables.Proofs.Diagnostic.Message
import RandomTables.Report.Distribution

namespace RandomTables
open Decimal

section Fields
variable {s : String} {places : Nat} {x : ℚ} {literal : List Char}

/-- Blanks in front do not end a line. -/
theorem oneLine_padLeft (h : OneLine s) (width : Nat) : OneLine (Text.padLeft ' ' width s) := by
  rw [OneLine, Text.padLeft, String.toList_ofList, List.leftpad, List.mem_append, not_or]
  exact ⟨fun hmem => absurd (List.eq_of_mem_replicate hmem) (by decide), h⟩

theorem oneLine_padRight (h : OneLine s) (width : Nat) : OneLine (Text.padRight ' ' width s) := by
  rw [OneLine, Text.padRight, String.toList_ofList, List.rightpad, List.mem_append, not_or]
  exact ⟨h, fun hmem => absurd (List.eq_of_mem_replicate hmem) (by decide)⟩

theorem oneLine_take (h : OneLine s) (n : Nat) : OneLine (String.ofList (s.toList.take n)) :=
  oneLine_ofList fun hmem => h (List.mem_of_mem_take hmem)

/-- Digits and a point are all that a literal has. -/
theorem Decimal.IsFixedPlaces.oneLine (h : IsFixedPlaces places x literal) :
    OneLine (String.ofList literal) := by
  obtain ⟨whole, fraction, rfl, -, -, hdigits⟩ := h.parts
  obtain ⟨hwhole, hfraction⟩ := List.forall_mem_append.mp hdigits
  refine oneLine_ofList ?_
  rw [List.mem_append, List.mem_cons, not_or, not_or]
  exact ⟨not_mem_of_property (by decide) hwhole, by decide,
    not_mem_of_property (by decide) hfraction⟩

/-- No column has a line feed, whatever the share is. -/
theorem Decimal.PercentFormat.Shows.oneLine {format : PercentFormat} {share : Float} {text : String}
    (h : format.Shows share text) : OneLine text := by
  have hsign (negative : Bool) : OneLine (format.sign negative) := by
    rw [sign]
    split
    · decide
    · split <;> decide
  cases hfinite : (share * 100).isFinite with
  | true =>
    obtain ⟨negative, literal, rfl, -, -, hplaces⟩ := h.number hfinite
    exact oneLine_append (oneLine_append (hsign negative) hplaces.oneLine) (by decide)
  | false =>
    obtain rfl | ⟨negative, rfl⟩ := h.noNumber hfinite
    · exact oneLine_append (hsign false) (by decide)
    · exact oneLine_append (hsign negative) (by decide)

end Fields

namespace Distribution

/-- The line of a row, in four columns: the text of the row, of which the first thirty characters
are shown, its two shares and their difference. -/
inductive RowLine (row : Row Float) : String → Prop
  | columns {expected observed difference : String}
    (hexpected : shareFormat.Shows row.expected expected)
    (hobserved : shareFormat.Shows row.observed observed)
    (hdifference : differenceFormat.Shows (row.observed - row.expected) difference) :
    RowLine row (Text.padRight ' ' 30 (String.ofList (row.text.toList.take 30)) ++ " " ++
      Text.padLeft ' ' 9 expected ++ " " ++ Text.padLeft ' ' 9 observed ++ " " ++
      Text.padLeft ' ' 8 difference)

def reportLines (id : String) (trials : Nat) (rowLines : List String) (greatest : String) :
    List String :=
  ["Table: " ++ id, "Trials: " ++ toString trials,
    "rule                            expected  observed    delta"] ++ rowLines ++
    ["Largest deviation: " ++ greatest]

/-- No difference of a row, regardless of its sign, is greater, and it is one of them or zero. Those
that are not numbers are not compared. -/
structure IsWorst (rows : List (Row Float)) (greatest : Float) : Prop where
  reached : greatest = 0 ∨ ∃ row ∈ rows, greatest = (row.observed - row.expected).abs
  most : ∀ row ∈ rows, ¬greatest < (row.observed - row.expected).abs

/-- What a report says, line by line, up to the end behind its last line feed. Each row has a line
of its own, and the last line has the greatest difference. -/
inductive Prints (id : String) (trials : Nat) (rows : List (Row Float)) : List (List Char) → Prop
  | lines {rowLines : List String} {greatest : Float} {last : String}
    (hrows : List.Forall₂ RowLine rows rowLines) (hworst : IsWorst rows greatest)
    (hlast : shareFormat.Shows greatest last) :
    Prints id trials rows ((reportLines id trials rowLines last).map String.toList ++ [[]])

/-- By induction from the last row, which counts if its difference is greater than all before. -/
theorem isWorst_worst (rows : List (Row Float)) : IsWorst rows (worst rows) := by
  induction rows using List.reverseRecOn with
  | nil => exact ⟨.inl rfl, nofun⟩
  | append_singleton rows row ih =>
    have hstep : worst (rows ++ [row]) =
        if worst rows < (row.observed - row.expected).abs then (row.observed - row.expected).abs
        else worst rows :=
      List.foldl_concat _ _ _ _
    rw [hstep]
    split
    · rename_i hgreater
      refine ⟨.inr ⟨row, by simp, rfl⟩, fun other hother => ?_⟩
      rcases List.mem_append.mp hother with hbefore | hlast
      · exact fun hlt => ih.most other hbefore (Decimal.lt_trans hgreater hlt)
      · rw [List.mem_singleton.mp hlast]
        exact Decimal.lt_irrefl _
    · rename_i hless
      refine ⟨ih.reached.imp_right ?_, fun other hother => ?_⟩
      · rintro ⟨other, hother, heq⟩
        exact ⟨other, List.mem_append_left _ hother, heq⟩
      · rcases List.mem_append.mp hother with hbefore | hlast
        · exact ih.most other hbefore
        · rwa [List.mem_singleton.mp hlast]

/-- A row is printed as its line, with a line feed behind it. -/
theorem exists_rowLine (row : Row Float) : ∃ line, RowLine row line ∧ row.render = line ++ "\n" :=
  ⟨_, .columns (PercentFormat.shows_render (by decide) _) (PercentFormat.shows_render (by decide) _)
    (PercentFormat.shows_render (by decide) _), rfl⟩

theorem RowLine.oneLine {row : Row Float} {line : String} (h : RowLine row line)
    (htext : OneLine row.text) : OneLine line := by
  cases h with
  | columns hexpected hobserved hdifference =>
    have hshown := oneLine_padRight (oneLine_take htext 30) 30
    have hfirst := oneLine_append (oneLine_append hshown (by decide : OneLine " "))
      (oneLine_padLeft hexpected.oneLine 9)
    have hsecond := oneLine_append (oneLine_append hfirst (by decide : OneLine " "))
      (oneLine_padLeft hobserved.oneLine 9)
    exact oneLine_append (oneLine_append hsecond (by decide))
      (oneLine_padLeft hdifference.oneLine 8)

/-- If no text of a row has a line feed, then no line of a row has one, and the rows are as many
lines. -/
theorem exists_rowLines {rows : List (Row Float)} (htexts : ∀ row ∈ rows, OneLine row.text) :
    ∃ rowLines, List.Forall₂ RowLine rows rowLines ∧ (∀ line ∈ rowLines, OneLine line) ∧
      (String.join (rows.map Row.render)).toList = Text.endedText (rowLines.map String.toList) := by
  induction rows with
  | nil => exact ⟨[], .nil, nofun, rfl⟩
  | cons row rows ih =>
    obtain ⟨htext, htexts⟩ := List.forall_mem_cons.mp htexts
    obtain ⟨line, hline, hrender⟩ := exists_rowLine row
    obtain ⟨rowLines, hrows, honeLine, hjoin⟩ := ih htexts
    refine ⟨line :: rowLines, .cons hline hrows,
      List.forall_mem_cons.mpr ⟨hline.oneLine htext, honeLine⟩, ?_⟩
    rw [List.map_cons, String.join_cons, String.toList_append, hjoin, hrender, String.toList_append,
      List.map_cons, Text.endedText_cons]
    simp

theorem oneLine_toString (n : Nat) : OneLine (toString n) := by
  change '\n' ∉ n.repr.toList
  rw [Nat.toList_repr]
  exact not_mem_of_property (by decide) (isDigit_of_mem_toDigits n)

/-- A report is its lines, each with a line feed behind it. -/
theorem toList_render {id : String} {trials : Nat} {rows : List (Row Float)}
    {rowLines : List String} (hjoin : (String.join (rows.map Row.render)).toList =
      Text.endedText (rowLines.map String.toList)) :
    (render id trials rows).toList = Text.endedText
      ((reportLines id trials rowLines (shareFormat.render (worst rows))).map String.toList) := by
  have hheading : "rule                            expected  observed    delta" =
      Text.padRight ' ' 30 "rule" ++ " " ++ Text.padLeft ' ' 9 "expected" ++ " " ++
        Text.padLeft ' ' 9 "observed" ++ " " ++ Text.padLeft ' ' 8 "delta" := by decide
  have hbreak : "\nTrials: ".toList = '\n' :: "Trials: ".toList := rfl
  unfold render
  simp only [reportLines, hheading, List.map_append, Text.endedText_append, ← hjoin, List.map_cons,
    List.map_nil, Text.endedText_cons, Text.endedText_nil, String.toList_append, hbreak,
    List.append_assoc, List.cons_append, toString]
  rfl

/-- A report is printed line by line where no text and no name has a line feed. -/
theorem prints_render {id : String} {rows : List (Row Float)} (trials : Nat) (hid : OneLine id)
    (htexts : ∀ row ∈ rows, OneLine row.text) :
    Prints id trials rows (Text.rawLines (render id trials rows).toList) := by
  obtain ⟨rowLines, hrows, honeLine, hjoin⟩ := exists_rowLines htexts
  have hlast := PercentFormat.shows_render (by decide : 0 < shareFormat.places) (worst rows)
  rw [toList_render hjoin]
  generalize shareFormat.render (worst rows) = last at hlast ⊢
  have hlines : ∀ line ∈ reportLines id trials rowLines last, OneLine line := by
    simp only [reportLines, List.forall_mem_append, List.forall_mem_cons]
    exact ⟨⟨⟨oneLine_append (by decide) hid, oneLine_append (by decide) (oneLine_toString trials),
      by decide, nofun⟩, honeLine⟩, oneLine_append (by decide) hlast.oneLine, nofun⟩
  rw [← List.append_nil (Text.endedText _),
    Text.rawLines_endedText _ _ (List.forall_mem_map.mpr hlines)]
  exact .lines hrows (isWorst_worst rows) hlast

end Distribution

end RandomTables
