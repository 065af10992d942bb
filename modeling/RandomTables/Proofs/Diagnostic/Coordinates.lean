import RandomTables.Proofs.Diagnostic.Line

namespace RandomTables
open Text (endedText rawLines withoutReturn)

/-- The line of the given index, counted from zero, has its characters from `start` up to `stop`. It
stands behind all lines before it and their line feeds, and is without the one return that may be at
its end. -/
def HasLine (source : List Char) (index start stop : Nat) : Prop :=
  ∃ raw, (source.splitOn '\n')[index]? = some raw ∧
    start = (endedText ((source.splitOn '\n').take index)).length ∧
    stop = start + (withoutReturn raw).length

def OnLine (source : List Char) (index start stop offset : Nat) : Prop :=
  HasLine source index start stop ∧ start ≤ offset ∧ offset ≤ stop

def Location.Precedes (l m : Location) : Prop :=
  l.line < m.line ∨ l.line = m.line ∧ l.column < m.column

structure LineTable.Coordinates (t : LineTable) (source : List Char) : Prop where
  locate : ∀ {index start stop offset : Nat}, OnLine source index start stop offset →
    t.locate offset =
      { position := offset, line := index + 1, column := (offset - start + 1 : Nat) }
  text : ∀ {index start stop offset : Nat}, OnLine source index start stop offset →
    t.textAt offset = String.ofList (source.extract start stop)
  increasing : ∀ {index start stop offset index' start' stop' offset' : Nat},
    OnLine source index start stop offset → OnLine source index' start' stop' offset' →
    offset < offset' → (t.locate offset).Precedes (t.locate offset')
  /-- A stretch of text is cut out of its first line, as far as it stands there. -/
  span : ∀ {index start stop offset : Nat}, OnLine source index start stop offset →
    ∀ stretchEnd, offset ≤ stretchEnd → ∃ column endColumn : Nat,
      t.locateSpan offset stretchEnd =
        { position := offset, line := index + 1, column, endPosition := some (stretchEnd : Int)
          endColumn := some (endColumn : Int) } ∧
      column = offset - start + 1 ∧ column ≤ endColumn ∧ endColumn ≤ stop - start + 1 ∧
      (t.textAt offset).toList.extract (column - 1) (endColumn - 1) =
        source.extract offset (min stretchEnd stop)

namespace Text

/-- The lines of a text are what stands between its line feeds. -/
theorem splitOn_eq_rawLines (s : List Char) : s.splitOn '\n' = rawLines s := by
  induction s with
  | nil => rfl
  | cons c s ih =>
    rw [List.splitOn, List.splitOnP_cons_eq_if_modifyHead]
    change (if (c == '\n') = true then [] :: s.splitOn '\n'
      else (s.splitOn '\n').modifyHead (c :: ·)) = _
    rw [ih]
    by_cases hc : c = '\n'
    · simp [rawLines, linesOf, hc]
    · simp [rawLines, linesOf, hc]

end Text

section Lines
variable {source raw : List Char} {index : Nat}

/-- What stands before a line, and what may stand behind it. -/
theorem exists_of_line (h : (source.splitOn '\n')[index]? = some raw) :
    ∃ rest, source = endedText ((source.splitOn '\n').take index) ++ (raw ++ rest) ∧
      (∀ before ∈ (source.splitOn '\n').take index, '\n' ∉ before) ∧ '\n' ∉ raw ∧
      ((source.splitOn '\n').take index).length = index ∧
      (rest = [] ∨ rest.head? = some '\n') := by
  obtain ⟨raws, last, rfl, hraws, hlast⟩ := Text.exists_endedText source
  have hlines : (endedText raws ++ last).splitOn '\n' = raws ++ [last] := by
    rw [Text.splitOn_eq_rawLines, Text.rawLines_endedText raws last hraws,
      Text.rawLines_of_not_mem last hlast]
  rw [hlines] at h ⊢
  obtain ⟨hindex, hget⟩ := List.getElem?_eq_some_iff.mp h
  rw [List.length_append, List.length_singleton] at hindex
  have hlength : ((raws ++ [last]).take index).length = index := by
    rw [List.length_take, List.length_append, List.length_singleton]
    omega
  by_cases hended : index < raws.length
  · -- The line is one of those that a line feed ends, so the next lines begin behind that.
    rw [List.getElem_append_left hended] at hget
    have htake : (raws ++ [last]).take index = raws.take index :=
      List.take_append_of_le_length hended.le
    have hsplit : raws = raws.take index ++ raw :: raws.drop (index + 1) := by
      rw [← hget, ← List.drop_eq_getElem_cons hended, List.take_append_drop]
    refine ⟨'\n' :: (endedText (raws.drop (index + 1)) ++ last), ?_, ?_, ?_, hlength, .inr rfl⟩
    · rw [htake]
      conv_lhs => rw [hsplit]
      rw [Text.endedText_append, Text.endedText_cons]
      simp only [List.append_assoc, List.cons_append]
    · rw [htake]
      intro before hbefore
      exact hraws before (List.mem_of_mem_take hbefore)
    · rw [← hget]
      exact hraws _ (List.getElem_mem hended)
  · -- Only the last line is left, which the end of the text ends.
    obtain rfl : index = raws.length := by omega
    obtain rfl : last = raw := by simpa using hget
    refine ⟨[], ?_, ?_, hlast, hlength, .inl rfl⟩
    · rw [List.take_left, List.append_nil]
    · rw [List.take_left]
      exact hraws

/-- A line ends before the next one begins. -/
theorem stop_lt_of_hasLine {index' start stop start' stop' : Nat}
    (h : HasLine source index start stop) (h' : HasLine source index' start' stop')
    (hlt : index < index') : stop < start' := by
  obtain ⟨raw, hraw, rfl, rfl⟩ := h
  obtain ⟨raw', -, rfl, -⟩ := h'
  obtain ⟨hindex, hget⟩ := List.getElem?_eq_some_iff.mp hraw
  have hnext : (source.splitOn '\n').take (index + 1) =
      (source.splitOn '\n').take index ++ [raw] := by
    rw [List.take_succ_eq_append_getElem hindex, hget]
  obtain ⟨between, hbetween⟩ :=
    List.take_prefix_take_left (l := source.splitOn '\n') (Nat.succ_le_of_lt hlt)
  have hshort := (Text.withoutReturn_prefix raw).length_le
  have hfeed : (endedText [raw]).length = raw.length + 1 := by simp
  calc (endedText ((source.splitOn '\n').take index)).length + (withoutReturn raw).length
      < (endedText ((source.splitOn '\n').take index)).length + (endedText [raw]).length := by omega
    _ = (endedText ((source.splitOn '\n').take (index + 1))).length := by
      rw [hnext, Text.endedText_append, List.length_append]
    _ ≤ (endedText ((source.splitOn '\n').take index')).length := by
      rw [← hbetween, Text.endedText_append, List.length_append]
      exact Nat.le_add_right _ _

end Lines

namespace LineTable
variable {source : List Char} {index start stop offset : Nat}

/-- The table has the line of an offset where the source has it. -/
theorem lineAt_of_onLine (h : OnLine source index start stop offset) :
    (ofSource source).lineAt offset = ⟨index + 1, start, stop⟩ := by
  obtain ⟨⟨raw, hraw, rfl, rfl⟩, hstart, hstop⟩ := h
  obtain ⟨rest, hsource, hbefore, hfeed, hlength, hrest⟩ := exists_of_line hraw
  have hline := lineAt_within hbefore hfeed hrest hstart hstop
  rw [← hsource, hlength, Nat.add_comm 1 index] at hline
  exact hline

/-- On its own line no column of an offset is cut off. -/
theorem columnOn_within (number : Nat) (hstart : start ≤ offset) (hstop : offset ≤ stop) :
    columnOn ⟨number, start, stop⟩ offset = (offset - start + 1 : Nat) := by
  rw [columnOn]
  dsimp only
  omega

/-- An offset on a line has the number of the line and, counted from its start, the column. -/
theorem locate_of_onLine (h : OnLine source index start stop offset) :
    (ofSource source).locate offset =
      { position := offset, line := index + 1, column := (offset - start + 1 : Nat) } := by
  rw [locate, lineAt_of_onLine h, columnOn_within (index + 1) h.2.1 h.2.2]
  rfl

/-- The text of the line is what stands between its ends. -/
theorem textAt_of_onLine (h : OnLine source index start stop offset) :
    (ofSource source).textAt offset = String.ofList (source.extract start stop) := by
  rw [textAt, lineAt_of_onLine h, List.extract_eq_take_drop]
  rfl

/-- Going on in the source, places go on in their line or to a later line. -/
theorem locate_precedes {index' start' stop' offset' : Nat}
    (h : OnLine source index start stop offset) (h' : OnLine source index' start' stop' offset')
    (hlt : offset < offset') :
    ((ofSource source).locate offset).Precedes ((ofSource source).locate offset') := by
  rw [locate_of_onLine h, locate_of_onLine h']
  obtain ⟨hline, hstart, hstop⟩ := h
  obtain ⟨hline', hstart', hstop'⟩ := h'
  rcases Nat.lt_trichotomy index index' with hless | rfl | hmore
  · left
    dsimp only
    omega
  · -- A line begins in one place only, so the columns differ as the offsets do.
    obtain ⟨_, -, rfl, -⟩ := hline
    obtain ⟨_, -, rfl, -⟩ := hline'
    right
    refine ⟨rfl, ?_⟩
    dsimp only
    omega
  · have hbefore := stop_lt_of_hasLine hline' hline hmore
    omega

/-- A stretch ends in the column of its end or of the end of its first line, whichever comes first.
-/
theorem locateSpan_of_onLine (h : OnLine source index start stop offset) {stretchEnd : Nat}
    (hend : offset ≤ stretchEnd) : (ofSource source).locateSpan offset stretchEnd =
      { position := offset, line := index + 1, column := (offset - start + 1 : Nat)
        endPosition := some (stretchEnd : Int)
        endColumn := some ((min stretchEnd stop - start + 1 : Nat) : Int) } := by
  obtain ⟨hstart, hstop⟩ := h.2
  have hendColumn : min (stretchEnd : Int) stop - start + 1 =
      ((min stretchEnd stop - start + 1 : Nat) : Int) := by
    omega
  rw [locateSpan, lineAt_of_onLine h, columnOn_within (index + 1) hstart hstop]
  dsimp only
  rw [hendColumn]
  rfl

/-- A part of a line, counted from the start of the line, is a part of the source. -/
theorem extract_extract (source : List Char) {k m : Nat} (hm : start + m ≤ stop) :
    (source.extract start stop).extract k m = source.extract (start + k) (start + m) := by
  rw [List.extract_eq_take_drop, List.extract_eq_take_drop, List.extract_eq_take_drop,
    List.drop_take, List.drop_drop, List.take_take]
  congr 1
  omega

/-- The line table gives the coordinates of every source. -/
theorem ofSource_coordinates (source : List Char) : (ofSource source).Coordinates source := by
  constructor
  case locate => exact locate_of_onLine
  case text => exact textAt_of_onLine
  case increasing => exact locate_precedes
  case span =>
    intro index start stop offset h stretchEnd hend
    obtain ⟨hstart, hstop⟩ := h.2
    refine ⟨_, _, locateSpan_of_onLine h hend, rfl, ?_, ?_, ?_⟩
    · apply Nat.add_le_add_right
      omega
    · apply Nat.add_le_add_right
      omega
    · have hfirst : start + (offset - start) = offset := by omega
      have hlast : start + (min stretchEnd stop - start) = min stretchEnd stop := by omega
      rw [textAt_of_onLine h, String.toList_ofList, Nat.add_sub_cancel, Nat.add_sub_cancel,
        extract_extract source (by omega), hfirst, hlast]

/-- The return at the end of the first line is of no line, the one in the second line is. -/
example : (ofSource "a\r\n\rbc\n".toList).locateSpan 4 9 =
    ⟨4, 2, 2, some 9, some 4⟩ := by rfl

end LineTable

end RandomTables
