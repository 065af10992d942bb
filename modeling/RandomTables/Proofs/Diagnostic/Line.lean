import Mathlib.Data.List.DropRight
import RandomTables.Diagnostic.LineTable
import RandomTables.Proofs.Text.Word

/-! The line table of a source against the source: the line that holds an offset stands between the
line feeds around it. The table looks for the first line that does not end before the offset, and
the return of a line end is not among the characters of the line. So the table finds the line of
every offset but one that lies between a return and its line feed, for which it finds the next. -/
namespace RandomTables

namespace Text

def rawLines (s : List Char) : List (List Char) :=
  (linesOf s).1 :: (linesOf s).2

def endedText (raws : List (List Char)) : List Char :=
  raws.flatMap (· ++ ['\n'])

@[simp] theorem endedText_nil : endedText [] = [] := rfl

@[simp] theorem endedText_cons (raw : List Char) (raws : List (List Char)) :
    endedText (raw :: raws) = raw ++ '\n' :: endedText raws := by
  simp [endedText]

theorem endedText_append (raws raws' : List (List Char)) :
    endedText (raws ++ raws') = endedText raws ++ endedText raws' := by
  simp [endedText]

theorem rawLines_of_not_mem (raw : List Char) (h : '\n' ∉ raw) : rawLines raw = [raw] := by
  induction raw with
  | nil => rfl
  | cons c raw ih =>
    rw [List.mem_cons, not_or] at h
    obtain ⟨hfirst, hrest⟩ := List.cons_eq_cons.mp (ih h.2)
    simp only [rawLines, linesOf, if_neg (Ne.symm h.1), hfirst, hrest]

/-- The first line ends at the first line feed. -/
theorem rawLines_append_lineFeed (raw rest : List Char) (h : '\n' ∉ raw) :
    rawLines (raw ++ '\n' :: rest) = raw :: rawLines rest := by
  induction raw with
  | nil => simp [rawLines, linesOf]
  | cons c raw ih =>
    rw [List.mem_cons, not_or] at h
    obtain ⟨hfirst, hrest⟩ := List.cons_eq_cons.mp (ih h.2)
    simp only [List.cons_append, rawLines, linesOf, if_neg (Ne.symm h.1), hfirst, hrest]

/-- The first line of a text is what comes before its first line feed. -/
theorem rawLines_eq_cons (s : List Char) :
    ∃ more, rawLines s = s.takeWhile (· ≠ '\n') :: more := by
  obtain ⟨run, rest, rfl, hrun, hstops⟩ := exists_run (· ≠ '\n') s
  have hraw : '\n' ∉ run := fun hmem => by simpa using hrun '\n' hmem
  rw [takeWhile_append_of_stops _ run rest hrun hstops]
  cases rest with
  | nil =>
    rw [List.append_nil]
    exact ⟨[], rawLines_of_not_mem run hraw⟩
  | cons c rest =>
    obtain rfl : c = '\n' := by simpa using hstops
    exact ⟨_, rawLines_append_lineFeed run rest hraw⟩

/-- Lines put together with line feeds are the same lines when cut again. -/
theorem rawLines_endedText (raws : List (List Char)) (rest : List Char)
    (h : ∀ raw ∈ raws, '\n' ∉ raw) : rawLines (endedText raws ++ rest) = raws ++ rawLines rest := by
  induction raws with
  | nil => rfl
  | cons raw raws ih =>
    obtain ⟨hraw, hraws⟩ := List.forall_mem_cons.mp h
    rw [endedText_cons, List.append_assoc, List.cons_append, rawLines_append_lineFeed _ _ hraw,
      ih hraws, List.cons_append]

/-- Every text is a number of ended lines and one more that is not ended. -/
theorem exists_endedText (s : List Char) :
    ∃ raws raw, s = endedText raws ++ raw ∧ (∀ raw ∈ raws, '\n' ∉ raw) ∧ '\n' ∉ raw := by
  induction s with
  | nil => exact ⟨[], [], rfl, nofun, List.not_mem_nil⟩
  | cons c s ih =>
    obtain ⟨raws, raw, rfl, hraws, hraw⟩ := ih
    by_cases hc : c = '\n'
    · subst hc
      exact ⟨[] :: raws, raw, rfl, List.forall_mem_cons.mpr ⟨List.not_mem_nil, hraws⟩, hraw⟩
    · cases raws with
      | nil => exact ⟨[], c :: raw, rfl, nofun, by simp [hraw, Ne.symm hc]⟩
      | cons first raws =>
        obtain ⟨hfirst, hraws⟩ := List.forall_mem_cons.mp hraws
        refine ⟨(c :: first) :: raws, raw, by simp, ?_, hraw⟩
        exact List.forall_mem_cons.mpr ⟨by simp [hfirst, Ne.symm hc], hraws⟩

/-- There are as many line feeds as lines that are ended by one. -/
theorem count_endedText (raws : List (List Char)) (h : ∀ raw ∈ raws, '\n' ∉ raw) :
    (endedText raws).count '\n' = raws.length := by
  induction raws with
  | nil => rfl
  | cons raw raws ih =>
    obtain ⟨hraw, hraws⟩ := List.forall_mem_cons.mp h
    rw [endedText_cons, List.count_append, List.count_cons_self, List.count_eq_zero.mpr hraw,
      ih hraws, Nat.zero_add, List.length_cons]

theorem rtakeWhile_append_of_pos (p : Char → Bool) (before run : List Char)
    (h : ∀ c ∈ run, p c = true) :
    (before ++ run).rtakeWhile p = before.rtakeWhile p ++ run := by
  have hrun : ∀ c ∈ run.reverse, p c = true := fun c hc => h c (List.mem_reverse.mp hc)
  rw [List.rtakeWhile, List.reverse_append, List.takeWhile_append_of_pos hrun, List.reverse_append,
    List.reverse_reverse, List.rtakeWhile]

/-- Behind ended lines, the line that is not ended is what comes after the last line feed. -/
theorem rtakeWhile_endedText (raws : List (List Char)) (raw : List Char) (h : '\n' ∉ raw) :
    (endedText raws ++ raw).rtakeWhile (· ≠ '\n') = raw := by
  have hnone : (endedText raws).rtakeWhile (· ≠ '\n') = [] := by
    rcases raws.eq_nil_or_concat with rfl | ⟨before, last, rfl⟩
    · rfl
    · have hend : endedText (before.concat last) = endedText before ++ last ++ ['\n'] := by
        simp [endedText]
      rw [hend, List.rtakeWhile_concat_neg _ _ _ (by simp)]
  have hraw : ∀ c ∈ raw, decide (c ≠ '\n') = true := by
    intro c hc
    rw [decide_eq_true_iff]
    rintro rfl
    exact h hc
  calc (endedText raws ++ raw).rtakeWhile (· ≠ '\n')
      = (endedText raws).rtakeWhile (· ≠ '\n') ++ raw := rtakeWhile_append_of_pos _ _ _ hraw
    _ = raw := by rw [hnone, List.nil_append]

/-- The line that holds the place between two parts of a text: what stands between the line feeds
around it. -/
def lineAround (before after : List Char) : List Char :=
  before.rtakeWhile (· ≠ '\n') ++ after.takeWhile (· ≠ '\n')

/-- The place between two parts of a text is between the return and the line feed of a line end. -/
def CutsLineEnd (before after : List Char) : Prop :=
  before.getLast? = some '\r' ∧ after.head? = some '\n'

/-- Only the end of a line is cut off. -/
theorem withoutReturn_prefix (raw : List Char) : withoutReturn raw <+: raw := by
  rw [withoutReturn]
  split
  · exact List.dropLast_prefix raw
  · exact List.prefix_rfl

/-- No more than one character is cut off. -/
theorem length_withoutReturn (raw : List Char) : raw.length ≤ (withoutReturn raw).length + 1 := by
  rw [withoutReturn]
  split
  · rw [List.length_dropLast]
    omega
  · omega

end Text

namespace LineTable
open Text (rawLines endedText withoutReturn)

section Search
variable {p : Nat}

/-- The table has the lines between the line feeds, one behind the other. -/
theorem lines_ofSource (source : List Char) :
    (ofSource source).lines = linesFrom 1 0 (rawLines source) := by
  simp [ofSource, lines, rawLines, linesFrom]

theorem lineAt_of_find {t : LineTable} {line : Line}
    (h : t.lines.find? (fun line => (p : Int) ≤ line.stop) = some line) : t.lineAt p = line := by
  rw [lineAt, h]

theorem lineAt_of_none {t : LineTable} {line : Line}
    (h : t.lines.find? (fun line => (p : Int) ≤ line.stop) = none)
    (hlast : t.lines.getLast? = some line) : t.lineAt p = line := by
  rw [lineAt, h]
  rw [lines, List.getLast?_cons, Option.some.injEq, ← List.getLastD_eq_getLast?] at hlast
  exact hlast

/-- Lines that are ended before the offset are passed over. -/
theorem find_linesFrom (number start : Nat) (raws more : List (List Char))
    (h : start + (endedText raws).length ≤ p) :
    (linesFrom number start (raws ++ more)).find? (fun line => (p : Int) ≤ line.stop) =
      (linesFrom (number + raws.length) (start + (endedText raws).length) more).find?
        (fun line => (p : Int) ≤ line.stop) := by
  induction raws generalizing number start with
  | nil => rfl
  | cons raw raws ih =>
    have hraw := (Text.withoutReturn_prefix raw).length_le
    have hlength : (endedText (raw :: raws)).length = raw.length + 1 + (endedText raws).length := by
      rw [Text.endedText_cons, List.length_append, List.length_cons]
      omega
    rw [hlength] at h ⊢
    have hshort : ¬(p : Int) ≤ (Line.ofRaw number start raw).stop := by
      simp only [Line.ofRaw]
      omega
    rw [List.cons_append, linesFrom, List.find?_cons_of_neg (by simpa using hshort),
      ih (number + 1) (start + raw.length + 1) (by omega), List.length_cons]
    congr 2 <;> omega

/-- Numbers and starts are those of a count of all lines before. -/
theorem getLast_linesFrom (number start : Nat) (raws : List (List Char)) (raw : List Char) :
    (linesFrom number start (raws ++ [raw])).getLast? =
      some (.ofRaw (number + raws.length) (start + (endedText raws).length) raw) := by
  induction raws generalizing number start with
  | nil => rfl
  | cons first raws ih =>
    have hlength : (endedText (first :: raws)).length =
        first.length + 1 + (endedText raws).length := by
      rw [Text.endedText_cons, List.length_append, List.length_cons]
      omega
    rw [List.cons_append, linesFrom, List.getLast?_cons, ih, Option.getD_some, hlength,
      List.length_cons]
    congr 2 <;> omega

end Search

section Lines
variable {raws : List (List Char)} {raw rest : List Char} {p : Nat}

/-- The offset is on the line, and not after the return that may end it. -/
theorem lineAt_within (hraws : ∀ raw ∈ raws, '\n' ∉ raw) (hraw : '\n' ∉ raw)
    (hrest : rest = [] ∨ rest.head? = some '\n') (hstart : (endedText raws).length ≤ p)
    (hstop : p ≤ (endedText raws).length + (withoutReturn raw).length) :
    (ofSource (endedText raws ++ (raw ++ rest))).lineAt p =
      .ofRaw (1 + raws.length) (endedText raws).length raw := by
  obtain ⟨more, hmore⟩ : ∃ more, rawLines (raw ++ rest) = raw :: more := by
    rcases hrest with rfl | hhead
    · rw [List.append_nil]
      exact ⟨[], Text.rawLines_of_not_mem raw hraw⟩
    · obtain ⟨rest, rfl⟩ := List.head?_eq_some_iff.mp hhead
      exact ⟨_, Text.rawLines_append_lineFeed raw rest hraw⟩
  have hhere : (p : Int) ≤ (Line.ofRaw (1 + raws.length) (endedText raws).length raw).stop := by
    simp only [Line.ofRaw]
    omega
  apply lineAt_of_find
  rw [lines_ofSource, Text.rawLines_endedText raws _ hraws, hmore,
    find_linesFrom 1 0 raws _ (by omega), Nat.zero_add, linesFrom,
    List.find?_cons_of_pos (by simpa using hhere)]

/-- The last line holds every offset after its start. -/
theorem lineAt_last (hraws : ∀ raw ∈ raws, '\n' ∉ raw) (hraw : '\n' ∉ raw)
    (hstart : (endedText raws).length ≤ p) :
    (ofSource (endedText raws ++ raw)).lineAt p =
      .ofRaw (1 + raws.length) (endedText raws).length raw := by
  by_cases hstop : p ≤ (endedText raws).length + (withoutReturn raw).length
  · have hwithin := lineAt_within hraws hraw (.inl rfl) hstart hstop
    rwa [List.append_nil] at hwithin
  · have hlines : rawLines (endedText raws ++ raw) = raws ++ [raw] := by
      rw [Text.rawLines_endedText raws raw hraws, Text.rawLines_of_not_mem raw hraw]
    have hlong : ¬(p : Int) ≤ (Line.ofRaw (1 + raws.length) (endedText raws).length raw).stop := by
      simp only [Line.ofRaw]
      omega
    apply lineAt_of_none
    · rw [lines_ofSource, hlines, find_linesFrom 1 0 raws _ (by omega), Nat.zero_add, linesFrom,
        List.find?_cons_of_neg (by simpa using hlong)]
      rfl
    · rw [lines_ofSource, hlines, getLast_linesFrom, Nat.zero_add]

/-- After the return of a line end comes the next line, though its line feed is still to come. -/
theorem lineAt_between (hraws : ∀ raw ∈ raws, '\n' ∉ raw) (hraw : '\n' ∉ raw)
    (hlong : (endedText raws).length + (withoutReturn raw).length < p)
    (hstop : p ≤ (endedText raws).length + raw.length) :
    (ofSource (endedText raws ++ (raw ++ '\n' :: rest))).lineAt p =
      .ofRaw (1 + raws.length + 1) ((endedText raws).length + raw.length + 1)
        (rest.takeWhile (· ≠ '\n')) := by
  obtain ⟨more, hmore⟩ := Text.rawLines_eq_cons rest
  have hshort : ¬(p : Int) ≤ (Line.ofRaw (1 + raws.length) (endedText raws).length raw).stop := by
    simp only [Line.ofRaw]
    omega
  have hhere : (p : Int) ≤ (Line.ofRaw (1 + raws.length + 1)
      ((endedText raws).length + raw.length + 1) (rest.takeWhile (· ≠ '\n'))).stop := by
    simp only [Line.ofRaw]
    omega
  apply lineAt_of_find
  rw [lines_ofSource, Text.rawLines_endedText raws _ hraws,
    Text.rawLines_append_lineFeed raw rest hraw, hmore, find_linesFrom 1 0 raws _ (by omega),
    Nat.zero_add, linesFrom, List.find?_cons_of_neg (by simpa using hshort), linesFrom,
    List.find?_cons_of_pos (by simpa using hhere)]

end Lines

section Around
variable {before after : List Char}

/-- The text of a line is cut out of the source by its ends. -/
theorem textAt_of_lineAt {front raw rest : List Char} {p number : Nat}
    (h : (ofSource (front ++ (raw ++ rest))).lineAt p = .ofRaw number front.length raw) :
    (ofSource (front ++ (raw ++ rest))).textAt p = String.ofList (withoutReturn raw) := by
  have hprefix := Text.withoutReturn_prefix raw
  have htake : (raw ++ rest).take (withoutReturn raw).length = withoutReturn raw := by
    rw [List.take_append_of_le_length hprefix.length_le]
    exact (List.prefix_iff_eq_take.mp hprefix).symm
  have hsource : (ofSource (front ++ (raw ++ rest))).source = front ++ (raw ++ rest) := rfl
  rw [textAt, h, hsource]
  simp only [Line.ofRaw, Nat.add_sub_cancel_left, List.drop_left, htake]

/-- A place on a line is found there, if it is not behind the return of a line end. -/
theorem lineAt_around {raws : List (List Char)} {left right rest : List Char}
    (hraws : ∀ raw ∈ raws, '\n' ∉ raw) (hraw : '\n' ∉ left ++ right)
    (hrest : rest = [] ∨ rest.head? = some '\n')
    (hcut : left.getLast? = some '\r' → (right ++ rest).head? ≠ some '\n') :
    (ofSource (endedText raws ++ (left ++ right ++ rest))).lineAt
        ((endedText raws).length + left.length : Nat) =
      .ofRaw (1 + raws.length) (endedText raws).length (left ++ right) := by
  by_cases hshort : left.length ≤ (withoutReturn (left ++ right)).length
  · exact lineAt_within hraws hraw hrest (Nat.le_add_right _ _) (Nat.add_le_add_left hshort _)
  · -- The offset is behind a return at the end of the line, which is then the last one.
    have hlength := Text.length_withoutReturn (left ++ right)
    rw [List.length_append] at hlength
    obtain rfl : right = [] := List.length_eq_zero_iff.mp (by omega)
    rw [List.append_nil] at hshort hraw ⊢
    have hreturn : left.getLast? = some '\r' := by
      by_contra hno
      rw [withoutReturn, if_neg hno] at hshort
      exact hshort (Nat.le_refl _)
    rcases hrest with rfl | hhead
    · rw [List.append_nil]
      exact lineAt_last hraws hraw (Nat.le_add_right _ _)
    · exact absurd hhead (hcut hreturn)

/-- An offset that does not cut a line end is on the line that stands behind the ended lines before
it and reaches up to the next line feed. -/
theorem exists_lineAt_of_not_cut (h : ¬Text.CutsLineEnd before after) :
    ∃ raws left right rest, before = endedText raws ++ left ∧ after = right ++ rest ∧
      left = before.rtakeWhile (· ≠ '\n') ∧ left ++ right = Text.lineAround before after ∧
      raws.length = before.count '\n' ∧
      (ofSource (endedText raws ++ (left ++ right ++ rest))).lineAt before.length =
        .ofRaw (1 + raws.length) (endedText raws).length (left ++ right) := by
  obtain ⟨raws, left, rfl, hraws, hleft⟩ := Text.exists_endedText before
  obtain ⟨right, rest, rfl, hright, hstops⟩ := Text.exists_run (· ≠ '\n') after
  have hfeed : '\n' ∉ right := fun hmem => by simpa using hright '\n' hmem
  have hraw : '\n' ∉ left ++ right := by simp [hleft, hfeed]
  have hrest : rest = [] ∨ rest.head? = some '\n' := by
    cases rest with
    | nil => exact .inl rfl
    | cons c rest => exact .inr (by simpa using hstops)
  have hcut : left.getLast? = some '\r' → (right ++ rest).head? ≠ some '\n' := by
    intro hreturn hhead
    have hne : left ≠ [] := by
      rintro rfl
      cases hreturn
    exact h ⟨by rwa [List.getLast?_append_of_ne_nil _ hne], hhead⟩
  refine ⟨raws, left, right, rest, rfl, rfl, (Text.rtakeWhile_endedText raws left hleft).symm,
    ?_, ?_, ?_⟩
  · rw [Text.lineAround, Text.rtakeWhile_endedText raws left hleft,
      Text.takeWhile_append_of_stops _ right rest hright hstops]
  · rw [List.count_append, Text.count_endedText raws hraws, List.count_eq_zero.mpr hleft,
      Nat.add_zero]
  · rw [List.length_append]
    exact lineAt_around hraws hraw hrest hcut

/-- An offset that does not cut a line end is on the line that holds it. -/
theorem lineAt_of_not_cut (h : ¬Text.CutsLineEnd before after) :
    ((ofSource (before ++ after)).lineAt before.length).number = 1 + before.count '\n' ∧
      (ofSource (before ++ after)).textAt before.length =
        String.ofList (withoutReturn (Text.lineAround before after)) := by
  obtain ⟨raws, left, right, rest, hbefore, hafter, -, haround, hcount, hline⟩ :=
    exists_lineAt_of_not_cut h
  have hsource : before ++ after = endedText raws ++ (left ++ right ++ rest) := by
    simp [hbefore, hafter]
  rw [hsource, hline, ← hcount, ← haround]
  exact ⟨rfl, textAt_of_lineAt hline⟩

/-- Its column on the line counts the characters after the last line feed, and none that the line
does not show. -/
theorem columnOn_of_not_cut (h : ¬Text.CutsLineEnd before after) :
    columnOn ((ofSource (before ++ after)).lineAt before.length) before.length =
      (min (before.rtakeWhile (· ≠ '\n')).length
        (withoutReturn (Text.lineAround before after)).length + 1 : Nat) := by
  obtain ⟨raws, left, right, rest, hbefore, hafter, hleft, haround, -, hline⟩ :=
    exists_lineAt_of_not_cut h
  have hsource : before ++ after = endedText raws ++ (left ++ right ++ rest) := by
    simp [hbefore, hafter]
  have hlength : before.length = (endedText raws).length + left.length := by
    rw [hbefore, List.length_append]
  rw [hsource, hline, ← hleft, ← haround, hlength, columnOn]
  simp only [Line.ofRaw]
  omega

/-- For an offset that cuts a line end the line behind it is found. -/
theorem lineAt_eq_of_cut (h : Text.CutsLineEnd before after) :
    (ofSource (before ++ after)).lineAt before.length =
      .ofRaw (1 + before.count '\n' + 1) (before.length + 1) (after.tail.takeWhile (· ≠ '\n')) := by
  obtain ⟨hreturn, hfeed⟩ := h
  obtain ⟨before, rfl⟩ := List.getLast?_eq_some_iff.mp hreturn
  obtain ⟨rest, rfl⟩ := List.head?_eq_some_iff.mp hfeed
  obtain ⟨raws, left, rfl, hraws, hleft⟩ := Text.exists_endedText before
  have hraw : '\n' ∉ left ++ ['\r'] := by simp [hleft]
  have hshort : withoutReturn (left ++ ['\r']) = left := by simp [withoutReturn]
  have hcount : (endedText raws ++ left ++ ['\r']).count '\n' = raws.length := by
    rw [List.append_assoc, List.count_append, Text.count_endedText raws hraws,
      List.count_eq_zero.mpr hraw]
    rfl
  have hsource : endedText raws ++ left ++ ['\r'] ++ '\n' :: rest =
      endedText raws ++ (left ++ ['\r'] ++ '\n' :: rest) := by
    simp
  have hlength : (endedText raws ++ left ++ ['\r']).length =
      (endedText raws).length + (left ++ ['\r']).length := by
    rw [List.append_assoc, List.length_append]
  rw [hcount, hsource, hlength, List.tail_cons]
  refine lineAt_between hraws hraw ?_ (Nat.le_refl _)
  rw [hshort, List.length_append, List.length_singleton]
  omega

/-- An offset that cuts a line end is not on the line that it ends. -/
theorem lineAt_of_cut (h : Text.CutsLineEnd before after) :
    ((ofSource (before ++ after)).lineAt before.length).number = 1 + before.count '\n' + 1 := by
  rw [lineAt_eq_of_cut h]
  rfl

/-- It has the first column of the line behind it. -/
theorem columnOn_of_cut (h : Text.CutsLineEnd before after) :
    columnOn ((ofSource (before ++ after)).lineAt before.length) before.length = 1 := by
  rw [lineAt_eq_of_cut h, columnOn]
  simp only [Line.ofRaw]
  omega

/-- Behind the return, the line that is shown is the next one. -/
theorem textAt_of_cut (h : Text.CutsLineEnd before after) :
    (ofSource (before ++ after)).textAt before.length =
      String.ofList (withoutReturn (after.tail.takeWhile (· ≠ '\n'))) := by
  have hline := lineAt_eq_of_cut h
  obtain ⟨rest, rfl⟩ := List.head?_eq_some_iff.mp h.2
  have hsource : before ++ '\n' :: rest =
      before ++ ['\n'] ++ (rest.takeWhile (· ≠ '\n') ++ rest.dropWhile (· ≠ '\n')) := by
    rw [List.takeWhile_append_dropWhile, List.append_assoc, List.singleton_append]
  have hstart : before.length + 1 = (before ++ ['\n']).length := by simp
  rw [List.tail_cons, hsource, hstart] at hline
  rw [List.tail_cons, hsource]
  exact textAt_of_lineAt hline

end Around

end LineTable

end RandomTables
