import RandomTables.Proofs.Diagnostic.Place
import RandomTables.Proofs.Diagnostic.Row

/-! Where the caret of an excerpt stands. The row of the source begins with the number of the line
and leaves out the characters that would move the cursor, while the row of the caret always begins
with the same six cells and counts every character before the place. So the caret points at the
error as long as the number has no more than three digits and nothing before the error is left out,
or as many characters are left out as the number has digits more. -/
namespace RandomTables

/-- The row shows the line behind a gutter, and has the character after the first `k` of the line at
the index, or ends there if the line has no more. -/
def StandsAt (row shown : List Char) (k i : Nat) : Prop :=
  ∃ gutter, row = gutter ++ Text.visible shown ∧
    i = gutter.length + (Text.visible (shown.take k)).length ∧ row[i]? = shown[k]?

/-- A row of a gutter and the visible line has the place where the visible part before it ends. -/
theorem standsAt_iff (gutter shown : List Char) (k i : Nat) :
    StandsAt (gutter ++ Text.visible shown) shown k i ↔
      i = gutter.length + (Text.visible (shown.take k)).length ∧
        ∀ c ∈ shown[k]?, Text.movesCursor c = false := by
  rw [← Text.getElem?_visible_iff]
  constructor
  · rintro ⟨gutter', hrow, rfl, hchar⟩
    obtain rfl := List.append_cancel_right hrow
    rw [List.getElem?_append_right (Nat.le_add_right _ _), Nat.add_sub_cancel_left] at hchar
    exact ⟨rfl, hchar⟩
  · rintro ⟨rfl, hchar⟩
    refine ⟨gutter, rfl, rfl, ?_⟩
    rwa [List.getElem?_append_right (Nat.le_add_right _ _), Nat.add_sub_cancel_left]

def lineText (source : List Char) (offset : Nat) : List Char :=
  Text.withoutReturn (Text.lineAround (source.take offset) (source.drop offset))

def placeOnLine (source : List Char) (offset : Nat) : Nat :=
  ((source.take offset).rtakeWhile (· ≠ '\n')).length

/-- The first caret of an excerpt has the same index in its row as the character at the offset has
in the row of the source above it, or as the end of that row if the offset is at a line's end. -/
def PointsAt (excerpt : String) (source : List Char) (offset : Nat) : Prop :=
  ∃ row carets i, (Text.rawLines excerpt.toList)[3]? = some row ∧
    (Text.rawLines excerpt.toList)[4]? = some carets ∧ carets.findIdx? (· = '^') = some i ∧
    StandsAt row (lineText source offset) (placeOnLine source offset) i

section Lines
variable {source : List Char} {offset : Nat}

theorem not_mem_takeWhile_lineFeed (s : List Char) : '\n' ∉ s.takeWhile (· ≠ '\n') :=
  not_mem_takeWhile s (by decide)

/-- What is shown of a line ends before its line feed. -/
theorem not_mem_lineText (source : List Char) (offset : Nat) : '\n' ∉ lineText source offset := by
  intro hmem
  have haround := (Text.withoutReturn_prefix _).subset hmem
  rw [Text.lineAround, List.mem_append, List.rtakeWhile, List.mem_reverse] at haround
  rcases haround with hleft | hright
  · exact not_mem_takeWhile_lineFeed _ hleft
  · exact not_mem_takeWhile_lineFeed _ hright

/-- The line of a comment that took the return is shown up to the return. -/
theorem lineText_of_returnInComment (h : ReturnInComment source offset) :
    '/' ∈ lineText source offset ∧
      (lineText source offset).length ≤ placeOnLine source offset := by
  obtain ⟨pieces, body, rest, _, _, rfl, hbody, -, rfl⟩ := h
  have hoffset : (textOf pieces).length + (body.length + 3) =
      (textOf pieces ++ '/' :: '/' :: (body ++ ['\r'])).length := by
    simp
  have hplain : ∀ c ∈ '/' :: '/' :: (body ++ ['\r']), decide (c ≠ '\n') = true := by
    intro c hc
    rw [decide_eq_true_iff]
    rintro rfl
    simp [hbody] at hc
  have hline : (textOf pieces ++ '/' :: '/' :: (body ++ ['\r'])).rtakeWhile (· ≠ '\n') =
      (textOf pieces).rtakeWhile (· ≠ '\n') ++ ('/' :: '/' :: body) ++ ['\r'] := by
    rw [Text.rtakeWhile_append_of_pos _ _ _ hplain, List.append_assoc]
    rfl
  have htext : Text.withoutReturn
      ((textOf pieces).rtakeWhile (· ≠ '\n') ++ ('/' :: '/' :: body) ++ ['\r']) =
        (textOf pieces).rtakeWhile (· ≠ '\n') ++ ('/' :: '/' :: body) := by
    rw [Text.withoutReturn, List.getLast?_concat, if_pos rfl, List.dropLast_concat]
  rw [lineText, placeOnLine, hoffset, List.take_left, List.drop_left, Text.lineAround, hline,
    List.takeWhile_cons_of_neg (by decide), List.append_nil, htext]
  simp

end Lines

namespace Diagnostic
variable {d : Diagnostic} {source : List Char} {offset : Nat}

/-- Where no line end is cut, the line that is shown is that of the offset, and the column counts
its characters up to there. -/
theorem IsAt.of_not_cut (h : d.IsAt (.ofSource source) offset) (hoffset : offset ≤ source.length)
    (hcut : ¬Text.CutsLineEnd (source.take offset) (source.drop offset)) :
    d.location.line = (1 + (source.take offset).count '\n' : Nat) ∧
      d.sourceLine = String.ofList (lineText source offset) ∧
      d.location.column =
        (min (placeOnLine source offset) (lineText source offset).length + 1 : Nat) := by
  obtain ⟨hnumber, htext⟩ := LineTable.lineAt_of_not_cut hcut
  have hcolumn := LineTable.columnOn_of_not_cut hcut
  rw [List.take_append_drop, List.length_take_of_le hoffset] at hnumber htext hcolumn
  exact ⟨h.line.trans (congrArg Nat.cast hnumber), h.sourceLine.trans htext,
    h.column.trans hcolumn⟩

/-- The gutters of the two rows differ by the digits over three, and the text of the row by what is
left out of it. -/
theorem pointsAt_render_iff {number : Nat} (h : d.IsOneLine)
    (hsource : d.sourceLine = String.ofList (lineText source offset))
    (hnumber : d.location.line = number)
    (hcolumn : d.location.column =
      (min (placeOnLine source offset) (lineText source offset).length + 1 : Nat)) :
    PointsAt d.render source offset ↔
      ((lineText source offset).take (placeOnLine source offset)).countP Text.movesCursor =
          (toString number).length - 3 ∧
        ∀ c ∈ (lineText source offset)[placeOnLine source offset]?, Text.movesCursor c = false := by
  have hline : d.sourceLine.toList = lineText source offset := by
    rw [hsource, String.toList_ofList]
  have hone : OneLine d.sourceLine := by
    rw [OneLine, hline]
    exact not_mem_lineText source offset
  obtain ⟨hrow, hcarets⟩ := rows_render h hone
  rw [hline] at hrow
  have hindex : (d.location.column - 1).toNat =
      min (placeOnLine source offset) (lineText source offset).length := by
    rw [hcolumn]
    omega
  have hshown := Text.length_visible ((lineText source offset).take (placeOnLine source offset))
  rw [List.length_take] at hshown
  have hpoints : PointsAt d.render source offset ↔
      StandsAt (d.gutter ++ Text.visible (lineText source offset)) (lineText source offset)
        (placeOnLine source offset) (6 + (d.location.column - 1).toNat) := by
    constructor
    · rintro ⟨row, carets, i, hrow', hcarets', hfirst, hstands⟩
      obtain rfl := Option.some.inj (hrow.symm.trans hrow')
      obtain rfl := Option.some.inj (hcarets.symm.trans hcarets')
      obtain rfl := Option.some.inj ((findIdx_carets d).symm.trans hfirst)
      exact hstands
    · exact fun hstands => ⟨_, _, _, hrow, hcarets, findIdx_carets d, hstands⟩
  rw [hpoints, standsAt_iff, hindex, length_gutter hnumber]
  refine and_congr_left fun _ => ?_
  omega

/-- Where a return was taken by a comment, the row is that of the next line, and the caret in its
first column is at the end of no row that shows the comment. -/
theorem not_pointsAt_of_slash {number : Nat} (h : d.IsOneLine)
    (hsource : OneLine d.sourceLine) (hnumber : d.location.line = number)
    (hcolumn : d.location.column = 1) (hslash : '/' ∈ lineText source offset)
    (hend : (lineText source offset).length ≤ placeOnLine source offset) :
    ¬PointsAt d.render source offset := by
  rintro ⟨row, carets, i, hrow', hcarets', hfirst, gutter, hshown, rfl, -⟩
  obtain ⟨hrow, hcarets⟩ := rows_render h hsource
  obtain rfl := Option.some.inj (hcarets.symm.trans hcarets')
  have hsame := Option.some.inj (hrow.symm.trans hrow')
  have hindex := Option.some.inj ((findIdx_carets d).symm.trans hfirst)
  rw [hcolumn, List.take_of_length_le hend, ← List.length_append, ← hshown, ← hsame,
    List.length_append, length_gutter hnumber] at hindex
  obtain hnil : Text.visible d.sourceLine.toList = [] := List.length_eq_zero_iff.mp (by omega)
  -- The row is no longer than a gutter, in which no slash stands.
  have hmem : '/' ∈ d.gutter := by
    rw [hnil, List.append_nil] at hsame
    rw [hsame, hshown]
    exact List.mem_append_right _ (List.mem_filter.mpr ⟨hslash, rfl⟩)
  have hcell := mem_gutter hmem
  revert hcell
  decide

end Diagnostic

/-- The line of the offset is shown in the row above the caret, with as many characters left out
before the offset as its number has digits over three, and the character at the offset is shown. -/
structure ShownInStep (source : List Char) (offset : Nat) : Prop where
  whole : ¬ReturnInComment source offset
  even : ((lineText source offset).take (placeOnLine source offset)).countP Text.movesCursor =
    (toString (1 + (source.take offset).count '\n')).length - 3
  shown : ∀ c ∈ (lineText source offset)[placeOnLine source offset]?, Text.movesCursor c = false

namespace Program

/-- The caret points at the error exactly where the rows are in step. -/
theorem caret_points_iff (source : String) (e : ParseError)
    (h : parse source = .error (.reported e)) :
    ∃ offset : Nat, e.diagnostic.location.position = offset ∧
      (PointsAt e.message source.toList offset ↔ ShownInStep source.toList offset) := by
  have hone := isOneLine_of_parse h
  rcases parse_error source _ h with ⟨hno, -⟩ | ⟨e', offset, he, hcomes, hat⟩
  · cases hno
  cases he
  refine ⟨offset, hat.position, ?_⟩
  obtain ⟨pieces, after, mode, last, hsource, hreads, rfl⟩ := hcomes
  have hbefore : source.toList.take (textOf pieces).length = textOf pieces := by
    rw [hsource, List.take_left]
  have hafter : source.toList.drop (textOf pieces).length = after := by
    rw [hsource, List.drop_left]
  have hreturn : Text.CutsLineEnd (textOf pieces) after ↔
      ReturnInComment source.toList (textOf pieces).length := by
    rw [hsource]
    exact cutsLineEnd_iff hreads
  by_cases hcut : Text.CutsLineEnd (textOf pieces) after
  · obtain ⟨hslash, hend⟩ := lineText_of_returnInComment (hreturn.mp hcut)
    have hcolumn : e.diagnostic.location.column = 1 := by
      rw [hat.column, hsource, LineTable.columnOn_of_cut hcut]
    have hnext : OneLine e.diagnostic.sourceLine := by
      rw [hat.sourceLine, hsource, LineTable.textAt_of_cut hcut]
      refine oneLine_ofList fun hmem => ?_
      exact not_mem_takeWhile_lineFeed _ ((Text.withoutReturn_prefix _).subset hmem)
    have hnot : ¬PointsAt e.message source.toList (textOf pieces).length :=
      Diagnostic.not_pointsAt_of_slash hone hnext hat.line hcolumn hslash hend
    exact ⟨fun hpoints => absurd hpoints hnot, fun h => absurd (hreturn.mp hcut) h.whole⟩
  · have hoffset : (textOf pieces).length ≤ source.toList.length := by
      rw [hsource, List.length_append]
      exact Nat.le_add_right _ _
    obtain ⟨hnumber, htext, hcolumn⟩ := hat.of_not_cut hoffset (by rwa [hbefore, hafter])
    have hpoints := Diagnostic.pointsAt_render_iff hone htext hnumber hcolumn
    rw [ParseError.message, hpoints]
    exact ⟨fun ⟨heven, hshown⟩ => ⟨hreturn.not.mp hcut, heven, hshown⟩,
      fun h => ⟨h.even, h.shown⟩⟩

def braceBehind (n : Nat) : String :=
  String.ofList (List.replicate n '\n' ++ ['\x7d'])

def braceBehindError (n : Nat) : ParseError :=
  ⟨.invalidCharacter "\x7d", (LexFault.invalidCharacter .declaration '\x7d').diagnose
    (.ofSource (braceBehind n).toList) n⟩

theorem textOf_lineFeeds (n : Nat) :
    textOf (List.replicate n (.token .newline ['\n'])) = List.replicate n '\n' := by
  induction n with
  | zero => rfl
  | succ n ih => rw [List.replicate_succ, textOf_cons, ih, List.replicate_succ]; rfl

/-- Each line feed is a line end of its own. -/
theorem reads_lineFeeds (n : Nat) (after : List Char) (last : Option TokenKind) :
    ∃ last', Reads after .declaration last (List.replicate n (.token .newline ['\n']))
      .declaration last' := by
  induction n generalizing last with
  | zero => exact ⟨last, .nil⟩
  | succ n ih =>
    obtain ⟨last', hreads⟩ := ih (some .newline)
    exact ⟨last', .cons ⟨_, _, rfl, rfl⟩ hreads⟩

/-- The scanner stops at a brace behind empty lines. -/
theorem scan_lineFeeds (n : Nat) : scan (List.replicate n '\n' ++ ['\x7d']) =
    .error ⟨.reported (.invalidCharacter .declaration '\x7d'), n, n, .declaration⟩ := by
  obtain ⟨last, hreads⟩ := reads_lineFeeds n ['\x7d'] none
  have hscan := (scan_eq_error_iff (List.replicate n '\n' ++ ['\x7d']) _).mpr
    ⟨_, _, ⟨_, last, _, _, by rw [textOf_lineFeeds], hreads, rfl⟩, rfl⟩
  rw [textOf_lineFeeds, List.length_replicate] at hscan
  exact hscan

theorem take_lineFeeds (n : Nat) (after : List Char) :
    (List.replicate n '\n' ++ after).take n = List.replicate n '\n' :=
  List.take_left' List.length_replicate

theorem drop_lineFeeds (n : Nat) (after : List Char) :
    (List.replicate n '\n' ++ after).drop n = after :=
  List.drop_left' List.length_replicate

theorem rtakeWhile_lineFeeds (n : Nat) :
    (List.replicate n '\n').rtakeWhile (· ≠ '\n') = [] := by
  cases n with
  | zero => rfl
  | succ n => rw [List.replicate_succ', List.rtakeWhile_concat_neg _ _ _ (by decide)]

/-- Line feeds before an offset put it at the start of its line. -/
theorem placeOnLine_lineFeeds (n : Nat) (after : List Char) :
    placeOnLine (List.replicate n '\n' ++ after) n = 0 := by
  rw [placeOnLine, take_lineFeeds, rtakeWhile_lineFeeds, List.length_nil]

/-- Behind line feeds the line is what comes up to the next one. -/
theorem lineText_lineFeeds (n : Nat) (after : List Char) :
    lineText (List.replicate n '\n' ++ after) n =
      Text.withoutReturn (after.takeWhile (· ≠ '\n')) := by
  rw [lineText, take_lineFeeds, drop_lineFeeds, Text.lineAround, rtakeWhile_lineFeeds,
    List.nil_append]

theorem toList_braceBehind (n : Nat) :
    (braceBehind n).toList = List.replicate n '\n' ++ ['\x7d'] :=
  String.toList_ofList

/-- The scanner stops at the brace, so that there is nothing to parse. -/
theorem parse_braceBehind (n : Nat) :
    parse (braceBehind n) = .error (.reported (braceBehindError n)) := by
  rw [parse, braceBehindError, toList_braceBehind, scan_lineFeeds]
  rfl

/-- The brace is shown alone in its row, in the first column. -/
theorem shown_braceBehind (n : Nat) : lineText (braceBehind n).toList n = ['\x7d'] ∧
    (braceBehindError n).diagnostic.sourceLine = "\x7d" ∧
    (braceBehindError n).diagnostic.location.line = (1 + n : Nat) ∧
    (braceBehindError n).diagnostic.location.column = 1 ∧
    (PointsAt (braceBehindError n).message (braceBehind n).toList n ↔
      (toString (1 + n)).length ≤ 3) := by
  have hline : lineText (braceBehind n).toList n = ['\x7d'] := by
    rw [toList_braceBehind, lineText_lineFeeds]
    rfl
  have hplaced : placeOnLine (braceBehind n).toList n = 0 := by
    rw [toList_braceBehind, placeOnLine_lineFeeds]
  have hcount : ((braceBehind n).toList.take n).count '\n' = n := by
    rw [toList_braceBehind, take_lineFeeds, List.count_replicate_self]
  have hcut : ¬Text.CutsLineEnd ((braceBehind n).toList.take n)
      ((braceBehind n).toList.drop n) := by
    rw [toList_braceBehind, drop_lineFeeds]
    rintro ⟨-, hfeed⟩
    cases hfeed
  have hoffset : n ≤ (braceBehind n).toList.length := by
    rw [toList_braceBehind, List.length_append, List.length_replicate]
    omega
  have hat : (braceBehindError n).diagnostic.IsAt (.ofSource (braceBehind n).toList) n :=
    ⟨rfl, rfl, rfl, rfl⟩
  obtain ⟨hnumber, htext, hcolumn⟩ := hat.of_not_cut hoffset hcut
  have hpoints := Diagnostic.pointsAt_render_iff (isOneLine_of_parse (parse_braceBehind n)) htext
    hnumber hcolumn
  rw [hline] at htext
  rw [hplaced, hline] at hcolumn hpoints
  rw [hcount] at hnumber hpoints
  refine ⟨hline, htext, hnumber, hcolumn, hpoints.trans ⟨fun h => ?_, fun h => ?_⟩⟩
  · exact Nat.sub_eq_zero_iff_le.mp h.1.symm
  · refine ⟨(Nat.sub_eq_zero_iff_le.mpr h).symm, ?_⟩
    rintro c ⟨⟩
    rfl

/-- The caret points at the brace on the line 999, and does not on the next line. -/
theorem caret_points_iff_thousandthLine :
    (parse (braceBehind 998) = .error (.reported (braceBehindError 998)) ∧
      (∃ offset : Nat, (braceBehindError 998).diagnostic.location.position = offset ∧
        (PointsAt (braceBehindError 998).message (braceBehind 998).toList offset ↔
          ShownInStep (braceBehind 998).toList offset)) ∧
      PointsAt (braceBehindError 998).message (braceBehind 998).toList 998) ∧
    (parse (braceBehind 999) = .error (.reported (braceBehindError 999)) ∧
      (∃ offset : Nat, (braceBehindError 999).diagnostic.location.position = offset ∧
        (PointsAt (braceBehindError 999).message (braceBehind 999).toList offset ↔
          ShownInStep (braceBehind 999).toList offset)) ∧
      ¬PointsAt (braceBehindError 999).message (braceBehind 999).toList 999) := by
  obtain ⟨-, -, -, -, hlast⟩ := shown_braceBehind 998
  obtain ⟨-, -, -, -, hnext⟩ := shown_braceBehind 999
  refine ⟨⟨parse_braceBehind 998, caret_points_iff _ _ (parse_braceBehind 998), hlast.mpr ?_⟩,
    ⟨parse_braceBehind 999, caret_points_iff _ _ (parse_braceBehind 999), hnext.not.mpr ?_⟩⟩
  · decide
  · decide

/-- The number of the line takes a fourth cell in the row of the source and none in that of the
caret, which stands before the brace. -/
theorem thousandthLine_caret_before :
    parse (braceBehind 999) = .error (.reported (braceBehindError 999)) ∧
      (braceBehindError 999).diagnostic.location.position = 999 ∧
      (Text.rawLines (braceBehindError 999).message.toList)[3]? = some "1000 │ \x7d".toList ∧
      (Text.rawLines (braceBehindError 999).message.toList)[4]? = some "    │ ^".toList ∧
      ¬PointsAt (braceBehindError 999).message (braceBehind 999).toList 999 := by
  obtain ⟨-, htext, hnumber, hcolumn, hpoints⟩ := shown_braceBehind 999
  obtain ⟨hrow, hcarets⟩ := Diagnostic.rows_render (isOneLine_of_parse (parse_braceBehind 999))
    (by rw [htext]; decide)
  have hend : (braceBehindError 999).diagnostic.location.endColumn = none := rfl
  refine ⟨parse_braceBehind 999, rfl, ?_, ?_, hpoints.not.mpr (by decide)⟩
  · rw [ParseError.message, hrow, Diagnostic.gutter, hnumber, htext]
    decide
  · rw [ParseError.message, hcarets]
    simp only [Diagnostic.carets, hcolumn, hend]
    decide

end Program

end RandomTables
