import RandomTables.Proofs.Diagnostic.Located
import RandomTables.Proofs.Program.FlagList
import RandomTables.Proofs.Program.Readable
import RandomTables.Proofs.Token.Mark

namespace RandomTables

def lineEnd (source : List Char) (offset : Nat) : Nat :=
  lineStart source offset + (lineText source offset).length

def onFirstLine (source : List Char) (start stop : Nat) : List Char :=
  source.extract start (min stop (lineEnd source start))

structure Diagnostic.IsSpan (d : Diagnostic) (table : LineTable) (start stop : Nat) : Prop where
  location : d.location = table.locateSpan start stop
  sourceLine : d.sourceLine = table.textAt start

structure Diagnostic.SaysNoCaret (d : Diagnostic) : Prop where
  heading : '^' ∉ d.heading.toList
  message : '^' ∉ d.message.toList
  suggestion : ∀ s ∈ d.suggestion, '^' ∉ s.toList

/-- The diagnostic is about a stretch of text. The columns cut what stands of it on its first line
out of the line that is shown, and below that line the excerpt has a caret for each character of it,
of which there is at least one. Other carets are in the excerpt only as the line itself has them. -/
structure Diagnostic.Marks (d : Diagnostic) (source : List Char) (start stop : Nat) : Prop where
  position : d.location.position = start
  endPosition : d.location.endPosition = some (stop : Int)
  line : d.ShowsLine source start
  columns : ∃ k m : Nat, d.location.column = (k + 1 : Nat) ∧
    d.location.endColumn = some ((m + 1 : Nat) : Int) ∧
    d.sourceLine.toList.extract k m = onFirstLine source start stop
  row : (Text.rawLines d.render.toList)[4]? = some ("    │ ".toList ++
    (List.replicate (d.location.column - 1).toNat ' ' ++
      List.replicate (onFirstLine source start stop).length '^'))
  carets : d.render.toList.count '^' =
    d.sourceLine.toList.count '^' + (onFirstLine source start stop).length
  nonempty : onFirstLine source start stop ≠ []

section Lines
variable {source before rest : List Char} {c : Char} {offset : Nat}

/-- A character that belongs to no line end is shown on its line. -/
theorem placeOnLine_lt (before rest : List Char) (hc : c ≠ '\n') (hreturn : c ≠ '\r') :
    placeOnLine (before ++ c :: rest) before.length <
      (lineText (before ++ c :: rest) before.length).length := by
  have haround : Text.lineAround before (c :: rest) =
      before.rtakeWhile (· ≠ '\n') ++ c :: rest.takeWhile (· ≠ '\n') := by
    rw [Text.lineAround, List.takeWhile_cons_of_pos (by simpa using hc)]
  rw [placeOnLine, lineText, List.take_left, List.drop_left, haround, Text.withoutReturn]
  split
  · next hlast =>
    -- The return that is not shown comes behind the character.
    have hmore : rest.takeWhile (· ≠ '\n') ≠ [] := by
      intro hnil
      rw [hnil, List.getLast?_concat] at hlast
      exact hreturn (Option.some.inj hlast)
    have hpos := List.length_pos_iff.mpr hmore
    rw [List.length_dropLast, List.length_append, List.length_cons]
    omega
  · rw [List.length_append, List.length_cons]
    omega

/-- The line of an offset begins at the start of the line. -/
theorem isPrefix_lineText (source : List Char) (offset : Nat) :
    lineText source offset <+: source.drop (lineStart source offset) := by
  have hparts : (source.take offset).rdropWhile (· ≠ '\n') ++
      (Text.lineAround (source.take offset) (source.drop offset) ++
        (source.drop offset).dropWhile (· ≠ '\n')) = source := by
    rw [Text.lineAround, List.append_assoc, List.takeWhile_append_dropWhile, ← List.append_assoc,
      List.rdropWhile_append_rtakeWhile, List.take_append_drop]
  have hdrop : source.drop (lineStart source offset) =
      Text.lineAround (source.take offset) (source.drop offset) ++
        (source.drop offset).dropWhile (· ≠ '\n') :=
    (congrArg (List.drop (lineStart source offset)) hparts).symm.trans List.drop_left
  rw [hdrop]
  exact (Text.withoutReturn_prefix _).trans (List.prefix_append _ _)

/-- A line ends within its source. -/
theorem lineEnd_le (h : offset ≤ source.length) : lineEnd source offset ≤ source.length := by
  have hlength := (isPrefix_lineText source offset).length_le
  have hstart := lineStart_add_placeOnLine h
  rw [List.length_drop] at hlength
  rw [lineEnd]
  omega

/-- A part of the line, counted from its start, is a part of the source. -/
theorem extract_lineText {k m : Nat} (hm : m ≤ (lineText source offset).length) :
    (lineText source offset).extract k m =
      source.extract (lineStart source offset + k) (lineStart source offset + m) := by
  rw [List.prefix_iff_eq_take.mp (isPrefix_lineText source offset), List.extract_eq_take_drop,
    List.extract_eq_take_drop, List.drop_take, List.drop_drop, List.take_take]
  congr 1
  omega

/-- The line table has the line of an offset between its start and its end. -/
theorem lineAt_bounds (before rest : List Char) (hc : c ≠ '\n') :
    let line := (LineTable.ofSource (before ++ c :: rest)).lineAt before.length
    line.start = lineStart (before ++ c :: rest) before.length ∧
      line.stop = lineEnd (before ++ c :: rest) before.length := by
  have hcut : ¬Text.CutsLineEnd before (c :: rest) := fun hcut => hc (Option.some.inj hcut.2)
  obtain ⟨raws, left, right, more, hbefore, hafter, hleft, haround, -, hline⟩ :=
    LineTable.exists_lineAt_of_not_cut hcut
  have hsource : before ++ c :: rest = Text.endedText raws ++ (left ++ right ++ more) := by
    rw [hbefore, hafter, List.append_assoc, List.append_assoc]
  have hstart : (Text.endedText raws).length = lineStart (before ++ c :: rest) before.length := by
    have hplace := @lineStart_add_placeOnLine (before ++ c :: rest) before.length (by simp)
    have hlength := congrArg List.length hbefore
    rw [placeOnLine, List.take_left, ← hleft] at hplace
    rw [List.length_append] at hlength
    omega
  have hstop : lineText (before ++ c :: rest) before.length =
      Text.withoutReturn (left ++ right) := by
    rw [lineText, List.take_left, List.drop_left, haround]
  rw [hsource] at hstart hstop ⊢
  rw [lineEnd, hline, hstop, ← hstart]
  exact ⟨rfl, rfl⟩

/-- The places on a line between which a stretch of text stands that begins on it. -/
theorem exists_places {stop : Nat} (before rest : List Char) (hc : c ≠ '\n') (hreturn : c ≠ '\r')
    (hstop : before.length < stop) :
    ∃ k m, k < m ∧ m ≤ (lineText (before ++ c :: rest) before.length).length ∧
      lineStart (before ++ c :: rest) before.length + k = before.length ∧
      lineStart (before ++ c :: rest) before.length + m =
        min stop (lineEnd (before ++ c :: rest) before.length) := by
  have hplaced := @lineStart_add_placeOnLine (before ++ c :: rest) before.length (by simp)
  have hwithin := placeOnLine_lt before rest hc hreturn
  refine ⟨_, min stop (lineEnd (before ++ c :: rest) before.length) -
    lineStart (before ++ c :: rest) before.length, ?_, ?_, hplaced, ?_⟩ <;>
  · rw [lineEnd]
    omega

/-- A stretch is cut off where its first line ends. -/
theorem length_onFirstLine {start stop : Nat} (h : start ≤ source.length) :
    (onFirstLine source start stop).length = min stop (lineEnd source start) - start := by
  have hend := lineEnd_le h
  rw [onFirstLine, List.extract_eq_take_drop, List.length_take, List.length_drop]
  omega

end Lines

namespace Diagnostic
variable {d : Diagnostic}

/-- A caret in the line is shown as it is. -/
theorem count_visible (s : List Char) : (Text.visible s).count '^' = s.count '^' :=
  List.count_filter (by decide)

/-- What is not quoted of the source has no carets but those that mark the place. -/
theorem count_caret_render (h : d.SaysNoCaret) :
    d.render.toList.count '^' = d.sourceLine.toList.count '^' + d.carets.toList.count '^' := by
  have hnumber (z : Int) : '^' ∉ (toString z).toList := by
    intro hmem
    rcases Decimal.digit_or_minus_of_mem_toString z _ hmem with hcell | hcell <;>
      exact absurd hcell (by decide)
  have hplace : '^' ∉ d.placeRow.toList :=
    not_mem_toList_append (not_mem_toList_append (not_mem_toList_append (by decide) (hnumber _))
      (by decide)) (hnumber _)
  have hgutter : '^' ∉ d.gutter := by
    intro hmem
    have hcell := mem_gutter hmem
    revert hcell
    decide
  -- What comes behind the row of carets is the suggestion, if there is one.
  have hmore : '^' ∉ Text.plainText ((d.pieces true).drop 8) := by
    cases hsome : d.suggestion with
    | none => simp [pieces, hsome, Text.plainText]
    | some suggestion =>
      have hnone := h.suggestion suggestion hsome
      simp [pieces, hsome, Text.plainText, suggestionPieces, Text.Piece.ofString, hnone]
  have hbar : '^' ∉ "    │".toList := by decide
  have hcells : '^' ∉ "    │ ".toList := by decide
  have hcolon : '^' ∉ (": " ++ d.message).toList := not_mem_toList_append (by decide) h.message
  rw [toList_render]
  simp only [List.count_append, List.count_cons_of_ne (show '\n' ≠ '^' by decide), count_visible,
    List.count_eq_zero.mpr h.heading, List.count_eq_zero.mpr hcolon, List.count_eq_zero.mpr hplace,
    List.count_eq_zero.mpr hbar, List.count_eq_zero.mpr hgutter, List.count_eq_zero.mpr hcells,
    List.count_eq_zero.mpr hmore, Nat.zero_add, Nat.add_zero]

/-- The row of carets, from the columns where they begin and end. -/
theorem carets_of_columns {k m : Nat} (hlt : k < m) (hcolumn : d.location.column = (k + 1 : Nat))
    (hend : d.location.endColumn = some ((m + 1 : Nat) : Int)) :
    d.carets.toList = List.replicate k ' ' ++ List.replicate (m - k) '^' := by
  have hblanks : (d.location.column - 1).toNat = k := by
    rw [hcolumn]
    omega
  have hmarked : (max (((m + 1 : Nat) : Int) - d.location.column) 1).toNat = m - k := by
    rw [hcolumn]
    omega
  rw [carets, hend]
  dsimp only
  rw [hblanks, hmarked, String.toList_append, Text.repeated, Text.repeated, String.toList_ofList,
    String.toList_ofList]

/-- A stretch is about the offset where it begins. -/
theorem IsSpan.isAt {table : LineTable} {start stop : Nat} (h : d.IsSpan table start stop) :
    d.IsAt table start := by
  refine ⟨?_, ?_, ?_, h.sourceLine⟩ <;>
  · rw [h.location]
    rfl

section Spans
variable {before rest : List Char} {c : Char} {stop : Nat}

/-- The columns are those of the places on the line. -/
theorem IsSpan.columns (h : d.IsSpan (.ofSource (before ++ c :: rest)) before.length stop)
    (hc : c ≠ '\n') (hreturn : c ≠ '\r') (hstop : before.length < stop) :
    ∃ k m : Nat, d.location.column = (k + 1 : Nat) ∧
      d.location.endColumn = some ((m + 1 : Nat) : Int) ∧ k < m ∧
      (onFirstLine (before ++ c :: rest) before.length stop).length = m - k ∧
      d.sourceLine.toList.extract k m = onFirstLine (before ++ c :: rest) before.length stop := by
  obtain ⟨hshows, hcolumn⟩ := h.isAt.of_ne_lineFeed hc
  obtain ⟨hfirst, hlast⟩ := lineAt_bounds before rest hc
  obtain ⟨k, m, hlt, hm, hstart, hend⟩ := exists_places before rest hc hreturn hstop
  have hlength := @length_onFirstLine (before ++ c :: rest) before.length stop (by simp)
  have hline : d.sourceLine.toList = lineText (before ++ c :: rest) before.length := by
    rw [hshows.text, String.toList_ofList, lineText]
  refine ⟨k, m, ?_, ?_, hlt, ?_, ?_⟩
  · rw [hcolumn]
    omega
  · -- The end column is cut off where the line ends, as the place is.
    rw [h.location]
    simp only [LineTable.locateSpan, Option.some.injEq]
    rw [hfirst, hlast]
    omega
  · omega
  · rw [hline, extract_lineText hm, hstart, hend, onFirstLine]

/-- A stretch of text that begins with a character of a line is marked as far as the line goes. -/
theorem IsSpan.marks {source : List Char} {start : Nat} (h : d.IsSpan (.ofSource source) start stop)
    (hstart : source[start]? = some c) (hc : c ≠ '\n') (hreturn : c ≠ '\r') (hstop : start < stop)
    (hone : d.IsOneLine) (hquiet : d.SaysNoCaret) : d.Marks source start stop := by
  obtain ⟨before, rest, rfl, rfl⟩ : ∃ before rest, source = before ++ c :: rest ∧
      start = before.length := by
    obtain ⟨hlt, rfl⟩ := List.getElem?_eq_some_iff.mp hstart
    refine ⟨source.take start, source.drop (start + 1), ?_, ?_⟩
    · rw [← List.drop_eq_getElem_cons hlt, List.take_append_drop]
    · rw [List.length_take_of_le (Nat.le_of_lt hlt)]
  obtain ⟨k, m, hcolumn, hend, hlt, hlength, hextract⟩ := h.columns hc hreturn hstop
  obtain ⟨hshows, -⟩ := h.isAt.of_ne_lineFeed hc
  have hsourceLine : OneLine d.sourceLine := by
    rw [hshows.text]
    exact oneLine_ofList (not_mem_lineText _ _)
  have hcarets := carets_of_columns hlt hcolumn hend
  rw [← hlength] at hcarets
  constructor
  case position => exact h.isAt.position
  case endPosition =>
    rw [h.location]
    rfl
  case line => exact hshows
  case columns => exact ⟨k, m, hcolumn, hend, hextract⟩
  case row =>
    have hblanks : (d.location.column - 1).toNat = k := by
      rw [hcolumn]
      omega
    rw [(rows_render hone hsourceLine).2, hcarets, hblanks]
  case carets =>
    have hblanks : (List.replicate k ' ').count '^' = 0 :=
      List.count_eq_zero.mpr fun hmem => absurd (List.eq_of_mem_replicate hmem) (by decide)
    rw [count_caret_render hquiet, hcarets, List.count_append, List.count_replicate_self, hblanks,
      Nat.zero_add]
  case nonempty =>
    apply List.ne_nil_of_length_pos
    omega

end Spans

end Diagnostic

section Flags
variable {e : ParseError} {bracket flag : Token} {remaining : List Token}

/-- Lexical errors have other codes. -/
theorem code_ne_of_scanFault {f : ScanFault} {source : List Char}
    (h : f.failure source = .reported e) : e.diagnostic.code ≠ some "PARSER_UNKNOWN_FLAG" := by
  obtain ⟨fault, -, hdiagnostic⟩ := diagnostic_of_scanFault h
  have hother : fault.code ≠ "PARSER_UNKNOWN_FLAG" := by
    cases fault <;> rw [LexFault.code] <;> decide
  rw [hdiagnostic]
  exact fun hcode => hother (Option.some.inj hcode)

/-- No other fault of the grammar has the code of an unknown flag. -/
theorem exists_eq_unknownFlag {table : LineTable} {last : Token} {m : Misparse}
    (h : m.failure table last = .reported e)
    (hcode : e.diagnostic.code = some "PARSER_UNKNOWN_FLAG") :
    ∃ bracket flag remaining, m = .unknownFlag bracket flag remaining := by
  cases m with
  | unexpected expected remaining =>
    cases h
    have hother : expected.code ≠ "PARSER_UNKNOWN_FLAG" := by cases expected <;> decide
    exact absurd (Option.some.inj hcode) hother
  | unknownFlag bracket flag remaining => exact ⟨bracket, flag, remaining, rfl⟩
  | noTables =>
    cases h
    have hother : "PARSER_MISSING_TABLE" ≠ "PARSER_UNKNOWN_FLAG" := by decide
    exact absurd (Option.some.inj hcode) hother
  | badPayload | badSpan => cases h

/-- The message quotes a name, and in no name is a caret. -/
theorem saysNoCaret_of_unknownFlag {table : LineTable} {last : Token}
    (h : (Misparse.unknownFlag bracket flag remaining).failure table last = .reported e)
    (hname : IsName flag.lexeme.toList) : e.diagnostic.SaysNoCaret := by
  cases h
  constructor
  case heading => exact (by decide : '^' ∉ "error[PARSER_UNKNOWN_FLAG]".toList)
  case message =>
    exact not_mem_toList_append
      (not_mem_toList_append (by decide) (not_mem_of_isName (by decide) (by decide) hname))
      (by decide)
  case suggestion =>
    intro s hs
    cases hs
    decide

end Flags

/-- The error is about a whole flag list: whole tables come before its table, it is open at an
unknown flag, and what is marked begins with its bracket and ends where the list does. -/
def ParseError.MarksFlagList (e : ParseError) (source : List Char) : Prop :=
  ∃ s bracket flag rest stop, scan source = .ok s ∧
    Grammar.StopsAtFlag s.tokens bracket flag rest ∧ source[bracket.span.start]? = some '[' ∧
    FlagListEndsAt flag rest stop ∧ e.diagnostic.Marks source bracket.span.start stop

namespace Program

/-- An unknown flag is marked with its whole flag list, as far as the line of the bracket goes. -/
theorem marksFlagList_of_code (source : String) (e : ParseError)
    (h : parse source = .error (.reported e))
    (hcode : e.diagnostic.code = some "PARSER_UNKNOWN_FLAG") :
    e.MarksFlagList source.toList := by
  have hone := isOneLine_of_parse h
  rw [parse] at h
  split at h
  · exact absurd hcode (code_ne_of_scanFault (Except.error.inj h))
  -- The scanner went through, and of the readers only that of flags has the code.
  rename_i s hscan
  obtain ⟨pieces, last, htext, hreads, htokens⟩ := (scan_eq_ok_iff _ s).mp hscan
  rw [htokens] at h
  obtain ⟨m, hread, hfailure⟩ := exists_misparse_of_reads hreads _ _ _ h
  obtain ⟨bracket, flag, remaining, rfl⟩ := exists_eq_unknownFlag hfailure.symm hcode
  obtain ⟨rest, rfl, hstops⟩ := Grammar.readProgram_unknown (sound_of_reads hreads) hread
  obtain ⟨before, flags, hsplit, hbracket, hflag⟩ := Grammar.split_of_stopsAtFlag hstops
  have hmem : bracket ∈ tokensFrom 0 pieces := by
    rw [hsplit]
    simp
  have hopens : source.toList[bracket.span.start]? = some '[' := by
    rw [← htext]
    exact getElem_of_character hreads hmem (by rw [hbracket]; rfl)
  have hends : FlagListEndsAt flag (rest ++ [.endAt source.toList.length])
      (flagListEnd flag.span.stop rest) := by
    apply flagListEnd_endsAt flag _ rest []
    · intro t ht
      apply kind_ne_end_of_reads hreads 0 t
      rw [hsplit]
      simp [ht]
    · rfl
  have hstopsAll : Grammar.StopsAtFlag s.tokens bracket flag
      (rest ++ [.endAt source.toList.length]) := by
    rw [htokens]
    exact Grammar.stopsAtFlag_append _ hstops
  -- The bracket takes up a character and the list ends behind it, so there is something to mark.
  have hstop : bracket.span.start < flagListEnd flag.span.stop rest := by
    have horder : InOrder s.tokens := ordered_of_tiles (tiles_of_scan _ s hscan)
    have hbehind := Grammar.stop_le_of_stopsAtFlag hstopsAll hends horder
    have hlong := start_lt_stop_of_reads hreads hmem
    omega
  have hspan : e.diagnostic.IsSpan (.ofSource source.toList) bracket.span.start
      (flagListEnd flag.span.stop rest) := by
    rw [← flagListEnd_cons hflag flag.span.stop]
    cases hfailure
    exact ⟨rfl, rfl⟩
  have hname : IsName flag.lexeme.toList := by
    apply (shape_of_reads hreads 0 flag _).name hflag
    rw [hsplit]
    simp
  have hmarks := hspan.marks hopens (by decide) (by decide) hstop hone
    (saysNoCaret_of_unknownFlag hfailure.symm hname)
  exact ⟨s, bracket, flag, _, _, hscan, hstopsAll, hopens, hends, hmarks⟩

def commentedFlags : String := "#t[export,x /*\n*/,y]"

def commentedFlagsPieces : List Piece :=
  [.token .hash ['#'], .token .identifier ['t'], .token .leftBracket ['['],
    .token .exportWord "export".toList, .token .comma [','], .token .identifier ['x'],
    .trivia [' '], .trivia "/*\n*/".toList, .token .comma [','], .token .identifier ['y'],
    .token .rightBracket [']']]

def commentedFlagsError : ParseError :=
  ⟨.unexpectedToken "'export'" "'x'", (LineTable.ofSource commentedFlags.toList).diagnoseSpan
    .parsing 2 20 "Unknown table flag 'x'" (some "PARSER_UNKNOWN_FLAG")
    (some "The only supported flag is 'export', e.g. '#table[export]'")⟩

theorem parse_commentedFlags : parse commentedFlags = .error (.reported commentedFlagsError) := by
  have hreads : Reads [] .declaration none commentedFlagsPieces .declaration
      (some .rightBracket) := by
    repeat
      first
      | exact Reads.nil
      | refine Reads.cons ⟨_, _, rfl, rfl⟩ ?_
  have hread : readProgram (tokensFrom 0 commentedFlagsPieces) =
      .error (.unknownFlag ⟨.leftBracket, "[", ⟨2, 3, by decide⟩, none⟩
        ⟨.identifier, "x", ⟨10, 11, by decide⟩, none⟩
        ((tokensFrom 0 commentedFlagsPieces).drop 5)) :=
    congrArg (· >>= _) (Grammar.readTables_hash _ _ rfl)
  have hscan := (scan_eq_ok_iff commentedFlags.toList ⟨_, .declaration⟩).mpr
    ⟨commentedFlagsPieces, _, rfl, hreads, rfl⟩
  rw [parse, hscan]
  exact congrArg (Except.mapError _) hread

/-- The list has a comment over two lines, and what is marked ends with the first. -/
theorem marksFlagList_of_code_commentedFlags :
    parse commentedFlags = .error (.reported commentedFlagsError) ∧
      commentedFlagsError.diagnostic.code = some "PARSER_UNKNOWN_FLAG" ∧
      commentedFlagsError.MarksFlagList commentedFlags.toList :=
  ⟨parse_commentedFlags, rfl, marksFlagList_of_code _ _ parse_commentedFlags rfl⟩

end Program

end RandomTables
