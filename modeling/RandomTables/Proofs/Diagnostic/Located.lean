import RandomTables.Proofs.Diagnostic.Caret
import RandomTables.Proofs.Token.Misread

namespace RandomTables

def lineStart (source : List Char) (offset : Nat) : Nat :=
  ((source.take offset).rdropWhile (· ≠ '\n')).length

/-- A number or dice roll that is wrong for the reason begins at the offset, and what stands before
it could not go on with it. -/
structure BeginsBadLiteral (source : List Char) (offset : Nat) (reason : String) : Prop where
  literal : ∃ mode last fault, fault.kind = .number reason ∧
    Misreads mode last (.reported fault) (source.drop offset)
  first : ∀ c ∈ (source.take offset).getLast?, continuesNumber c = false

/-- The error is about the given offset of the source, at which its kind of fault stands. -/
structure LexError.IsLocated (e : LexError) (source : List Char) (offset : Nat) : Prop where
  comes : ComesTo source offset
  inside : offset < source.length
  position : e.diagnostic.location.position = offset
  line : e.diagnostic.ShowsLine source offset
  column : e.diagnostic.location.column = (offset : Int) - lineStart source offset + 1
  known : e.kind ≠ .other
  character : ∀ s, e.kind = .character s → ∃ c, source[offset]? = some c ∧ s = c.toString
  comment : e.diagnostic.code = some LexFault.unterminatedComment.code →
    ['/', '*'] <+: source.drop offset ∧ ¬['*', '/'] <:+: source.drop (offset + 2)
  number : ∀ reason, e.kind = .number reason → BeginsBadLiteral source offset reason

/-- An offset lies as far behind the start of its line as characters stand before it there. -/
theorem lineStart_add_placeOnLine {source : List Char} {offset : Nat} (h : offset ≤ source.length) :
    lineStart source offset + placeOnLine source offset = offset := by
  rw [lineStart, placeOnLine, ← List.length_append, List.rdropWhile_append_rtakeWhile,
    List.length_take_of_le h]

section Lines
variable {before rest : List Char} {c : Char}

/-- The line of a character that does not end it goes on behind its place. -/
theorem placeOnLine_le (before rest : List Char) (hc : c ≠ '\n') :
    placeOnLine (before ++ c :: rest) before.length ≤
      (lineText (before ++ c :: rest) before.length).length := by
  have haround : (Text.lineAround before (c :: rest)).length =
      (before.rtakeWhile (· ≠ '\n')).length + ((rest.takeWhile (· ≠ '\n')).length + 1) := by
    rw [Text.lineAround, List.length_append, List.takeWhile_cons_of_pos (by simpa using hc),
      List.length_cons]
  have hreturn := Text.length_withoutReturn (Text.lineAround before (c :: rest))
  rw [placeOnLine, lineText, List.take_left, List.drop_left]
  omega

/-- A diagnostic about a character that is no line feed shows the line of the character and counts
the columns from its start. -/
theorem Diagnostic.IsAt.of_ne_lineFeed {d : Diagnostic}
    (h : d.IsAt (.ofSource (before ++ c :: rest)) before.length) (hc : c ≠ '\n') :
    d.ShowsLine (before ++ c :: rest) before.length ∧ d.location.column =
      (before.length : Int) - lineStart (before ++ c :: rest) before.length + 1 := by
  have hle : before.length ≤ (before ++ c :: rest).length := by
    rw [List.length_append]
    exact Nat.le_add_right _ _
  have hcut : ¬Text.CutsLineEnd ((before ++ c :: rest).take before.length)
      ((before ++ c :: rest).drop before.length) := by
    rw [List.drop_left]
    exact fun hcut => hc (Option.some.inj hcut.2)
  obtain ⟨hnumber, htext, hcolumn⟩ := h.of_not_cut hle hcut
  -- The line has the character on it, so that no column is cut off at its end.
  have hplace := placeOnLine_le before rest hc
  have hstart := lineStart_add_placeOnLine hle
  refine ⟨⟨hnumber, htext⟩, ?_⟩
  rw [hcolumn]
  omega

end Lines

section Faults
variable {mode : Mode} {last : Option TokenKind} {fault : LexFault} {s : List Char}

/-- The character of an error is the first of the text at which the step failed. -/
theorem character_of_misreads (h : Misreads mode last (.reported fault) s) {character : String}
    (hkind : fault.kind = .character character) :
    ∃ c, s.head? = some c ∧ character = c.toString := by
  cases h with
  | invalidCharacter =>
    cases hkind
    exact ⟨_, rfl, rfl⟩
  | unterminatedComment =>
    cases hkind
    exact ⟨'/', rfl, rfl⟩
  | invalidNumber | zeroWeight | invalidDice => cases hkind

/-- An open comment begins at the text at which the step failed, and is not closed in what follows.
-/
theorem comment_of_misreads (h : Misreads mode last (.reported fault) s)
    (hcode : fault.code = LexFault.unterminatedComment.code) :
    ['/', '*'] <+: s ∧ ¬['*', '/'] <:+: s.drop 2 := by
  cases h with
  | unterminatedComment hopen => exact ⟨List.prefix_append _ _, hopen⟩
  | invalidCharacter | invalidNumber | zeroWeight | invalidDice =>
    exact absurd hcode (by simp [LexFault.code])

/-- A bad number or dice roll begins with a character of words, and not in the text of a rule. -/
theorem word_of_misreads (h : Misreads mode last (.reported fault) s) {reason : String}
    (hkind : fault.kind = .number reason) :
    mode ≠ .ruleContent ∧ ∀ c ∈ s.head?, Text.continuesWord c = true := by
  cases h with
  | invalidCharacter | unterminatedComment => cases hkind
  | invalidNumber hdigit | zeroWeight hdigit =>
    refine ⟨by decide, fun c hc => ?_⟩
    cases hc
    exact Text.continuesWord_of_isDigit _ hdigit
  | invalidDice hbegins hrun =>
    refine ⟨by decide, fun c hc => ?_⟩
    obtain ⟨d, tail, rfl, -⟩ := hbegins
    cases hc
    exact hrun.word _ List.mem_cons_self

end Faults

/-- Every lexical error is located at what it is about. -/
theorem scan_error_located (source : List Char) (f : ScanFault) (e : LexError)
    (h : scan source = .error f) (he : f.error? source = some e) :
    ∃ offset, e.IsLocated source offset := by
  obtain ⟨pieces, halt, ⟨mode, last, c, rest, hsource, hreads, hstep⟩, rfl⟩ :=
    (scan_eq_error_iff source f).mp h
  obtain ⟨fault, hfault, rfl⟩ : ∃ fault, halt.fault = .reported fault ∧
      e = ⟨fault.kind, fault.diagnose (.ofSource source) (textOf pieces).length⟩ := by
    simp only [ScanFault.error?, Halt.faultAt] at he
    split at he
    · next fault hfault => exact ⟨fault, hfault, (Option.some.inj he).symm⟩
    · cases he
  subst hsource
  obtain ⟨hfeed, hrule⟩ := misreads_of_step hstep
  rw [hfault] at hrule
  have hat : (fault.diagnose (.ofSource (textOf pieces ++ c :: rest)) (textOf pieces).length).IsAt
      (.ofSource (textOf pieces ++ c :: rest)) (textOf pieces).length := ⟨rfl, rfl, rfl, rfl⟩
  obtain ⟨hline, hcolumn⟩ := hat.of_ne_lineFeed hfeed
  have hafter : (textOf pieces ++ c :: rest).drop (textOf pieces).length = c :: rest :=
    List.drop_left
  refine ⟨(textOf pieces).length, ?_⟩
  constructor
  case comes => exact ⟨pieces, c :: rest, mode, last, rfl, hreads, rfl⟩
  case inside => simp
  case position => exact hat.position
  case line => exact hline
  case column => exact hcolumn
  case known => exact fun hother => by cases fault <;> cases hother
  case character =>
    intro s hkind
    obtain ⟨d, hd, rfl⟩ := character_of_misreads hrule hkind
    cases hd
    exact ⟨c, by simp, rfl⟩
  case comment =>
    intro hcode
    rw [← List.drop_drop, hafter]
    exact comment_of_misreads hrule (Option.some.inj hcode)
  case number =>
    intro reason hkind
    obtain ⟨hmode, hword⟩ := word_of_misreads hrule hkind
    -- A word could go on at the literal, and every piece before it would have taken it along.
    rw [← hafter] at hrule
    refine ⟨⟨mode, last, fault, hkind, hrule⟩, ?_⟩
    rw [List.take_left]
    exact before_of_reads hreads hmode (hword c rfl)

def openComment : List Char := "#a\r\n/*\n*/ /*b\r".toList

def openCommentFault : ScanFault := ⟨.reported .unterminatedComment, 10, 14, .declaration⟩

theorem scan_openComment : scan openComment = .error openCommentFault := by
  have hreads : Reads "/*b\r".toList .declaration none [.token .hash ['#'],
      .token .identifier ['a'], .token .newline ['\r', '\n'], .trivia "/*\n*/".toList,
      .trivia [' ']] .declaration (some .newline) := by
    repeat
      first
      | exact Reads.nil
      | refine Reads.cons ⟨_, _, rfl, rfl⟩ ?_
  exact (scan_eq_error_iff openComment openCommentFault).mpr
    ⟨_, _, ⟨_, _, _, _, rfl, hreads, rfl⟩, rfl⟩

/-- Behind a comment over two lines, the error is on the third line. -/
theorem scan_error_located_openComment :
    ∃ e, scan openComment = .error openCommentFault ∧ openCommentFault.error? openComment = some e ∧
      ∃ offset, e.IsLocated openComment offset :=
  ⟨_, scan_openComment, rfl, scan_error_located _ _ _ scan_openComment rfl⟩

end RandomTables
