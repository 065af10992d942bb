import RandomTables.Collection
import RandomTables.Proofs.Program.Failure
import RandomTables.Proofs.Program.Parse
import RandomTables.Proofs.Token.Overlong
import RandomTables.Proofs.Token.Part

namespace RandomTables

structure Diagnostic.IsAt (d : Diagnostic) (table : LineTable) (offset : Nat) : Prop where
  position : d.location.position = offset
  line : d.location.line = (table.lineAt offset).number
  column : d.location.column = LineTable.columnOn (table.lineAt offset) offset
  sourceLine : d.sourceLine = table.textAt offset

/-- The scanner comes to the given offset of the source, where one of its pieces begins or the
source ends. -/
def ComesTo (source : List Char) (offset : Nat) : Prop :=
  ∃ pieces after mode last, source = textOf pieces ++ after ∧
    Reads after .declaration none pieces mode last ∧ offset = (textOf pieces).length

/-- A fault of the grammar is reported at a token, or at the end of input. -/
theorem failure_of_fitsIn (table : LineTable) (last : Token) (tokens : List Token) (m : Misparse)
    (h : m.FitsIn tokens) :
    ∃ e t, m.failure table last = .reported e ∧ (t ∈ tokens ∨ t = last) ∧
      e.diagnostic.IsAt table t.span.start := by
  cases m with
  | unexpected expected remaining =>
    refine ⟨_, remaining.headD last, rfl, ?_, ⟨rfl, rfl, rfl, rfl⟩⟩
    cases remaining with
    | nil => exact .inr rfl
    | cons t remaining => exact .inl (h.subset List.mem_cons_self)
  | unknownFlag bracket => exact ⟨_, bracket, rfl, .inl h.1, ⟨rfl, rfl, rfl, rfl⟩⟩
  | noTables => exact ⟨_, last, rfl, .inr rfl, ⟨rfl, rfl, rfl, rfl⟩⟩
  | badPayload | badSpan => exact absurd h id

/-- Any fault of the scanner but one is reported where it begins. -/
theorem failure_of_scanFault (f : ScanFault) (source : List Char) (h : f.fault ≠ .overlongDice) :
    ∃ e, f.failure source = .reported e ∧ e.diagnostic.IsAt (.ofSource source) f.start := by
  obtain ⟨fault, start, cursor, mode⟩ := f
  cases fault with
  | overlongDice => exact absurd rfl h
  | reported fault =>
    cases fault <;> exact ⟨_, rfl, ⟨rfl, rfl, rfl, rfl⟩⟩

section Places
variable {pieces : List Piece} {mode : Mode} {last : Option TokenKind}

/-- The scanner comes by the start of each token. -/
theorem comesTo_start (h : Reads [] .declaration none pieces mode last) (t : Token)
    (ht : t ∈ tokensFrom 0 pieces) : ComesTo (textOf pieces) t.span.start := by
  obtain ⟨before, after, hsplit⟩ := List.append_of_mem ht
  obtain ⟨front, piece, back, rfl, -, hpiece, -⟩ := exists_piece_of_token 0 pieces hsplit
  obtain ⟨mode', last', hfront, -⟩ := reads_append_iff.mp h
  rw [List.append_nil] at hfront
  refine ⟨front, _, mode', last', textOf_append _ _, hfront, ?_⟩
  rw [tokenAt_start hpiece, Nat.zero_add]

theorem comesTo_end (h : Reads [] .declaration none pieces mode last) :
    ComesTo (textOf pieces) (textOf pieces).length :=
  ⟨pieces, [], mode, last, (List.append_nil _).symm, h, rfl⟩

end Places

namespace Program

/-- Where the pieces of a source make no program, the readers fail on their tokens. -/
theorem exists_misparse_of_reads {pieces : List Piece} {mode : Mode} {last : Option TokenKind}
    (h : Reads [] .declaration none pieces mode last) (source : List Char) (stop : Nat)
    (failure : ParseFailure)
    (hfail : ofTokens source (tokensFrom 0 pieces ++ [.endAt stop]) = .error failure) :
    ∃ m : Misparse, readProgram (tokensFrom 0 pieces) = .error m ∧
      failure = m.failure (.ofSource source) (.endAt stop) := by
  have hends : ∃ t, (tokensFrom 0 pieces ++ [Token.endAt stop]).getLast? = some t ∧
      t.kind = .endOfInput := ⟨_, List.getLast?_concat, rfl⟩
  obtain ⟨m, ending, after, hread, htokens, -, rfl⟩ := exists_misparse_of_error hends hfail
  -- The end of input that the reader stops at is the one that the scanner put at the end.
  rw [ahead_tokensFrom h] at hread htokens
  obtain ⟨rfl, -⟩ := List.cons.inj (List.append_cancel_left htokens)
  exact ⟨m, hread, rfl⟩

/-- Tokens of the scanner are sound, so that only the grammar can be at fault. -/
theorem ofTokens_error {pieces : List Piece} {mode : Mode} {last : Option TokenKind}
    (h : Reads [] .declaration none pieces mode last) (source : List Char) (stop : Nat)
    (failure : ParseFailure)
    (hfail : ofTokens source (tokensFrom 0 pieces ++ [.endAt stop]) = .error failure) :
    ∃ m : Misparse, m.FitsIn (tokensFrom 0 pieces) ∧
      failure = m.failure (.ofSource source) (.endAt stop) := by
  obtain ⟨m, hread, hfailure⟩ := exists_misparse_of_reads h source stop failure hfail
  exact ⟨m, Grammar.readProgram_failsIn _ (sound_of_reads h) m hread, hfailure⟩

/-- A source without a program has an error at a place where the scanner comes by, or a roll that
is too long. -/
theorem parse_error (source : String) (failure : ParseFailure)
    (h : parse source = .error failure) :
    (failure = .overlongDice ∧ MeetsOverlongRoll source.toList) ∨
      ∃ e offset, failure = .reported e ∧ ComesTo source.toList offset ∧
        e.diagnostic.IsAt (.ofSource source.toList) offset := by
  rw [parse] at h
  split at h
  · -- The scanner stops, and says where unless it is at a roll that is too long.
    rename_i f hscan
    cases h
    by_cases hfault : f.fault = .overlongDice
    · left
      refine ⟨?_, (scan_overlong_iff _).mp ⟨f, hscan, hfault⟩⟩
      rw [ScanFault.failure, ScanFault.error?, hfault]
    · right
      obtain ⟨e, he, hat⟩ := failure_of_scanFault f source.toList hfault
      obtain ⟨pieces, halt, ⟨mode, last, c, rest, hsource, hreads, -⟩, rfl⟩ :=
        (scan_eq_error_iff _ f).mp hscan
      exact ⟨e, _, he, ⟨pieces, c :: rest, mode, last, hsource, hreads, rfl⟩, hat⟩
  · -- The scanner goes through, and the readers fail at one of its tokens.
    rename_i s hscan
    right
    obtain ⟨pieces, last, htext, hreads, htokens⟩ := (scan_eq_ok_iff _ s).mp hscan
    rw [htokens] at h
    obtain ⟨m, hfits, rfl⟩ := ofTokens_error hreads _ _ _ h
    obtain ⟨e, t, he, ht, hat⟩ := failure_of_fitsIn (.ofSource source.toList) _ _ m hfits
    refine ⟨e, t.span.start, he, ?_, hat⟩
    rw [← htext]
    rcases ht with ht | rfl
    · exact comesTo_start hreads t ht
    · rw [← htext]
      exact comesTo_end hreads

/-- Only the scanner stops without a report, and the grammar never does. -/
theorem parse_overlong_iff (source : String) :
    parse source = .error .overlongDice ↔ MeetsOverlongRoll source.toList := by
  constructor
  · intro h
    rcases parse_error source _ h with ⟨-, hroll⟩ | ⟨e, _, he, -⟩
    · exact hroll
    · cases he
  · intro h
    obtain ⟨f, hscan, hfault⟩ := (scan_overlong_iff _).mpr h
    rw [parse, hscan]
    dsimp only
    rw [ScanFault.failure, ScanFault.error?, hfault]

/-- Everything that reads a source answers: with a result, or with an error of the source. -/
structure Answers (source : String) : Prop where
  parse : (∃ p, parse source = .ok p) ∨ ∃ e, parse source = .error (.reported e)
  isValid : ∃ valid, isValid source = .ok valid
  ofSource : ∃ loading, Collection.ofSource source = .ok loading

/-- A dice roll with too many digits on one side of its letter, which the scanner comes to, is all
that keeps a source from an answer. It then has none from any of the three. -/
theorem answers_iff (source : String) :
    (Answers source ↔ ¬MeetsOverlongRoll source.toList) ∧
      (MeetsOverlongRoll source.toList → parse source = .error .overlongDice ∧
        isValid source = .error .overlongDice ∧
        Collection.ofSource source = .error .overlongDice) := by
  rw [← parse_overlong_iff]
  refine ⟨⟨?_, ?_⟩, ?_⟩
  · intro h hroll
    obtain ⟨valid, hvalid⟩ := h.isValid
    rw [isValid, hroll] at hvalid
    cases hvalid
  · intro hroll
    cases h : parse source with
    | ok p => exact ⟨.inl ⟨p, h⟩, ⟨true, by rw [isValid, h]⟩, ⟨_, by rw [Collection.ofSource, h]⟩⟩
    | error failure =>
      rcases parse_error source failure h with ⟨rfl, -⟩ | ⟨e, _, rfl, -⟩
      · exact absurd h hroll
      · exact ⟨.inr ⟨e, h⟩, ⟨false, by rw [isValid, h]⟩, ⟨_, by rw [Collection.ofSource, h]⟩⟩
  · intro hroll
    exact ⟨hroll, by rw [isValid, hroll], by rw [Collection.ofSource, hroll]⟩

def longCount : String :=
  String.ofList ("#t\n1:\x7b".toList ++ (List.replicate 4301 '1' ++ 'd' :: ['6'] ++ ['\x7d']))

/-- The roll has too many digits, and so the source has no answer. -/
theorem not_answers_longCount : ¬Answers longCount := by
  intro h
  -- The pieces up to the roll are read whatever comes after the brace.
  obtain ⟨pieces, htext, hreads⟩ : ∃ pieces, "#t\n1:\x7b".toList = textOf pieces ∧
      ∀ after, Reads after .declaration none pieces .expression (some .leftBrace) := by
    refine ⟨[.token .hash ['#'], .token .identifier ['t'], .token .newline ['\n'],
      ⟨some .number, some (.weight (Decimal.floatOfLiteral ['1'])), ['1']⟩, .token .colon [':'],
      .token .leftBrace ['\x7b']], rfl, ?_⟩
    intro after
    have hcolon : Text.Stops clingsToNumber (':' :: '\x7b' :: after) :=
      (Text.stops_cons _ _ _).mpr (by decide)
    have hnumber := takes_of_lexes (@Lexes.number (some .newline) '1' [] [] _ (by decide) nofun
      (.inl rfl) hcolon (by decide))
    exact .cons ⟨_, _, rfl, rfl⟩ (.cons ⟨_, _, rfl, rfl⟩ (.cons ⟨_, _, rfl, rfl⟩
      (.cons hnumber (.cons ⟨_, _, rfl, rfl⟩ (.cons ⟨_, _, rfl, rfl⟩ .nil)))))
  have hroll : IsOverlongRoll (some .leftBrace) (List.replicate 4301 '1') ['6'] ['\x7d'] := by
    have hstops : Text.Stops Text.continuesWord ['\x7d'] :=
      (Text.stops_cons _ _ _).mpr (by decide)
    have hsix : ∀ c ∈ ['6'], Text.isDigit c = true := List.forall_mem_singleton.mpr (by decide)
    refine ⟨⟨?_, hsix, List.cons_ne_nil _ _, hstops⟩, nofun, ?_⟩
    · intro c hc
      rw [List.eq_of_mem_replicate hc]
      rfl
    · left
      rw [List.length_replicate]
      decide
  have hsource : longCount.toList =
      textOf pieces ++ (List.replicate 4301 '1' ++ 'd' :: ['6'] ++ ['\x7d']) := by
    unfold longCount
    rw [String.toList_ofList, htext]
  have hmeets : MeetsOverlongRoll longCount.toList :=
    ⟨pieces, some .leftBrace, List.replicate 4301 '1', ['6'], ['\x7d'], hsource, hreads _, hroll⟩
  obtain ⟨valid, hvalid⟩ := h.isValid
  rw [isValid, (parse_overlong_iff longCount).mpr hmeets] at hvalid
  cases hvalid

end Program

end RandomTables
