import RandomTables.Proofs.Program.Earliest
import RandomTables.Proofs.Program.Parse
import RandomTables.Proofs.Token.Tiling

namespace RandomTables

/-- Tokens that give the readers whatever they ask for: the end of input comes last, numbers have a
weight and rolls have dice, and each token has a span to the end of every one after it. -/
structure Readable (tokens : List Token) : Prop where
  ends : ∃ t, tokens.getLast? = some t ∧ t.kind = .endOfInput
  numbers : ∀ t ∈ tokens, t.kind = .number → ∃ w, t.number = .ok w
  rolls : ∀ t ∈ tokens, t.kind = .diceRoll → ∃ d, t.dice = .ok d
  spans : tokens.Pairwise fun t u => ∃ s, spanTo t u.span.stop = .ok s

/-- Tokens in order have spans between any two of them. -/
theorem readable_of_isTokenStream {tokens : List Token} (h : IsTokenStream tokens) :
    Readable tokens := by
  refine ⟨h.ends, ?_, ?_, ?_⟩
  · intro t ht hkind
    obtain ⟨w, hw⟩ := h.weights t ht hkind
    exact ⟨w, (Grammar.number_eq_ok_iff t w).mpr hw⟩
  · intro t ht hkind
    obtain ⟨d, hd⟩ := h.dice t ht hkind
    exact ⟨d, (Grammar.dice_eq_ok_iff t d).mpr hd⟩
  · have horder := inOrder_of_isChain tokens h.inOrder
    apply List.Pairwise.imp _ horder
    intro t u htu
    have hpair : InOrder [t, u] := List.pairwise_pair.mpr htu
    exact Grammar.exists_spanTo hpair (List.mem_singleton_self u)

/-- The tokens of the scanner are such as the readers are made for. -/
theorem isTokenStream_of_scan {source : List Char} {s : Scan} (h : scan source = .ok s) :
    IsTokenStream s.tokens := by
  obtain ⟨pieces, last, -, hreads, htokens⟩ := (scan_eq_ok_iff source s).mp h
  have hsound := sound_of_reads hreads
  have horder : InOrder s.tokens := ordered_of_tiles (tiles_of_scan source s h)
  -- The end of input, which the scanner puts behind the pieces, is neither a number nor a roll.
  have hmem (t : Token) (ht : t ∈ s.tokens) :
      t ∈ tokensFrom 0 pieces ∨ t.kind = .endOfInput := by
    rw [htokens, List.mem_append, List.mem_singleton] at ht
    rcases ht with ht | rfl
    · exact .inl ht
    · exact .inr rfl
  refine ⟨⟨.endAt source.length, ?_, rfl⟩, ?_, ?_, List.Pairwise.isChain horder⟩
  · rw [htokens, List.getLast?_concat]
  · intro t ht hkind
    rcases hmem t ht with ht | hend
    · exact hsound.weights t ht hkind
    · cases hend.symm.trans hkind
  · intro t ht hkind
    rcases hmem t ht with ht | hend
    · exact hsound.dice t ht hkind
    · cases hend.symm.trans hkind

namespace Program

/-- Where tokens like those of the scanner make no program, one of them is out of place or they end
too early. -/
theorem kind_of_ofTokens_error {source : List Char} {tokens : List Token}
    {failure : ParseFailure} (h : IsTokenStream tokens)
    (hfail : ofTokens source tokens = .error failure) :
    ∃ e, failure = .reported e ∧ ((∃ expected found, e.kind = .unexpectedToken expected found) ∨
      ∃ expected, e.kind = .unexpectedEnd expected) := by
  obtain ⟨m, ending, after, hread, -, hending, rfl⟩ := exists_misparse_of_error h.ends hfail
  have hgrammar : m.IsOfGrammar :=
    isOfGrammar_of_fitsIn (Grammar.readProgram_failsIn _ (sound_ahead tokens h) m hread)
  obtain ⟨taken, htaken, -⟩ := Grammar.readProgram_failsByOne _ m hread
  have hremaining : ∀ t ∈ m.remaining, t.kind ≠ .endOfInput := by
    intro t ht
    apply kind_ne_of_mem_ahead tokens
    rw [htaken]
    exact List.mem_append_right taken ht
  obtain ⟨e, expected, he, hkind⟩ :=
    kind_of_isOfGrammar (.ofSource source) ending hgrammar hending hremaining
  refine ⟨e, he, ?_⟩
  split at hkind
  · exact .inr ⟨expected, hkind⟩
  · exact .inl ⟨expected, _, hkind⟩

/-- The tokens of a source make a program, or there is a token out of place or an end that comes too
early. The readers ask for no value that is missing and for no span that is none. -/
theorem ofTokens_of_scan (source : List Char) (s : Scan) (h : scan source = .ok s) :
    Readable s.tokens ∧
      ((∃ p, ofTokens source s.tokens = .ok p) ∨
        ∃ e, ofTokens source s.tokens = .error (.reported e) ∧
          ((∃ expected found, e.kind = .unexpectedToken expected found) ∨
            ∃ expected, e.kind = .unexpectedEnd expected)) := by
  have hstream := isTokenStream_of_scan h
  refine ⟨readable_of_isTokenStream hstream, ?_⟩
  cases houtcome : ofTokens source s.tokens with
  | ok p => exact .inl ⟨p, rfl⟩
  | error failure =>
    obtain ⟨e, rfl, hkind⟩ := kind_of_ofTokens_error hstream houtcome
    exact .inr ⟨e, rfl, hkind⟩

/-- A roll stands where its brace is never closed. -/
theorem ofTokens_of_scan_openBrace :
    ∃ s, scan "#t\n1:\x7b2d6".toList = .ok s ∧ Readable s.tokens ∧
      ((∃ p, ofTokens "#t\n1:\x7b2d6".toList s.tokens = .ok p) ∨
        ∃ e, ofTokens "#t\n1:\x7b2d6".toList s.tokens = .error (.reported e) ∧
          ((∃ expected found, e.kind = .unexpectedToken expected found) ∨
            ∃ expected, e.kind = .unexpectedEnd expected)) := by
  have hreads : Reads [] .declaration none
      [.token .hash ['#'], .token .identifier ['t'], .token .newline ['\n'],
        ⟨some .number, some (.weight (Decimal.floatOfLiteral ['1'])), ['1']⟩, .token .colon [':'],
        .token .leftBrace ['\x7b'],
        ⟨some .diceRoll, some (.dice ⟨some 2, 6⟩), ['2', 'd', '6']⟩]
      .expression (some .diceRoll) := by
    repeat
      first
      | exact Reads.nil
      | refine Reads.cons ⟨_, _, rfl, rfl⟩ ?_
  have hscan := (scan_eq_ok_iff "#t\n1:\x7b2d6".toList ⟨_, _⟩).mpr ⟨_, _, rfl, hreads, rfl⟩
  exact ⟨_, hscan, ofTokens_of_scan _ _ hscan⟩

end Program

end RandomTables
