import RandomTables.Program.OfSource
import RandomTables.Proofs.Program.Table
import RandomTables.Proofs.Token.Reading

namespace RandomTables

/-- Tokens as a parser is given them: the end of input is the last, numbers and rolls carry what
they stand for, and each token begins no earlier than the one before it ends. -/
structure IsTokenStream (tokens : List Token) : Prop where
  ends : ∃ t, tokens.getLast? = some t ∧ t.kind = .endOfInput
  weights : ∀ t ∈ tokens, t.kind = .number → ∃ w, t.value = some (.weight w)
  dice : ∀ t ∈ tokens, t.kind = .diceRoll → ∃ d, t.value = some (.dice d)
  inOrder : tokens.IsChain fun t u => t.span.stop ≤ u.span.start

namespace Program

def ahead (tokens : List Token) : List Token :=
  tokens.takeWhile (·.kind ≠ .endOfInput)

theorem ahead_append (before after : List Token) (h : ∀ t ∈ before, t.kind ≠ .endOfInput) :
    ahead (before ++ after) = before ++ ahead after :=
  List.takeWhile_append_of_pos fun t ht => by simpa using h t ht

/-- Nothing before the end of input is lost by cutting there. -/
theorem sound_ahead (tokens : List Token) (h : IsTokenStream tokens) :
    Grammar.Sound (ahead tokens) := by
  have hsound : Grammar.Sound tokens := ⟨h.weights, h.dice, inOrder_of_isChain tokens h.inOrder⟩
  rw [← List.takeWhile_append_dropWhile (p := (·.kind ≠ .endOfInput)) (l := tokens)] at hsound
  exact (Grammar.sound_of_append _ _ hsound).1

/-- What follows the first end of input is not looked at. -/
theorem ofTokens_eq_ok_iff_readProgram (source : List Char) (tokens : List Token) (p : Program)
    (h : ∃ t, tokens.getLast? = some t ∧ t.kind = .endOfInput) :
    ofTokens source tokens = .ok p ↔ readProgram (ahead tokens) = .ok p := by
  obtain ⟨last, hlast, hkind⟩ := h
  unfold ofTokens
  rw [hlast]
  dsimp only
  rw [if_pos hkind]
  exact Grammar.mapError_eq_ok_iff _ _ _

/-- A failure is that of the tokens before the first end of input. -/
theorem exists_misparse_of_error {source : List Char} {tokens : List Token}
    {failure : ParseFailure} (hends : ∃ t, tokens.getLast? = some t ∧ t.kind = .endOfInput)
    (h : ofTokens source tokens = .error failure) :
    ∃ m ending after, readProgram (ahead tokens) = .error m ∧
      tokens = ahead tokens ++ ending :: after ∧ ending.kind = .endOfInput ∧
      failure = m.failure (.ofSource source) ending := by
  obtain ⟨last, hlast, hkind⟩ := hends
  cases hfind : tokens.find? (·.kind = .endOfInput) with
  | none =>
    have hnone := List.find?_eq_none.mp hfind last (List.mem_of_getLast? hlast)
    simp [hkind] at hnone
  | some ending =>
    obtain ⟨hending, before, after, htokens, hbefore⟩ := List.find?_eq_some_iff_append.mp hfind
    have hahead : ahead tokens = before := by
      rw [htokens, ahead_append before _ (by simpa using hbefore), ahead, List.takeWhile_cons]
      simpa using hending
    rw [ofTokens, hlast, hfind] at h
    dsimp only at h
    rw [if_pos hkind] at h
    change (readProgram (ahead tokens)).mapError _ = _ at h
    cases hread : readProgram (ahead tokens) with
    | ok p =>
      rw [hread] at h
      cases h
    | error m =>
      rw [hread] at h
      cases h
      exact ⟨m, ending, after, rfl, by rw [hahead, htokens], by simpa using hending, rfl⟩

/-- A program comes out exactly if the tokens before the first end of input derive one, and it is
the tree of their derivation. -/
theorem ofTokens_eq_ok_iff_isProgram (source : List Char) (tokens : List Token) (p : Program)
    (h : IsTokenStream tokens) :
    ofTokens source tokens = .ok p ↔ Grammar.IsProgram (ahead tokens) p := by
  rw [ofTokens_eq_ok_iff_readProgram source tokens p h.ends]
  exact Grammar.readProgram_eq_ok_iff (ahead tokens) p (sound_ahead tokens h)

def cutText : List Token :=
  tokensFrom 0 [.token .newline ['\n'], .token .hash ['#'], .token .identifier ['t'],
    .token .newline ['\n'], ⟨some .number, some (.weight 1), ['1']⟩, .token .colon [':'],
    .token .text ['a', ' '], .trivia "/**/".toList, .token .text ['b'], .token .leftBrace ['\x7b'],
    ⟨some .diceRoll, some (.dice ⟨none, 6⟩), ['d', '6']⟩, .token .rightBrace ['\x7d']] ++
  [.endAt 17]

/-- The two texts beside the comment are one item. -/
theorem ofTokens_cutText : IsTokenStream cutText ∧
    ofTokens [] cutText = .ok ⟨[⟨⟨"t", false, [⟨⟨1, [.text "a b", .dice ⟨none, 6⟩]⟩,
      ⟨4, 17, by decide⟩⟩]⟩, ⟨1, 17, by decide⟩⟩]⟩ := by
  have hstream : IsTokenStream cutText := by
    constructor
    · exact ⟨_, rfl, rfl⟩
    · simp [cutText, tokensFrom, Piece.tokenAt, Piece.token, Piece.trivia, Token.endAt]
    · simp [cutText, tokensFrom, Piece.tokenAt, Piece.token, Piece.trivia, Token.endAt]
    · decide
  refine ⟨hstream, (ofTokens_eq_ok_iff_isProgram _ _ _ hstream).mpr ?_⟩
  have hroll : Grammar.Content ((ahead cutText).drop 8) [.dice ⟨none, 6⟩] :=
    @Grammar.Content.expression _ [_] _ [] _ [] rfl (.dice rfl) rfl .nil
  have hcontent : Grammar.Content ((ahead cutText).drop 6) [.text "a b", .dice ⟨none, 6⟩] :=
    @Grammar.Content.texts [_, _] _ _ (List.cons_ne_nil _ _) (by decide) hroll trivial
  have hrule : Grammar.IsRule ((ahead cutText).drop 4) _ :=
    .mk rfl rfl hcontent (by decide) (by decide)
  have hlines : Grammar.Lines ((ahead cutText).drop 4) _ :=
    @Grammar.Lines.rule ((ahead cutText).drop 4) [] _ _ hrule .nil
  have htable : Grammar.IsTable ((ahead cutText).drop 1) [] _ :=
    @Grammar.IsTable.lines [_, _] _ _ _ _ _ _ (.plain rfl rfl) rfl hlines
  have htables := @Grammar.Tables.cons ((ahead cutText).drop 1) [] _ _ htable .nil
  exact @Grammar.IsProgram.mk [_] ((ahead cutText).drop 1) _ (by decide) htables
    (List.cons_ne_nil _ _)

end Program

end RandomTables
