import Mathlib.Data.List.TakeWhile
import RandomTables.Proofs.Program.Completion
import RandomTables.Proofs.Program.Derivation
import RandomTables.Proofs.Program.Failure

namespace RandomTables

section Faults
variable {tokens : List Token} {m : Misparse}

/-- A fault at a token is a fault of the grammar. -/
theorem isOfGrammar_of_fitsIn (h : m.FitsIn tokens) : m.IsOfGrammar := by
  cases m with
  | badPayload | badSpan => exact h
  | _ => trivial

/-- An error names the token at fault, unless that is the end of input. -/
theorem kind_of_isOfGrammar (table : LineTable) (last : Token) (h : m.IsOfGrammar)
    (hlast : last.kind = .endOfInput) (hremaining : ∀ t ∈ m.remaining, t.kind ≠ .endOfInput) :
    ∃ e expected, m.failure table last = .reported e ∧
      e.kind = if (m.remaining.headD last).kind = .endOfInput then .unexpectedEnd expected
        else .unexpectedToken expected (m.remaining.headD last).describe := by
  cases m with
  | unexpected expected remaining =>
    refine ⟨_, expected.describe, rfl, ?_⟩
    cases remaining with
    | nil => exact (if_pos hlast).symm
    | cons t remaining => exact (if_neg (hremaining t List.mem_cons_self)).symm
  | unknownFlag bracket flag remaining =>
    exact ⟨_, _, rfl, (if_neg (hremaining flag List.mem_cons_self)).symm⟩
  | noTables => exact ⟨_, _, rfl, (if_pos hlast).symm⟩
  | badPayload | badSpan => exact absurd h id

end Faults

/-- Part of a stream from its beginning is carried on to another by tokens that take up no place. -/
theorem isTokenStream_standIns (taken rest : List Token) (kinds : List TokenKind)
    (h : IsTokenStream (taken ++ rest)) :
    IsTokenStream
      (taken ++ (kinds ++ [TokenKind.endOfInput]).map (.standIn (stopAfter 0 taken))) := by
  constructor
  · exact ⟨.standIn (stopAfter 0 taken) .endOfInput, by simp, rfl⟩
  · intro t ht hkind
    rcases List.mem_append.mp ht with ht | ht
    · exact h.weights t (List.mem_append_left rest ht) hkind
    · obtain ⟨kind, -, rfl⟩ := List.mem_map.mp ht
      obtain rfl : kind = .number := hkind
      exact ⟨1, rfl⟩
  · intro t ht hkind
    rcases List.mem_append.mp ht with ht | ht
    · exact h.dice t (List.mem_append_left rest ht) hkind
    · obtain ⟨kind, -, rfl⟩ := List.mem_map.mp ht
      obtain rfl : kind = .diceRoll := hkind
      exact ⟨⟨none, 1⟩, rfl⟩
  · refine List.isChain_append.mpr ⟨h.inOrder.left_of_append, ?_, ?_⟩
    · apply List.Pairwise.isChain
      rw [List.pairwise_map]
      exact List.pairwise_of_forall fun _ _ => Nat.le_refl _
    · -- The tokens after the part begin where its last token ends.
      intro t ht u hu
      obtain ⟨kind, -, rfl⟩ := List.mem_map.mp (List.mem_of_mem_head? hu)
      have hstop : stopAfter 0 taken = t.span.stop := by
        rw [stopAfter, Option.mem_def.mp ht]
        rfl
      exact Nat.le_of_eq hstop.symm

namespace Program

/-- The index of the token at which the tokens fail to make a program, as many as come before it. -/
def failureIndex (tokens : List Token) : Option Nat :=
  match readProgram (ahead tokens) with
  | .ok _ => none
  | .error m => some ((ahead tokens).length - m.remaining.length)

theorem kind_ne_of_mem_ahead (tokens : List Token) :
    ∀ t ∈ ahead tokens, t.kind ≠ .endOfInput := by
  intro t ht
  simpa using List.mem_takeWhile_imp ht

/-- Stand-ins without a place keep the tokens in order. -/
theorem ofTokens_standIns (source : List Char) (taken rest : List Token) (kinds : List TokenKind)
    (p : Program) (h : IsTokenStream (taken ++ rest))
    (htaken : ∀ t ∈ taken, t.kind ≠ .endOfInput) (hkinds : .endOfInput ∉ kinds)
    (hp : Grammar.IsProgram (taken ++ kinds.map (.standIn (stopAfter 0 taken))) p) :
    ofTokens source
      (taken ++ (kinds ++ [TokenKind.endOfInput]).map (.standIn (stopAfter 0 taken))) = .ok p := by
  have hmore : ∀ t ∈ kinds.map (Token.standIn (stopAfter 0 taken)), t.kind ≠ .endOfInput := by
    intro t ht hend
    obtain ⟨kind, hkind, rfl⟩ := List.mem_map.mp ht
    obtain rfl : kind = .endOfInput := hend
    exact hkinds hkind
  rw [ofTokens_eq_ok_iff_isProgram _ _ _ (isTokenStream_standIns taken rest kinds h),
    ahead_append taken _ htaken, List.map_append, ahead_append _ _ hmore]
  simpa [ahead, Token.standIn] using hp

theorem readProgram_of_ofTokens {source : List Char} {tokens : List Token} {p : Program}
    (h : ofTokens source tokens = .ok p) : readProgram (ahead tokens) = .ok p := by
  unfold ofTokens at h
  split at h
  · cases h
  · split at h
    · exact (Grammar.mapError_eq_ok_iff _ _ _).mp h
    · cases h

/-- Of a list that begins with the token at fault or the end of input, the readers see as much. -/
theorem head_ahead (remaining more : List Token) (ending : Token)
    (hending : ending.kind = .endOfInput) (hremaining : ∀ t ∈ remaining, t.kind ≠ .endOfInput) :
    (ahead (remaining.headD ending :: more)).head? = remaining.head? := by
  cases remaining with
  | nil => simp [ahead, hending]
  | cons t remaining =>
    have ht := hremaining t List.mem_cons_self
    simp [ahead, ht]

theorem exists_eq_headD_cons (remaining after : List Token) (ending : Token) :
    ∃ rest, remaining ++ ending :: after = remaining.headD ending :: rest := by
  cases remaining with
  | nil => exact ⟨after, rfl⟩
  | cons t remaining => exact ⟨remaining ++ ending :: after, rfl⟩

/-- A fault is found at the earliest token. The tokens before it can be carried on to a stream that
makes a program, and those up to it cannot, whatever comes after them. The error is one of input
that ends too early exactly if the token at fault is the end of input, and else names that token. -/
theorem ofTokens_error_earliest {source : List Char} {tokens : List Token}
    {failure : ParseFailure} (h : IsTokenStream tokens)
    (hfail : ofTokens source tokens = .error failure) :
    ∃ k t e expected, failureIndex tokens = some k ∧ tokens[k]? = some t ∧
      failure = .reported e ∧
      (e.kind = if t.kind = .endOfInput then .unexpectedEnd expected
        else .unexpectedToken expected t.describe) ∧
      (∃ more p, IsTokenStream (tokens.take k ++ more) ∧
        ofTokens source (tokens.take k ++ more) = .ok p) ∧
      ∀ more p, ofTokens source (tokens.take (k + 1) ++ more) ≠ .ok p := by
  obtain ⟨m, ending, after, hread, htokens, hending, rfl⟩ := exists_misparse_of_error h.ends hfail
  have hsound := sound_ahead tokens h
  have hgrammar := isOfGrammar_of_fitsIn (Grammar.readProgram_failsIn _ hsound m hread)
  obtain ⟨taken, htaken, hothers⟩ := Grammar.readProgram_failsByOne _ m hread
  obtain ⟨taken', htaken', kinds, hkinds, p, hp⟩ :=
    @Grammar.readProgram_failsOpen (stopAfter 0 taken) _ hsound m hread hgrammar
  obtain rfl : taken = taken' := List.append_cancel_right (htaken.symm.trans htaken')
  have hindex : failureIndex tokens = some taken.length := by
    rw [failureIndex, hread, htaken]
    simp
  have hnoEnd := kind_ne_of_mem_ahead tokens
  rw [htaken] at hnoEnd
  have hbefore : ∀ t ∈ taken, t.kind ≠ .endOfInput :=
    fun t ht => hnoEnd t (List.mem_append_left _ ht)
  have hremaining : ∀ t ∈ m.remaining, t.kind ≠ .endOfInput :=
    fun t ht => hnoEnd t (List.mem_append_right taken ht)
  obtain ⟨e, expected, he, hkind⟩ :=
    kind_of_isOfGrammar (.ofSource source) ending hgrammar hending hremaining
  -- The token at fault comes right after those that were taken.
  obtain ⟨rest, hrest⟩ := exists_eq_headD_cons m.remaining after ending
  rw [htaken, List.append_assoc, hrest] at htokens
  have htake : tokens.take taken.length = taken := by rw [htokens, List.take_left]
  have htake' : tokens.take (taken.length + 1) = taken ++ [m.remaining.headD ending] := by
    rw [htokens, List.take_length_add_append]
    rfl
  refine ⟨taken.length, _, e, expected, hindex, ?_, he, hkind, ?_, ?_⟩
  · rw [htokens]
    simp
  · rw [htake]
    rw [htokens] at h
    exact ⟨_, p, isTokenStream_standIns taken _ kinds h,
      ofTokens_standIns source taken _ kinds p h hbefore hkinds hp⟩
  · intro more p' hp'
    have hread' := readProgram_of_ofTokens hp'
    rw [htake', List.append_assoc, ahead_append taken _ hbefore] at hread'
    obtain ⟨m', hm'⟩ := hothers _ (head_ahead m.remaining more ending hending hremaining)
    rw [List.singleton_append, hm'] at hread'
    cases hread'

def unknownFlag : List Token :=
  tokensFrom 0 [.token .hash ['#'], .token .identifier ['t'], .token .leftBracket ['['],
    .token .identifier ['x'], .token .rightBracket [']']] ++ [.endAt 5]

/-- The word behind the bracket is the fourth token, and the flag would do in its place. -/
theorem ofTokens_error_earliest_unknownFlag : IsTokenStream unknownFlag ∧
    failureIndex unknownFlag = some 3 ∧
    (∃ e, ofTokens [] unknownFlag = .error (.reported e) ∧
      e.kind = .unexpectedToken "'export'" "'x'") ∧
    (∃ more p, IsTokenStream (unknownFlag.take 3 ++ more) ∧
      ofTokens [] (unknownFlag.take 3 ++ more) = .ok p) ∧
    ∀ more p, ofTokens [] (unknownFlag.take 4 ++ more) ≠ .ok p := by
  have hstream : IsTokenStream unknownFlag := by
    constructor
    · exact ⟨_, rfl, rfl⟩
    · simp [unknownFlag, tokensFrom, Piece.tokenAt, Piece.token, Token.endAt]
    · simp [unknownFlag, tokensFrom, Piece.tokenAt, Piece.token, Token.endAt]
    · decide
  obtain ⟨bracket, flag, hread, hflag⟩ : ∃ bracket flag, readProgram (ahead unknownFlag) =
      .error (.unknownFlag bracket flag ((ahead unknownFlag).drop 3)) ∧ flag.describe = "'x'" := by
    refine ⟨_, _, congrArg (· >>= _) (Grammar.readTables_hash _ _ rfl), ?_⟩
    decide
  have hindex : failureIndex unknownFlag = some 3 := by
    rw [failureIndex, hread]
    rfl
  have hread' : ofTokens [] unknownFlag = (readProgram (ahead unknownFlag)).mapError
      (·.failure (.ofSource []) (.endAt 5)) := rfl
  rw [hread] at hread'
  obtain ⟨k, t, e, expected, hk, -, he, -, hmore, hnone⟩ := ofTokens_error_earliest hstream hread'
  rw [hindex] at hk
  cases hk
  cases he
  exact ⟨hstream, hindex, ⟨_, hread', by rw [hflag]⟩, hmore, hnone⟩

end Program

end RandomTables
