import RandomTables.Proofs.Program.Derivation
import RandomTables.Proofs.Token.Shape

namespace RandomTables

/-- Tokens of the scanner carry their values and are in order. -/
theorem sound_of_reads {pieces : List Piece} {mode : Mode} {last : Option TokenKind}
    (h : Reads [] .declaration none pieces mode last) : Grammar.Sound (tokensFrom 0 pieces) := by
  have hshape := shape_of_reads h 0
  refine ⟨fun t ht => (hshape t ht).number, ?_, inOrder_tokensFrom 0 pieces⟩
  intro t ht hkind
  obtain ⟨d, hd, -⟩ := (hshape t ht).dice hkind
  exact ⟨d, hd⟩

namespace Program

/-- No token of the scanner before the last is an end of input. -/
theorem ahead_tokensFrom {pieces : List Piece} {mode : Mode} {last : Option TokenKind}
    (h : Reads [] .declaration none pieces mode last) (stop : Nat) :
    ahead (tokensFrom 0 pieces ++ [.endAt stop]) = tokensFrom 0 pieces := by
  -- The scanner puts the end of input nowhere but at the end.
  rw [ahead_append _ _ (kind_ne_end_of_reads h 0)]
  simp [ahead, Token.endAt]

/-- What tokens of the scanner make is what the grammar derives from them. -/
theorem ofTokens_of_reads {pieces : List Piece} {mode : Mode} {last : Option TokenKind}
    (h : Reads [] .declaration none pieces mode last) (source : List Char) (stop : Nat)
    (p : Program) :
    ofTokens source (tokensFrom 0 pieces ++ [.endAt stop]) = .ok p ↔
      Grammar.IsProgram (tokensFrom 0 pieces) p := by
  have hend : ∃ t, (tokensFrom 0 pieces ++ [Token.endAt stop]).getLast? = some t ∧
      t.kind = .endOfInput := ⟨_, List.getLast?_concat, rfl⟩
  rw [ofTokens_eq_ok_iff_readProgram source _ p hend, ahead_tokensFrom h]
  exact Grammar.readProgram_eq_ok_iff _ p (sound_of_reads h)

theorem parse_of_reads {pieces : List Piece} {mode : Mode} {last : Option TokenKind}
    (h : Reads [] .declaration none pieces mode last) (source : String)
    (htext : textOf pieces = source.toList) (p : Program) :
    parse source = .ok p ↔ Grammar.IsProgram (tokensFrom 0 pieces) p := by
  have hs := (scan_eq_ok_iff source.toList ⟨_, mode⟩).mpr ⟨pieces, last, htext, h, rfl⟩
  rw [parse, hs]
  exact ofTokens_of_reads h _ _ p

/-- A source has a program if its pieces have tokens with a derivation. -/
theorem parse_eq_ok_iff (source : String) (p : Program) :
    parse source = .ok p ↔ ∃ pieces mode last, textOf pieces = source.toList ∧
      Reads [] .declaration none pieces mode last ∧ Grammar.IsProgram (tokensFrom 0 pieces) p := by
  constructor
  · intro h
    have hscan := h
    rw [parse] at hscan
    split at hscan
    · cases hscan
    · rename_i s hs
      obtain ⟨pieces, last, htext, hreads, -⟩ := (scan_eq_ok_iff _ s).mp hs
      exact ⟨pieces, s.mode, last, htext, hreads, (parse_of_reads hreads source htext p).mp h⟩
  · intro h
    obtain ⟨pieces, mode, last, htext, hreads, hp⟩ := h
    exact (parse_of_reads hreads source htext p).mpr hp

end Program

end RandomTables
