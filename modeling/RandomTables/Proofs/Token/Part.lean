import RandomTables.Proofs.Token.Shape

namespace RandomTables

section Places
variable {piece : Piece} {offset : Nat} {t : Token}

theorem tokenAt_start (h : piece.tokenAt offset = some t) : t.span.start = offset := by
  obtain ⟨kind, -, rfl⟩ := Option.map_eq_some_iff.mp h
  rfl

/-- A token is as long as its piece. -/
theorem tokenAt_stop (h : piece.tokenAt offset = some t) :
    t.span.stop = offset + piece.text.length := by
  obtain ⟨kind, -, rfl⟩ := Option.map_eq_some_iff.mp h
  rfl

theorem tokenAt_kind (h : piece.tokenAt offset = some t) : piece.kind = some t.kind := by
  obtain ⟨kind, hkind, rfl⟩ := Option.map_eq_some_iff.mp h
  exact hkind

theorem tokenAt_value (h : piece.tokenAt offset = some t) : t.value = piece.value := by
  obtain ⟨kind, -, rfl⟩ := Option.map_eq_some_iff.mp h
  rfl

end Places

section Parts
variable {before after : List Token} {t : Token}

/-- Each token is that of one piece, and the tokens on either side are those of the pieces there. -/
theorem exists_piece_of_token (offset : Nat) (pieces : List Piece)
    (h : tokensFrom offset pieces = before ++ t :: after) :
    ∃ front piece back, pieces = front ++ piece :: back ∧ tokensFrom offset front = before ∧
      piece.tokenAt (offset + (textOf front).length) = some t ∧
      tokensFrom (offset + (textOf front).length + piece.text.length) back = after := by
  induction pieces generalizing offset before with
  | nil => simp [tokensFrom] at h
  | cons piece pieces ih =>
    have hlater : ∀ before', tokensFrom (offset + piece.text.length) pieces =
        before' ++ t :: after → before = (piece.tokenAt offset).toList ++ before' →
        ∃ front piece' back, piece :: pieces = front ++ piece' :: back ∧
          tokensFrom offset front = before ∧
          piece'.tokenAt (offset + (textOf front).length) = some t ∧
          tokensFrom (offset + (textOf front).length + piece'.text.length) back = after := by
      rintro before' htail rfl
      obtain ⟨front, piece', back, rfl, hfront, hpiece, hback⟩ := ih _ htail
      have hlength := length_textOf_cons offset piece front
      refine ⟨piece :: front, piece', back, rfl, ?_, ?_, ?_⟩
      · rw [tokensFrom, hfront]
      · rwa [hlength]
      · rwa [hlength]
    rw [tokensFrom] at h
    -- A blank or comment comes before the token, and so do the tokens before it.
    cases htoken : piece.tokenAt offset with
    | none =>
      rw [htoken] at h hlater
      exact hlater before h rfl
    | some u =>
      rw [htoken] at h hlater
      cases before with
      | nil =>
        obtain ⟨rfl, hback⟩ := List.cons_eq_cons.mp h
        exact ⟨[], piece, pieces, rfl, rfl, htoken, hback⟩
      | cons v before =>
        obtain ⟨rfl, htail⟩ := List.cons_eq_cons.mp h
        exact hlater before htail rfl

/-- A row of tokens is that of a row of pieces that begins and ends with them. -/
theorem exists_part (pieces : List Piece) (kept : List Token)
    (h : tokensFrom 0 pieces = before ++ (t :: kept) ++ after) :
    ∃ front part back, pieces = front ++ part ++ back ∧ tokensFrom 0 front = before ∧
      tokensFrom (textOf front).length part = t :: kept ∧
      t.span.start = (textOf front).length ∧
      stopAfter t.span.stop kept = (textOf front).length + (textOf part).length ∧
      part.head?.bind Piece.kind = some t.kind := by
  rw [List.append_assoc, List.cons_append] at h
  obtain ⟨front, piece, rest, rfl, hfront, hpiece, hrest⟩ := exists_piece_of_token 0 pieces h
  rw [Nat.zero_add] at hpiece hrest
  have htoken : (piece.tokenAt (textOf front).length).toList = [t] := by rw [hpiece]; rfl
  rcases kept.eq_nil_or_concat with rfl | ⟨kept, u, rfl⟩
  · refine ⟨front, [piece], rest, by simp, hfront, ?_, tokenAt_start hpiece, ?_, ?_⟩
    · rw [tokensFrom, htoken, tokensFrom]
      rfl
    · rw [stopAfter_nil, tokenAt_stop hpiece, textOf_singleton]
    · exact tokenAt_kind hpiece
  · rw [List.concat_eq_append, List.append_assoc, List.singleton_append] at hrest
    obtain ⟨middle, piece', back, rfl, hmiddle, hpiece', -⟩ := exists_piece_of_token _ rest hrest
    refine ⟨front, piece :: (middle ++ [piece']), back, by simp, hfront, ?_,
      tokenAt_start hpiece, ?_, ?_⟩
    · rw [tokensFrom, htoken, tokensFrom_append, hmiddle, tokensFrom, hpiece', tokensFrom]
      simp
    · rw [List.concat_eq_append, stopAfter_append, stopAfter_cons, stopAfter_nil,
        tokenAt_stop hpiece']
      simp only [textOf_cons, textOf_append, textOf_nil, List.length_append, List.length_nil]
      omega
    · exact tokenAt_kind hpiece

end Parts

/-- Each token of a run is that of a piece, which was taken where the token begins. -/
theorem exists_lexes_of_token {pieces : List Piece} {mode mode' : Mode}
    {last last' : Option TokenKind} (h : Reads [] mode last pieces mode' last') {t : Token}
    (ht : t ∈ tokensFrom 0 pieces) :
    ∃ front piece back before earlier next, pieces = front ++ piece :: back ∧
      piece.tokenAt t.span.start = some t ∧ t.span.start = (textOf front).length ∧
      Lexes before earlier piece next (textOf back) := by
  obtain ⟨tokens, tokens', htokens⟩ := List.append_of_mem ht
  obtain ⟨front, piece, back, rfl, -, hpiece, -⟩ := exists_piece_of_token 0 pieces htokens
  rw [Nat.zero_add] at hpiece
  have hstart := tokenAt_start hpiece
  obtain ⟨before, earlier, -, hrest⟩ := reads_append_iff.mp h
  cases hrest with
  | @cons _ _ _ _ next _ _ htakes _ =>
    rw [List.append_nil] at htakes
    exact ⟨front, piece, back, before, earlier, next, rfl, hstart ▸ hpiece, hstart,
      takes_iff_lexes.mp htakes⟩

/-- No piece is empty. -/
theorem start_lt_stop_of_reads {pieces : List Piece} {mode mode' : Mode}
    {last last' : Option TokenKind} (h : Reads [] mode last pieces mode' last') {t : Token}
    (ht : t ∈ tokensFrom 0 pieces) : t.span.start < t.span.stop := by
  obtain ⟨front, piece, back, _, _, _, -, hpiece, -, hlexes⟩ := exists_lexes_of_token h ht
  have htext : 0 < piece.text.length :=
    List.length_pos_iff.mpr (text_ne_nil_of_takes (takes_iff_lexes.mpr hlexes))
  have hstop := tokenAt_stop hpiece
  omega

theorem getElem_of_text {front back : List Piece} {piece : Piece} {c : Char} {tail : List Char}
    (htext : piece.text = c :: tail) :
    (textOf (front ++ piece :: back))[(textOf front).length]? = some c := by
  simp [htext]

def insideBraces : TokenKind → Bool
  | .leftBrace | .hash | .atSign | .slash | .pipe | .identifier | .modifier | .diceRoll => true
  | _ => false

section Modes
variable {after rest : List Char} {mode mode' next : Mode} {last last' : Option TokenKind}
variable {piece : Piece} {pieces : List Piece}

/-- The last token tells what kind of token came last. -/
theorem last_of_reads (h : Reads after mode last pieces mode' last') (offset : Nat) :
    last' = ((tokensFrom offset pieces).getLast?.map (·.kind)).or last := by
  induction h generalizing offset with
  | nil => rfl
  | @cons mode last piece pieces next mode' last' _ _ ih =>
    rw [tokensFrom, ih (offset + piece.text.length), List.getLast?_append]
    cases hkind : piece.kind with
    | none => simp [Piece.tokenAt, hkind]
    | some kind =>
      cases (tokensFrom (offset + piece.text.length) pieces).getLast? <;>
        simp [Piece.tokenAt, hkind]

/-- Within braces the last token is one of an expression, or the opening brace. -/
theorem insideBraces_of_lexes (h : Lexes mode last piece next rest)
    (hlast : mode = .expression → last.any insideBraces = true) (hnext : next = .expression) :
    (piece.kind.or last).any insideBraces = true := by
  cases h with
  | lineComment => exact hlast hnext
  | @blockComment _ _ body =>
    -- A comment with a line feed in it would have ended the expression.
    apply hlast
    rw [modeAfter] at hnext
    split at hnext
    · cases hnext
    · exact hnext
  | openBrace => rfl
  | spaces => exact hlast rfl
  | @sign _ c kind _ hmark =>
    rcases sign_cases c kind hmark with rfl | rfl | rfl | rfl <;> (cases hmark; rfl)
  | dice => rfl
  | @name _ c tail =>
    change (some (namedKind last (c :: tail))).any insideBraces = true
    rw [namedKind]
    split <;> rfl
  | _ => cases hnext

/-- In the middle of an expression the token before is one of its own. -/
theorem insideBraces_of_reads (h : Reads after mode last pieces mode' last')
    (hlast : mode = .expression → last.any insideBraces = true) (hmode : mode' = .expression) :
    last'.any insideBraces = true := by
  induction h with
  | nil => exact hlast hmode
  | cons htakes _ ih => exact ih (insideBraces_of_lexes (takes_iff_lexes.mp htakes) hlast) hmode

/-- A hash after a token that is not inside braces begins a table. -/
theorem mode_of_hash (h : Reads after .declaration none pieces mode' last')
    (hpiece : Takes mode' last' piece next rest) (hkind : piece.kind = some .hash)
    (hlast : last'.any insideBraces = false) : mode' = .declaration := by
  have hmode : mode' ≠ .expression := by
    intro hmode
    have := insideBraces_of_reads h nofun hmode
    rw [hlast] at this
    cases this
  cases takes_iff_lexes.mp hpiece with
  | mark | word => rfl
  | sign | name => exact absurd rfl hmode
  | _ => cases hkind

end Modes

end RandomTables
