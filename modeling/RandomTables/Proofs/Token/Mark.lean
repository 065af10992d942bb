import RandomTables.Proofs.Token.Part

namespace RandomTables

def TokenKind.character? : TokenKind → Option Char
  | hash => some '#'
  | colon => some ':'
  | leftBracket => some '['
  | rightBracket => some ']'
  | comma => some ','
  | leftBrace => some '\x7b'
  | rightBrace => some '\x7d'
  | pipe => some '|'
  | atSign => some '@'
  | slash => some '/'
  | _ => none

theorem character_of_mark {c : Char} {kind : TokenKind} (h : declarationMark? c = some kind) :
    kind.character? = some c := by
  rcases mark_cases c kind h with rfl | rfl | rfl | rfl <;> cases h <;> rfl

theorem character_of_sign {c : Char} {kind : TokenKind} (h : expressionMark? c = some kind) :
    kind.character? = some c := by
  rcases sign_cases c kind h with rfl | rfl | rfl | rfl <;> cases h <;> rfl

/-- A token of such a kind is its character. -/
theorem text_of_character {mode next : Mode} {last : Option TokenKind} {piece : Piece}
    {rest : List Char} {kind : TokenKind} {c : Char} (h : Lexes mode last piece next rest)
    (hkind : piece.kind = some kind) (hc : kind.character? = some c) : piece.text = [c] := by
  have hword (word : List Char) : (declaredKind word).character? = none := by
    rw [declaredKind]
    split <;> rfl
  have hname (last : Option TokenKind) (name : List Char) :
      (namedKind last name).character? = none := by
    rw [namedKind]
    split <;> rfl
  cases h with
  | mark hmark =>
    cases hkind
    rw [character_of_mark hmark] at hc
    cases hc
    rfl
  | sign hmark =>
    cases hkind
    rw [character_of_sign hmark] at hc
    cases hc
    rfl
  | word =>
    cases hkind
    cases (hword _).symm.trans hc
  | name =>
    cases hkind
    cases (hname _ _).symm.trans hc
  | colon | openBrace | closeBrace =>
    cases hkind
    cases hc
    rfl
  | lineComment | blockComment | blanks | spaces => cases hkind
  | lineFeed | returnFeed | number | dice | text =>
    cases hkind
    cases hc

/-- A token of punctuation stands where its character is. -/
theorem getElem_of_character {pieces : List Piece} {mode : Mode} {last : Option TokenKind}
    (h : Reads [] .declaration none pieces mode last) {t : Token} {c : Char}
    (ht : t ∈ tokensFrom 0 pieces) (hc : t.kind.character? = some c) :
    (textOf pieces)[t.span.start]? = some c := by
  obtain ⟨front, piece, back, _, _, _, rfl, hpiece, hstart, hlexes⟩ := exists_lexes_of_token h ht
  rw [hstart]
  exact getElem_of_text (text_of_character hlexes (tokenAt_kind hpiece) hc)

end RandomTables
