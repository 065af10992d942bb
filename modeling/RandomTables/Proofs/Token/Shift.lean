import RandomTables.Program
import RandomTables.Proofs.Token.Extent
import RandomTables.Proofs.Token.Reading

namespace RandomTables

def Span.shift (n : Nat) (s : Span) : Span where
  start := s.start + n
  stop := s.stop + n
  start_le_stop := Nat.add_le_add_right s.start_le_stop n

def Token.shift (n : Nat) (t : Token) : Token :=
  { t with span := t.span.shift n }

def Located.shift {α : Type} (n : Nat) (l : Located α) : Located α :=
  ⟨l.value, l.span.shift n⟩

def shiftTable (n : Nat) (table : Located Table) : Located Table :=
  ⟨{ table.value with rules := table.value.rules.map (Located.shift n) }, table.span.shift n⟩

theorem cover_shift (n : Nat) (s t : Span) :
    (s.shift n).cover (t.shift n) = (s.cover t).shift n := by
  have hstart : min (s.start + n) (t.start + n) = min s.start t.start + n := by omega
  have hstop : max (s.stop + n) (t.stop + n) = max s.stop t.stop + n := by omega
  simp only [Span.cover, Span.shift, hstart, hstop]

theorem extent_shift (n : Nat) (t : Token) (tokens : List Token) :
    extent ((t :: tokens).map (Token.shift n)) = (extent (t :: tokens)).shift n := by
  have hlast : (tokens.map (Token.shift n)).getLastD (t.shift n) =
      (tokens.getLastD t).shift n := by
    rw [List.getLastD_eq_getLast?, List.getLastD_eq_getLast?, List.getLast?_map, Option.getD_map]
  rw [List.map_cons, extent, extent, hlast]
  exact cover_shift n t.span _

/-- The same pieces make the same tokens at any offset. -/
theorem tokensFrom_add (offset n : Nat) (pieces : List Piece) :
    tokensFrom (offset + n) pieces = (tokensFrom offset pieces).map (Token.shift n) := by
  induction pieces generalizing offset with
  | nil => rfl
  | cons piece pieces ih =>
    have hnext : offset + n + piece.text.length = offset + piece.text.length + n := by omega
    rw [tokensFrom, tokensFrom, List.map_append, hnext, ih]
    congr 1
    -- A blank or comment has no token at either place.
    cases hkind : piece.kind with
    | none => simp [Piece.tokenAt, hkind]
    | some kind => simp [Piece.tokenAt, hkind, Token.shift, Span.shift, hnext]

end RandomTables
