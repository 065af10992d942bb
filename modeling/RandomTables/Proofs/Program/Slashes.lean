import RandomTables.Proofs.Decimal.Numeral
import RandomTables.Proofs.Program.Parse
import RandomTables.Proofs.Program.Trimming
import RandomTables.Proofs.Token.LineEnd

namespace RandomTables

def slashes (tokens : List Token) : Nat :=
  (tokens.flatMap fun t => t.lexeme.toList).count '/'

@[simp] theorem slashes_cons (t : Token) (tokens : List Token) :
    slashes (t :: tokens) = t.lexeme.toList.count '/' + slashes tokens := by
  simp [slashes]

@[simp] theorem slashes_append (tokens more : List Token) :
    slashes (tokens ++ more) = slashes tokens + slashes more := by
  simp [slashes]

theorem slashes_le_of_infix {part tokens : List Token} (h : part <:+: tokens) :
    slashes part ≤ slashes tokens := by
  obtain ⟨before, after, rfl⟩ := h
  rw [slashes_append, slashes_append]
  omega

/-- Tokens have no slashes that their source has not. -/
theorem slashes_tokensFrom_le (offset : Nat) (pieces : List Piece) :
    slashes (tokensFrom offset pieces) ≤ (textOf pieces).count '/' := by
  induction pieces generalizing offset with
  | nil => exact Nat.le_refl 0
  | cons piece pieces ih =>
    have htail := ih (offset + piece.text.length)
    have hpiece : slashes (piece.tokenAt offset).toList ≤ piece.text.count '/' := by
      rw [Piece.tokenAt]
      cases piece.kind with
      | none => exact Nat.zero_le _
      | some kind => simp [slashes]
    rw [tokensFrom, slashes_append, textOf_cons, List.count_append]
    exact Nat.add_le_add hpiece htail

/-- A slash token is one slash. -/
theorem text_of_slash {mode next : Mode} {last : Option TokenKind} {piece : Piece}
    {rest : List Char} (h : Lexes mode last piece next rest) (hkind : piece.kind = some .slash) :
    piece.text = ['/'] := by
  cases h with
  | mark hmark =>
    cases hkind
    exact absurd (kind_of_mark hmark) (by decide)
  | sign hmark =>
    cases hkind
    rcases sign_cases _ _ hmark with rfl | rfl | rfl | rfl <;> cases hmark
    rfl
  | word => exact absurd (Option.some.inj hkind) (declaredKind_ne _ (by decide))
  | name => exact absurd (Option.some.inj hkind) (namedKind_ne _ _ (by decide))
  | _ => cases hkind

theorem lexeme_of_slash {after : List Char} {mode mode' : Mode} {last last' : Option TokenKind}
    {pieces : List Piece} (h : Reads after mode last pieces mode' last') (offset : Nat) :
    ∀ t ∈ tokensFrom offset pieces, t.kind = .slash → t.lexeme = "/" := by
  induction h generalizing offset with
  | nil => exact nofun
  | @cons mode last piece pieces next mode' last' htakes _ ih =>
    intro t ht hslash
    rw [tokensFrom, List.mem_append, Option.mem_toList] at ht
    rcases ht with ht | ht
    · obtain ⟨kind, hkind, rfl⟩ := Option.map_eq_some_iff.mp ht
      obtain rfl : kind = .slash := hslash
      exact congrArg String.ofList (text_of_slash (takes_iff_lexes.mp htakes) hkind)
    · exact ih _ t ht hslash

namespace Grammar
variable {tokens : List Token}

theorem slash_not_mem_toString (n : Int) : '/' ∉ (toString n).toList := by
  intro hmem
  rcases Decimal.digit_or_minus_of_mem_toString n _ hmem with h | h <;> exact absurd h (by decide)

theorem count_print_dice (d : Dice) : d.print.toList.count '/' = 0 := by
  rw [List.count_eq_zero, Dice.print, String.toList_append, String.toList_append]
  simp only [List.mem_append, not_or]
  refine ⟨⟨?_, by decide⟩, slash_not_mem_toString _⟩
  split
  · exact slash_not_mem_toString _
  · exact nofun

theorem count_modifiers_le {modifiers : List String} (h : Modifiers tokens modifiers) :
    (modifierText modifiers).toList.count '/' ≤ slashes tokens := by
  induction h with
  | nil => exact Nat.le_refl 0
  | @cons bar word tokens modifiers _ _ _ ih =>
    have htext : modifierText (word.lexeme :: modifiers) =
        "|" ++ word.lexeme ++ modifierText modifiers := by
      simp [modifierText]
    have hbar : "|".toList.count '/' = 0 := rfl
    rw [htext, String.toList_append, String.toList_append, List.count_append, List.count_append,
      slashes_cons, slashes_cons]
    omega

/-- An expression is written with the slashes of its tokens and no others. -/
theorem count_braced_le {item : Item} (h : Braced tokens item)
    (hslash : ∀ t ∈ tokens, t.kind = .slash → t.lexeme = "/") :
    item.print.toList.count '/' ≤ slashes tokens := by
  have hbraced (s : String) : (Item.braced s).toList.count '/' = s.toList.count '/' := by
    rw [toList_braced]
    simp
  have hhash : "#".toList.count '/' = 0 := rfl
  cases h with
  | table _ _ hmodifiers =>
    have htail := count_modifiers_le hmodifiers
    rw [Item.print, hbraced]
    simp only [String.toList_append, List.count_append, slashes_cons, hhash]
    omega
  | @external mark publisher slash _ _ _ _ _ _ _ hkind _ _ _ hmodifiers =>
    have htail := count_modifiers_le hmodifiers
    -- The slash between the names is that of the token there.
    have hone : slash.lexeme.toList.count '/' = 1 := by
      rw [hslash slash (by simp) hkind]
      rfl
    have hmark : "@".toList.count '/' = 0 := rfl
    have hbetween : "/".toList.count '/' = 1 := rfl
    rw [Item.print, hbraced, qualifiedName]
    simp only [String.toList_append, List.count_append, slashes_cons, hone, hmark, hbetween, hhash]
    omega
  | dice =>
    rw [Item.print, hbraced, count_print_dice]
    exact Nat.zero_le _

/-- Every slash in the source form of some content was read in one of its tokens. -/
theorem count_printed_le {items : List Item} (h : Content tokens items)
    (hslash : ∀ t ∈ tokens, t.kind = .slash → t.lexeme = "/") :
    (printed items).count '/' ≤ slashes tokens := by
  induction h with
  | nil => exact Nat.le_refl 0
  | @texts run tokens items _ _ _ _ ih =>
    have htail := ih fun t ht => hslash t (List.mem_append_right _ ht)
    rw [printed_cons, Item.print, String.toList_join, List.flatMap_map, List.count_append,
      slashes_append]
    exact Nat.add_le_add_left htail _
  | @expression opening inner closing tokens item items _ hinner _ _ ih =>
    have hfirst := count_braced_le hinner fun t ht => hslash t (by simp [ht])
    have htail := ih fun t ht => hslash t (by simp [ht])
    rw [printed_cons, List.count_append, slashes_cons, slashes_append, slashes_cons]
    omega

end Grammar

end RandomTables
