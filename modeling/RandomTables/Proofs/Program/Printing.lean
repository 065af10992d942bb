import RandomTables.Proofs.Decimal.Numeral
import RandomTables.Proofs.Program.Content

namespace RandomTables
open Text (Stops)

def modifierPieces (modifiers : List String) : List Piece :=
  modifiers.flatMap fun m => [.token .pipe ['|'], .token .modifier m.toList]

def bracedPieces (inner : List Piece) : List Piece :=
  .token .leftBrace ['\x7b'] :: (inner ++ [.token .rightBrace ['\x7d']])

def tablePieces (id : String) (modifiers : List String) : List Piece :=
  .token .hash ['#'] :: .token .identifier id.toList :: modifierPieces modifiers

def externalPieces (publisher collection : String) : List Piece :=
  [.token .atSign ['@'], .token .identifier publisher.toList, .token .slash ['/'],
    .token .identifier collection.toList]

def Item.pieces : Item → List Piece
  | .text s => [.token .text s.toList]
  | .table id modifiers => bracedPieces (tablePieces id modifiers)
  | .external publisher collection id modifiers =>
    bracedPieces (externalPieces publisher collection ++ tablePieces id modifiers)
  | .dice d => bracedPieces [⟨some .diceRoll, some (.dice d), d.print.toList⟩]

theorem textOf_bracedPieces (inner : List Piece) :
    textOf (bracedPieces inner) = '\x7b' :: (textOf inner ++ ['\x7d']) := by
  simp [bracedPieces, Piece.token]

theorem textOf_modifierPieces (modifiers : List String) :
    textOf (modifierPieces modifiers) = (modifierText modifiers).toList := by
  induction modifiers with
  | nil => rfl
  | cons m modifiers ih =>
    have hcons : modifierPieces (m :: modifiers) =
        .token .pipe ['|'] :: .token .modifier m.toList :: modifierPieces modifiers := rfl
    have htext : modifierText (m :: modifiers) = "|" ++ m ++ modifierText modifiers := by
      simp [modifierText]
    rw [hcons, htext, textOf_cons, textOf_cons, ih]
    simp [Piece.token]

/-- The pieces are those of the source form, character by character. -/
theorem textOf_pieces (item : Item) : textOf item.pieces = item.print.toList := by
  cases item with
  | text s => simp [Item.pieces, Item.print, Piece.token]
  | table id modifiers =>
    simp [Item.pieces, Item.print, Item.braced, textOf_bracedPieces, tablePieces,
      textOf_modifierPieces, Piece.token]
  | external publisher collection id modifiers =>
    simp [Item.pieces, Item.print, Item.braced, qualifiedName, textOf_bracedPieces, tablePieces,
      externalPieces, textOf_modifierPieces, Piece.token]
  | dice d => simp [Item.pieces, Item.print, Item.braced, textOf_bracedPieces]

theorem textOf_contentPieces (content : List Item) :
    textOf (content.flatMap Item.pieces) = (String.join (content.map Item.print)).toList := by
  induction content with
  | nil => rfl
  | cons item content ih =>
    rw [List.flatMap_cons, textOf_append, ih, textOf_pieces]
    simp

section Names
variable {rest : List Char}

theorem stops_mark (c : Char) (rest : List Char) (h : c ∈ ['#', '/', '|', '\x7d']) :
    Stops Text.continuesName (c :: rest) := by
  rw [Text.stops_cons]
  simp only [List.mem_cons, List.not_mem_nil, or_false] at h
  rcases h with rfl | rfl | rfl | rfl <;> decide

/-- Behind a mark that announces a name even `d6` is one. -/
theorem takes_identifier (last : Option TokenKind) (hlast : announcesName last = true)
    (hpipe : last ≠ some .pipe) (name : String) (h : IsName name.toList)
    (hrest : Stops Text.continuesName rest) :
    Takes .expression last (.token .identifier name.toList) .expression rest := by
  obtain ⟨c, tail, htext, hletter, htail⟩ := h
  have hkind : namedKind last (c :: tail) = .identifier := if_neg fun hm => hpipe hm.1
  have := takes_of_lexes (.name hletter htail hrest fun _ _ => hlast)
  rw [hkind] at this
  rw [htext]
  exact this

theorem isName_of_modifier (m : String) (h : Modifier.isName m = true) : IsName m.toList := by
  obtain ⟨modifier, rfl⟩ := Modifier.isName_iff.mp h
  cases modifier <;> exact (isName_cons _ _).mpr (by decide)

/-- Behind a bar a name that is a modifier is read as one. -/
theorem takes_modifier (name : String) (h : Modifier.isName name = true)
    (hrest : Stops Text.continuesName rest) :
    Takes .expression (some .pipe) (.token .modifier name.toList) .expression rest := by
  obtain ⟨c, tail, htext, hletter, htail⟩ := isName_of_modifier name h
  have hname : String.ofList (c :: tail) = name := by
    rw [← htext, String.ofList_toList]
  have hkind : namedKind (some .pipe) (c :: tail) = .modifier := by
    rw [namedKind, hname, if_pos ⟨rfl, h⟩]
  have htakes : Takes .expression (some .pipe)
      (.token (namedKind (some .pipe) (c :: tail)) (c :: tail)) .expression rest :=
    takes_of_lexes (.name hletter htail hrest fun _ _ => rfl)
  rw [hkind] at htakes
  rw [htext]
  exact htakes

end Names

section Dice

/-- Dice in bounds are written with few digits. -/
theorem length_toDigits_of_inBounds (z : Int) (h : 1 ≤ z ∧ z ≤ maxDice) :
    (Nat.toDigits 10 z.toNat).length ≤ maxDiceDigits := by
  have hlength : (Nat.toDigits 10 z.toNat).length ≤ 10 := by
    apply (Nat.length_toDigits_le_iff (by decide) (by decide)).mpr
    have hmax : maxDice < 10000000000 := by decide
    omega
  have hten : 10 ≤ maxDiceDigits := by decide
  omega

def Dice.countDigits (d : Dice) : List Char :=
  match d.count with
  | none => []
  | some n => Nat.toDigits 10 n.toNat

theorem toList_printDice (d : Dice) (h : d.InBounds) :
    d.print.toList = d.countDigits ++ 'd' :: Nat.toDigits 10 d.sides.toNat := by
  obtain ⟨count, sides⟩ := d
  have hsides : 1 ≤ sides ∧ sides ≤ maxDice := h.sides
  cases count with
  | none =>
    simp [Dice.print, Dice.countDigits, Decimal.toList_repr_of_nonneg sides (by omega)]
  | some n =>
    have hn := h.count n rfl
    simp [Dice.print, Dice.countDigits, Decimal.toList_repr_of_nonneg sides (by omega),
      Decimal.toList_repr_of_nonneg n (by omega)]

/-- Dice are read back from the form in which they are written. -/
theorem readDice_print (d : Dice) (h : d.InBounds) :
    readDice d.countDigits (Nat.toDigits 10 d.sides.toNat) = .ok d := by
  obtain ⟨count, sides⟩ := d
  have hsides : 1 ≤ sides ∧ sides ≤ maxDice := h.sides
  have hsidesCast : (sides.toNat : Int) = sides := Int.toNat_of_nonneg (by omega)
  unfold readDice
  dsimp only
  rw [Decimal.natOfDigits_toDigits, if_neg (by omega)]
  cases count with
  | none =>
    simp only [Dice.countDigits, Decimal.natOfDigits_nil]
    rw [if_neg (by simp), if_neg (by omega), if_neg (by decide), if_pos trivial, hsidesCast]
  | some n =>
    have hn := h.count n rfl
    have hcast : (n.toNat : Int) = n := Int.toNat_of_nonneg (by omega)
    have hne : Nat.toDigits 10 n.toNat ≠ [] := Nat.toDigits_ne_nil
    simp only [Dice.countDigits, Decimal.natOfDigits_toDigits]
    rw [if_neg (by omega), if_neg (by omega), if_neg (by omega), if_neg hne, hsidesCast, hcast]

/-- A roll is one piece, if nothing runs on with it. -/
theorem takes_printDice (d : Dice) (h : d.InBounds) (rest : List Char)
    (hrest : Stops Text.continuesWord rest) :
    Takes .expression (some .leftBrace) ⟨some .diceRoll, some (.dice d), d.print.toList⟩
      .expression rest := by
  rw [toList_printDice d h]
  apply takes_of_lexes
  refine .dice ?_ (Decimal.isDigit_of_mem_toDigits _) Nat.toDigits_ne_nil hrest (fun _ => rfl) ?_
    (length_toDigits_of_inBounds _ h.sides) (readDice_print d h)
  · intro c hc
    unfold Dice.countDigits at hc
    split at hc
    · cases hc
    · exact Decimal.isDigit_of_mem_toDigits _ c hc
  · unfold Dice.countDigits
    split
    · exact Nat.zero_le _
    · rename_i n hn
      exact length_toDigits_of_inBounds n (h.count n hn)

end Dice

end RandomTables
