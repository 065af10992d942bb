import Mathlib.Algebra.Group.Nat.Defs
import RandomTables.Proofs.Collection.Generation

/-! A program whose only item is a roll of dice, and a die with so many sides that what it shows is
too long to be written out. -/
namespace RandomTables
open Generation

def onlyDice (d : Dice) : Program :=
  ⟨[⟨⟨"t", false, [⟨⟨1, [.dice d]⟩, .empty 0⟩]⟩, .empty 0⟩]⟩

namespace OnlyDice
variable {d : Dice}

theorem dice_eq (d : Dice) : (onlyDice d).dice = [d] := rfl

theorem not_refers (owner id : String) : ¬(onlyDice d).Refers owner id := by
  rintro ⟨t, ht, hid⟩
  obtain rfl := List.mem_singleton.mp (Program.lastDeclaration_mem ht)
  simp [Table.references, Rule.references] at hid

theorem isAcyclic (d : Dice) : (onlyDice d).IsAcyclic := by
  intro id h
  obtain ⟨other, hrefers, -⟩ := Relation.TransGen.head'_iff.mp h
  exact not_refers id other hrefers

theorem load_eq (d : Dice) :
    (Collection.load (onlyDice d)).outcome = .ok (.ofDeclarations (onlyDice d)) :=
  (Collection.load_eq_ok_iff _ _).mpr ⟨(Program.fault?_eq_none_iff _).mp rfl, rfl⟩

/-- If what the dice come to is too long to be written out, no text is generated. -/
theorem overlong_generate {σ : Type} [WordSource σ] {attempts : Nat} {n : Int}
    (hroll : (d.roll attempts : Generation σ Int) = pure n) (hn : isWritable n = false)
    (depth : Nat) (s : σ) :
    (((Collection.ofDeclarations (onlyDice d)).generate attempts (depth + 1) "t" 1).run s).1 =
      .error .overlongSum := by
  refine Collection.fails_generate ?_ s
  refine Collection.ensures_generateNested_succ (load_eq d) rfl fun r hr => ?_
  obtain rfl := List.mem_singleton.mp hr
  refine fails_rule rfl ?_
  rw [Item.generate, hroll, pure_bind, hn]
  exact ensures_throw rfl

end OnlyDice

/-- Words that are all the same, with all bits but the first. -/
inductive LowBits where
  | lowBits

instance : WordSource LowBits :=
  ⟨fun s => (0x7fffffff, s)⟩

namespace GiantDie

def sides (words : Nat) : Nat :=
  2 ^ (32 * words + 32)

theorem sides_pos (words : Nat) : 0 < sides words :=
  Nat.two_pow_pos _

/-- By induction on the words, the last of which gives one bit only, which is not set. -/
theorem exists_drawBits (words : Nat) : ∃ n,
    (drawBits (32 * words + 33) : StateM LowBits Nat) = pure n ∧
      2 ^ (32 * words + 30) ≤ n ∧ n < sides words := by
  have hword : (drawWord : StateM LowBits UInt32) = pure 0x7fffffff := rfl
  induction words with
  | zero =>
    refine ⟨0x7fffffff, ?_, by decide, by decide⟩
    rw [drawBits, hword, pure_bind, if_neg (by decide), drawBits, hword, pure_bind,
      if_pos (by decide), pure_bind]
    rfl
  | succ words ih =>
    obtain ⟨n, hn, hlow, hhigh⟩ := ih
    have hpow (k : Nat) : 2 ^ (32 * (words + 1) + k) = 2 ^ (32 * words + k) * 2 ^ 32 := by
      rw [← Nat.pow_add]
      congr 1
      omega
    refine ⟨0x7fffffff + n * 2 ^ 32, ?_, ?_, ?_⟩
    · have hcount : 32 * (words + 1) + 33 - 32 = 32 * words + 33 := by omega
      rw [drawBits, hword, pure_bind, if_neg (by omega), hcount, hn, pure_bind, Nat.shiftLeft_eq]
      rfl
    · rw [hpow]
      omega
    · rw [sides] at hhigh ⊢
      rw [hpow]
      omega

/-- The die is decided at once, and shows a number that grows with its sides. -/
theorem exists_shown (words attempts : Nat) : ∃ n, 2 ^ (32 * words + 30) ≤ n ∧
    (drawDie? (attempts + 1) (sides words) : StateM LowBits (Option Nat)) = pure (some n) := by
  obtain ⟨n, hn, hlow, hhigh⟩ := exists_drawBits words
  have hlength : bitLength (sides words) = 32 * words + 33 := by
    rw [bitLength, if_neg (sides_pos words).ne', sides, Nat.log2_two_pow]
  refine ⟨n + 1, Nat.le_succ_of_le hlow, ?_⟩
  rw [drawDie?, drawBelow?, hlength, hn, pure_bind, if_pos hhigh, pure_bind]
  rfl

/-- A single die comes to what it shows. -/
theorem exists_roll (words attempts : Nat) : ∃ n : Nat, 2 ^ (32 * words + 30) ≤ n ∧
    (Dice.roll (attempts + 1) ⟨none, sides words⟩ : Generation LowBits Int) = pure (n : Int) := by
  obtain ⟨n, hn, hshown⟩ := exists_shown words attempts
  have hdie : (rollDie (attempts + 1) (sides words) : Generation LowBits Nat) = pure n := by
    rw [rollDie, hshown]
    rfl
  have hpos := sides_pos words
  have hrolls : (Dice.mk none (sides words)).rolls = 1 := rfl
  refine ⟨n, hn, ?_⟩
  rw [Dice.roll, hrolls, if_neg (by decide), if_neg (by dsimp only; omega), Int.toNat_natCast,
    Int.toNat_one, rollFrom, hdie, pure_bind, rollFrom, Int.zero_add]

/-- Some dice are decided at once, and show more digits than are written out. -/
theorem exists_unwritable : ∃ d : Dice, 1 ≤ d.sides ∧ Decides LowBits 1 d.sides ∧
    ∀ attempts, ∃ n, (d.roll (attempts + 1) : Generation LowBits Int) = pure n ∧
      isWritable n = false := by
  have hwords : leastUnwritable ≤ 2 ^ (32 * 449 + 30) := by decide +kernel
  generalize 449 = words at hwords
  have hpos := sides_pos words
  refine ⟨⟨none, sides words⟩, by dsimp only; omega, fun s hnone => ?_, fun attempts => ?_⟩
  · obtain ⟨n, -, hshown⟩ := exists_shown words 0
    rw [Int.toNat_natCast, hshown] at hnone
    cases hnone
  · obtain ⟨n, hn, hroll⟩ := exists_roll words attempts
    refine ⟨n, hroll, ?_⟩
    rw [isWritable, Int.natAbs_natCast]
    exact decide_eq_false (Nat.not_lt.mpr (Nat.le_trans hwords hn))

end GiantDie

end RandomTables
