import RandomTables.Decimal.Reading
import RandomTables.Proofs.Decimal.Nearest

namespace RandomTables.Decimal
open Float.Model
open UnpackedFloat (Accuracy ExtendedMantissa Sign)

section Unpacked
variable {m n : Nat} {e f : Int} {u v : UnpackedFloat}

theorem roundsTo_zero (s : Sign) : RoundsTo 0 (packed (.zero s)) :=
  (packed_zero s).2 ▸ roundsTo_value (packed_zero s).1

/-- A number with a canonical form is rounded to itself. -/
theorem roundsTo_positive (hm : 0 < m) (h : IsCanonical m e) :
    RoundsTo (m * 2 ^ e) (packed (.finite .positive m e hm)) :=
  (packed_positive hm h).2 ▸ roundsTo_value (packed_positive hm h).1

/-- A finite number that is not negative is a zero of either sign or has a mantissa. -/
theorem nonneg_cases (hfinite : u.isFinite = true) (hnonneg : 0 ≤ unpackedValue u) :
    (∃ s, u = .zero s) ∨ ∃ m e hm, u = .finite .positive m e hm := by
  rcases finite_cases hfinite with hzero | ⟨m, e, hm, rfl⟩ | hpositive
  · exact .inl hzero
  · exact absurd hnonneg (not_le.mpr (unpackedValue_neg hm))
  · exact .inr hpositive

/-- A whole number of digits enough is rounded with its exponent. -/
theorem roundsTo_of_enough (henough : 2 ^ 52 ≤ m ∨ e ≤ -1074) : RoundsTo (m * 2 ^ e)
    (packed (UnpackedFloat.roundWithAccuracy .binary64 .positive m e .exact)) :=
  roundsTo_packed (describes_exact m) (Nat.cast_nonneg m) henough

/-- Otherwise zeros are put behind the digits first. -/
theorem roundsTo_round (hm : 0 < m) (e : Int) :
    RoundsTo (m * 2 ^ e) (packed (UnpackedFloat.round .binary64 .positive m e)) := by
  obtain ⟨k, hk⟩ : ∃ k : Nat, k = (e - max ((m.log2 : Int) - 52 + e) (-1074)).toNat := ⟨_, rfl⟩
  have hround : UnpackedFloat.round .binary64 .positive m e =
      UnpackedFloat.roundWithAccuracy .binary64 .positive (m <<< k) (e - k) .exact := by
    rw [UnpackedFloat.round, targetExponent_eq, UnpackedFloat.decreaseExponent, ← hk]
  have hvalue : (m : ℚ) * 2 ^ e = (m <<< k : Nat) * 2 ^ (e - k) := by
    rw [Nat.shiftLeft_eq, zpow_sub₀ two_ne_zero, zpow_natCast]
    push_cast
    field_simp
  rw [hround, hvalue]
  apply roundsTo_of_enough
  by_cases hlow : e - k ≤ -1074
  · exact .inr hlow
  · left
    rw [Nat.shiftLeft_eq]
    exact two_pow_le_mul hm (by omega)

theorem roundsTo_normalize (m : Nat) (e : Int) :
    RoundsTo (m * 2 ^ e) (packed (UnpackedFloat.normalize .binary64 m e .positive)) := by
  rcases Nat.eq_zero_or_pos m with rfl | hm
  · rw [Nat.cast_zero, zero_mul]
    exact roundsTo_zero .positive
  · have hcompare : compare (m : Int) 0 = .gt := compare_gt_iff_gt.mpr (by omega)
    rw [UnpackedFloat.normalize, hcompare]
    exact roundsTo_round hm e

/-- The mantissas are brought to the lesser exponent, where the sum is exact, and the sum is rounded
once. -/
theorem roundsTo_sum (hm : 0 < m) (hn : 0 < n) : RoundsTo (m * 2 ^ e + n * 2 ^ f) (packed
    (UnpackedFloat.add .binary64 (.finite .positive m e hm) (.finite .positive n f hn))) := by
  have hscale (k : Nat) (i : Int) (hi : min e f ≤ i) :
      (k : ℚ) * 2 ^ i = (k <<< (i - min e f).toNat : Nat) * 2 ^ min e f := by
    have hpow : (2 : ℚ) ^ i = 2 ^ (i - min e f).toNat * 2 ^ min e f := by
      rw [← zpow_natCast, ← zpow_add₀ two_ne_zero]
      congr 1
      omega
    rw [Nat.shiftLeft_eq, hpow]
    push_cast
    ring
  rw [hscale m e (by omega), hscale n f (by omega), ← add_mul, ← Nat.cast_add]
  exact roundsTo_normalize _ _

/-- The product of the mantissas is exact, and is rounded once. -/
theorem roundsTo_product (hm : 0 < m) (hn : 0 < n) (hm' : IsCanonical m e) (hn' : IsCanonical n f) :
    RoundsTo (m * 2 ^ e * (n * 2 ^ f)) (packed
      (UnpackedFloat.mul .binary64 (.finite .positive m e hm) (.finite .positive n f hn))) := by
  have hvalue : (m : ℚ) * 2 ^ e * (n * 2 ^ f) = (m * n : Nat) * 2 ^ (e + f) := by
    rw [zpow_add₀ two_ne_zero]
    push_cast
    ring
  rw [hvalue]
  refine roundsTo_of_enough ?_
  rcases hm'.full with hfull | hleast
  · exact .inl (hfull.trans (Nat.le_mul_of_pos_right m hn))
  · rcases hn'.full with hfull | hleast'
    · exact .inl (hfull.trans (Nat.le_mul_of_pos_left n hm))
    · exact .inr (by omega)

/-- The side of the middle on which the fraction lies is all that is kept of it. -/
theorem describes_inexact {z : ℚ} (hlow : (m : ℚ) < z) (hhigh : z < m + 1) :
    Describes (.ofMantissaAndAccuracy m (.inexact (compare z (m + 1 / 2)))) z := by
  rcases lt_trichotomy z (m + 1 / 2) with hlt | heq | hgt
  · rw [compare_lt_iff_lt.mpr hlt]
    exact ⟨hlow.le, hhigh, iff_of_false nofun (not_le.mpr hlt),
      iff_of_false nofun (not_or.mpr ⟨hlow.ne', hlt.ne⟩)⟩
  · rw [compare_eq_iff_eq.mpr heq]
    exact ⟨hlow.le, hhigh, iff_of_true rfl heq.ge, iff_of_true rfl (.inr heq)⟩
  · rw [compare_gt_iff_gt.mpr hgt]
    exact ⟨hlow.le, hhigh, iff_of_true rfl hgt.le,
      iff_of_false nofun (not_or.mpr ⟨hlow.ne', hgt.ne'⟩)⟩

/-- The remainder of a division tells how far the quotient is from the whole number before it. -/
theorem describes_accuracyOfFraction (q : Nat) (h : m < n) :
    Describes (.ofMantissaAndAccuracy q (UnpackedFloat.accuracyOfFraction m n))
      (q + (m : ℚ) / n) := by
  have hpos : (0 : ℚ) < n := by exact_mod_cast Nat.zero_lt_of_lt h
  have hless : (m : ℚ) / n < 1 := by
    rw [div_lt_one hpos]
    exact_mod_cast h
  rw [UnpackedFloat.accuracyOfFraction]
  split
  case isTrue hzero =>
    rw [hzero, Nat.cast_zero, zero_div, add_zero]
    exact describes_exact q
  case isFalse hzero =>
    have hmore : 0 < (m : ℚ) / n := div_pos (by exact_mod_cast Nat.pos_of_ne_zero hzero) hpos
    have hcompare : compare (2 * m) n = compare ((q : ℚ) + m / n) (q + 1 / 2) := by
      rcases lt_trichotomy (2 * m) n with hlt | heq | hgt
      · have hhalf : (m : ℚ) / n < 1 / 2 := by
          rw [div_lt_div_iff₀ hpos two_pos]
          exact_mod_cast (by omega : m * 2 < 1 * n)
        rw [compare_lt_iff_lt.mpr hlt, compare_lt_iff_lt.mpr (by linarith)]
      · have hhalf : (m : ℚ) / n = 1 / 2 := by
          rw [div_eq_div_iff hpos.ne' two_ne_zero]
          exact_mod_cast (by omega : m * 2 = 1 * n)
        rw [compare_eq_iff_eq.mpr heq, compare_eq_iff_eq.mpr (by rw [hhalf])]
      · have hhalf : 1 / 2 < (m : ℚ) / n := by
          rw [div_lt_div_iff₀ two_pos hpos]
          exact_mod_cast (by omega : 1 * n < m * 2)
        rw [compare_gt_iff_gt.mpr hgt, compare_gt_iff_gt.mpr (by linarith)]
    rw [hcompare]
    exact describes_inexact (by linarith) (by linarith)

/-- The whole part of the quotient has 53 digits or the least exponent, and the remainder tells how
it is rounded. -/
theorem roundsTo_quotient (hm : 0 < m) (hn : 0 < n) : RoundsTo (m * 2 ^ e / (n * 2 ^ f)) (packed
    (UnpackedFloat.div .binary64 (.finite .positive m e hm) (.finite .positive n f hn))) := by
  obtain ⟨t, ht⟩ : ∃ t, t = min (e - f)
      (max ((m.log2 : Int) - n.log2 + e - f - 53) (-1074)) := ⟨_, rfl⟩
  obtain ⟨k, hk⟩ : ∃ k : Nat, (k : Int) = e - f - t := ⟨_, Int.toNat_of_nonneg (by omega)⟩
  have htarget : min (e - f) (Format.binary64.targetExponent
      (totalExponent m e - totalExponent n f)) = t := by
    change min (e - f) (max ((m.log2 : Int) + 1 + e - (n.log2 + 1 + f) - (1 + 52 : Nat))
      (3 - 2 ^ 10 - (1 + 52 : Nat))) = t
    omega
  have hdiv : UnpackedFloat.div .binary64 (.finite .positive m e hm) (.finite .positive n f hn) =
      UnpackedFloat.roundWithAccuracy .binary64 .positive (m <<< k / n) t
        (UnpackedFloat.accuracyOfFraction (m <<< k % n) n) := by
    have hshift : (e - f - t).toNat = k := by omega
    rw [UnpackedFloat.div, UnpackedFloat.divCore, htarget, hshift]
    rfl
  have hpos : (0 : ℚ) < n := by exact_mod_cast hn
  have hvalue : (m : ℚ) * 2 ^ e / (n * 2 ^ f) =
      ((m <<< k / n : Nat) + (m <<< k % n : Nat) / n) * 2 ^ t := by
    have hparts : ((m <<< k / n : Nat) : ℚ) + (m <<< k % n : Nat) / n = (m <<< k : Nat) / n := by
      rw [eq_div_iff hpos.ne', add_mul, div_mul_cancel₀ _ hpos.ne', mul_comm]
      exact_mod_cast Nat.div_add_mod (m <<< k) n
    have hpow : (2 : ℚ) ^ e = 2 ^ k * 2 ^ t * 2 ^ f := by
      rw [← zpow_natCast, ← zpow_add₀ two_ne_zero, ← zpow_add₀ two_ne_zero]
      congr 1
      omega
    rw [hparts, hpow, Nat.shiftLeft_eq]
    push_cast
    field_simp
  rw [hdiv, hvalue]
  refine roundsTo_packed (describes_accuracyOfFraction _ (Nat.mod_lt _ hn)) (by positivity) ?_
  by_cases hlow : t ≤ -1074
  · exact .inr hlow
  · left
    rw [Nat.le_div_iff_mul_le hn, Nat.shiftLeft_eq, Nat.mul_comm]
    calc n * 2 ^ 52 ≤ 2 ^ (n.log2 + 53) := (mul_lt_two_pow (by omega)).le
      _ ≤ m * 2 ^ k := two_pow_le_mul hm (by omega)

end Unpacked

section Doubles
variable {a b : Float}

/-- Doubles are canonical when they are unpacked. -/
theorem nonneg_double (ha : a.isFinite = true) (ha' : 0 ≤ value a) :
    (∃ s, a.toModel.unpack = .zero s) ∨
      ∃ m e hm, a.toModel.unpack = .finite .positive m e hm ∧ IsCanonical m e := by
  rcases nonneg_cases ha ha' with hzero | ⟨m, e, hm, hunpack⟩
  · exact .inl hzero
  · have hdouble := isDouble_unpack a.toModel
    rw [hunpack] at hdouble
    exact .inr ⟨m, e, hm, hunpack, hdouble⟩

theorem value_of_zero {s : Sign} (h : a.toModel.unpack = .zero s) : value a = 0 :=
  congrArg unpackedValue h

theorem value_of_positive {m : Nat} {e : Int} {hm : 0 < m}
    (h : a.toModel.unpack = .finite .positive m e hm) : value a = m * 2 ^ e :=
  (congrArg unpackedValue h).trans (unpackedValue_positive hm)

/-- A sum of doubles is the nearest double to the exact sum. -/
theorem roundsTo_add (ha : a.isFinite = true) (hb : b.isFinite = true) (ha' : 0 ≤ value a)
    (hb' : 0 ≤ value b) : RoundsTo (value a + value b) (a + b) := by
  change RoundsTo _ (packed (UnpackedFloat.add .binary64 a.toModel.unpack b.toModel.unpack))
  rcases nonneg_double ha ha' with ⟨s, hs⟩ | ⟨m, e, hm, hm', hcanonical⟩ <;>
    rcases nonneg_double hb hb' with ⟨r, hr⟩ | ⟨n, f, hn, hn', hcanonical'⟩
  · rw [value_of_zero hs, value_of_zero hr, add_zero, hs, hr]
    cases s <;> cases r <;> exact roundsTo_zero _
  · rw [value_of_zero hs, zero_add, value_of_positive hn', hs, hn']
    exact roundsTo_positive hn hcanonical'
  · rw [value_of_zero hr, add_zero, value_of_positive hm', hr, hm']
    exact roundsTo_positive hm hcanonical
  · rw [value_of_positive hm', value_of_positive hn', hm', hn']
    exact roundsTo_sum hm hn

/-- So is a product. -/
theorem roundsTo_mul (ha : a.isFinite = true) (hb : b.isFinite = true) (ha' : 0 ≤ value a)
    (hb' : 0 ≤ value b) : RoundsTo (value a * value b) (a * b) := by
  change RoundsTo _ (packed (UnpackedFloat.mul .binary64 a.toModel.unpack b.toModel.unpack))
  rcases nonneg_double ha ha' with ⟨s, hs⟩ | ⟨m, e, hm, hm', hcanonical⟩ <;>
    rcases nonneg_double hb hb' with ⟨r, hr⟩ | ⟨n, f, hn, hn', hcanonical'⟩
  · rw [value_of_zero hs, zero_mul, hs, hr]
    exact roundsTo_zero _
  · rw [value_of_zero hs, zero_mul, hs, hn']
    exact roundsTo_zero _
  · rw [value_of_zero hr, mul_zero, hr, hm']
    exact roundsTo_zero _
  · rw [value_of_positive hm', value_of_positive hn', hm', hn']
    exact roundsTo_product hm hn hcanonical hcanonical'

/-- So is a quotient, if the divisor is not zero. -/
theorem roundsTo_div (ha : a.isFinite = true) (hb : b.isFinite = true) (ha' : 0 ≤ value a)
    (hb' : 0 < value b) : RoundsTo (value a / value b) (a / b) := by
  change RoundsTo _ (packed (UnpackedFloat.div .binary64 a.toModel.unpack b.toModel.unpack))
  rcases nonneg_double hb hb'.le with ⟨r, hr⟩ | ⟨n, f, hn, hn', -⟩
  · exact absurd (value_of_zero hr) hb'.ne'
  · rcases nonneg_double ha ha' with ⟨s, hs⟩ | ⟨m, e, hm, hm', -⟩
    · rw [value_of_zero hs, zero_div, hs, hn']
      exact roundsTo_zero _
    · rw [value_of_positive hm', value_of_positive hn', hm', hn']
      exact roundsTo_quotient hm hn

end Doubles

section Positive
variable {a b : Float}

theorem unpack_zero : (0 : Float).toModel.unpack = .zero .positive := by
  rfl

theorem isFinite_zero : (0 : Float).isFinite = true :=
  isFinite_of_unpack unpack_zero

theorem value_zero : value 0 = 0 :=
  value_of_zero unpack_zero

/-- Finite doubles compare with zero as their numbers do. -/
theorem zero_lt_iff (ha : a.isFinite = true) : 0 < a ↔ 0 < value a := by
  rw [lt_iff_place (not_isNaN_of_isFinite isFinite_zero) (not_isNaN_of_isFinite ha),
    place_of_finite isFinite_zero, place_of_finite ha, number_lt_number, value_zero]

/-- A positive double is a finite one or the infinity. -/
theorem pos_cases (h : 0 < a) :
    (a.isFinite = true ∧ 0 < value a) ∨ a.toModel.unpack = .infinity .positive := by
  obtain ⟨hzero, ha⟩ := not_isNaN_of_lt h
  rcases finite_or_infinite ha with hfinite | hnegative | hpositive
  · exact .inl ⟨hfinite, (zero_lt_iff hfinite).mp h⟩
  · rw [lt_iff_place hzero ha, place_of_infinity hnegative] at h
    exact absurd h not_lt_bot
  · exact .inr hpositive

/-- A positive finite double has a positive mantissa. -/
theorem unpack_of_pos (ha : a.isFinite = true) (ha' : 0 < value a) :
    ∃ m e hm, a.toModel.unpack = .finite .positive m e hm := by
  rcases nonneg_double ha ha'.le with ⟨s, hs⟩ | ⟨m, e, hm, hunpack, -⟩
  · exact absurd (value_of_zero hs) ha'.ne'
  · exact ⟨m, e, hm, hunpack⟩

/-- Infinity is above every double that is not NaN. -/
theorem le_of_infinity (ha : a.isNaN = false) (hb : b.toModel.unpack = .infinity .positive) :
    a ≤ b := by
  rw [le_iff_place ha (congrArg UnpackedFloat.isNaN hb), place_of_infinity hb]
  exact le_top

/-- A sum of positive doubles is infinite if one of them is. -/
theorem add_of_infinity (ha : 0 < a) (hb : 0 < b)
    (h : a.toModel.unpack = .infinity .positive ∨ b.toModel.unpack = .infinity .positive) :
    (a + b).toModel.unpack = .infinity .positive := by
  change (packed (UnpackedFloat.add .binary64 a.toModel.unpack b.toModel.unpack)).toModel.unpack = _
  have hpacked := unpack_packed (u := .infinity .positive) trivial
  rcases pos_cases ha with ⟨hfinite, hpos⟩ | hinfinite <;>
    rcases pos_cases hb with ⟨hfinite', hpos'⟩ | hinfinite'
  · rcases h with hinfinite | hinfinite
    · exact absurd hfinite (Bool.eq_false_iff.mp (isFinite_of_unpack hinfinite))
    · exact absurd hfinite' (Bool.eq_false_iff.mp (isFinite_of_unpack hinfinite))
  · obtain ⟨m, e, hm, hunpack⟩ := unpack_of_pos hfinite hpos
    rw [hunpack, hinfinite']
    exact hpacked
  · obtain ⟨m, e, hm, hunpack⟩ := unpack_of_pos hfinite' hpos'
    rw [hunpack, hinfinite]
    exact hpacked
  · rw [hinfinite, hinfinite']
    exact hpacked

/-- What a positive double is added to does not get less. -/
theorem le_add (ha : 0 < a) (hb : 0 < b) : a ≤ a + b := by
  rcases pos_cases ha with ⟨hfinite, hpos⟩ | hinfinite
  · rcases pos_cases hb with ⟨hfinite', hpos'⟩ | hinfinite'
    · exact (roundsTo_add hfinite hfinite' hpos.le hpos'.le).le_of_value_le hfinite (by linarith)
    · exact le_of_infinity (not_isNaN_of_lt ha).2 (add_of_infinity ha hb (.inr hinfinite'))
  · exact le_of_infinity (not_isNaN_of_lt ha).2 (add_of_infinity ha hb (.inl hinfinite))

/-- A sum of positive doubles is positive, since the sum is not below either of them. -/
theorem zero_lt_add (ha : 0 < a) (hb : 0 < b) : 0 < a + b :=
  Decimal.lt_of_lt_of_le ha (le_add ha hb)

/-- A sum of positive doubles is finite if both are and the exact sum does not overflow. -/
theorem isFinite_add_iff (ha : 0 < a) (hb : 0 < b) : (a + b).isFinite = true ↔
    a.isFinite = true ∧ b.isFinite = true ∧ value a + value b < overflow := by
  have hinfinite (h : a.toModel.unpack = .infinity .positive ∨
      b.toModel.unpack = .infinity .positive) : (a + b).isFinite ≠ true :=
    Bool.eq_false_iff.mp (isFinite_of_unpack (add_of_infinity ha hb h))
  rcases pos_cases ha with ⟨hfinite, hpos⟩ | ha'
  · rcases pos_cases hb with ⟨hfinite', hpos'⟩ | hb'
    · rw [(roundsTo_add hfinite hfinite' hpos.le hpos'.le).isFinite_iff]
      exact ⟨fun hless => ⟨hfinite, hfinite', hless⟩, fun h => h.2.2⟩
    · refine iff_of_false (hinfinite (.inr hb')) fun h => ?_
      exact Bool.eq_false_iff.mp (isFinite_of_unpack hb') h.2.1
  · refine iff_of_false (hinfinite (.inl ha')) fun h => ?_
    exact Bool.eq_false_iff.mp (isFinite_of_unpack ha') h.1

/-- No number that is not negative makes the infinity finite by multiplication. -/
theorem mul_of_infinity (ha : a.isFinite = true) (ha' : 0 ≤ value a)
    (hb : b.toModel.unpack = .infinity .positive) : (a * b).isFinite = false := by
  change (packed (UnpackedFloat.mul .binary64 a.toModel.unpack b.toModel.unpack)).isFinite = _
  rw [hb]
  rcases nonneg_double ha ha' with ⟨s, hs⟩ | ⟨m, e, hm, hunpack, -⟩
  · rw [hs]
    exact isFinite_of_unpack (unpack_packed (u := .notANumber) trivial)
  · rw [hunpack]
    exact isFinite_of_unpack (unpack_packed (u := .infinity .positive) trivial)

end Positive

section Literals
variable {m k : Nat}

def isWhole (n : Nat) : UnpackedFloat → Bool
  | .finite .positive m e _ => decide (-52 ≤ e) && m * 2 ^ (e + 52).toNat == n * 2 ^ 52
  | _ => false

/-- The check finds the number that the double stands for. -/
theorem value_of_isWhole {a : Float} {n : Nat} (h : isWhole n a.toModel.unpack = true) :
    a.isFinite = true ∧ value a = n := by
  generalize hunpack : a.toModel.unpack = u at h
  match u, h with
  | .finite .positive m e hm, h =>
    refine ⟨isFinite_of_unpack hunpack, ?_⟩
    obtain ⟨hlow, hdigits⟩ := (Bool.and_eq_true _ _).mp h
    have hlow' : -52 ≤ e := of_decide_eq_true hlow
    have hpow : (2 : ℚ) ^ e * 2 ^ 52 = 2 ^ (e + 52).toNat := by
      rw [← zpow_natCast, ← zpow_natCast, ← zpow_add₀ two_ne_zero]
      congr 1
      omega
    have hcast : (m : ℚ) * 2 ^ (e + 52).toNat = n * 2 ^ 52 := by
      exact_mod_cast beq_iff_eq.mp hdigits
    rw [value_of_positive hunpack]
    rw [← hpow, ← mul_assoc] at hcast
    exact mul_right_cancel₀ (by positivity) hcast

theorem isWhole_powersOfTen : ∀ i : Fin Float.exactlyRepresentablePowersOfTen.size,
    isWhole (10 ^ i.val) Float.exactlyRepresentablePowersOfTen[i].toModel.unpack = true := by
  decide +kernel

/-- The powers of ten in the table are exact. -/
theorem value_powerOfTen (hk : k < Float.exactlyRepresentablePowersOfTen.size) :
    Float.exactlyRepresentablePowersOfTen[k].isFinite = true ∧
      value Float.exactlyRepresentablePowersOfTen[k] = 10 ^ k := by
  have hwhole := value_of_isWhole (isWhole_powersOfTen ⟨k, hk⟩)
  rwa [Nat.cast_pow, Nat.cast_ofNat] at hwhole

/-- Whole numbers of up to 53 binary digits are exact. -/
theorem value_toFloat (hm : m < 2 ^ 53) :
    m.toUInt64.toFloat.isFinite = true ∧ value m.toUInt64.toFloat = m := by
  have hnat : m.toUInt64.toNat = m := Nat.mod_eq_of_lt (hm.trans (by decide))
  have hround : RoundsTo m m.toUInt64.toFloat := by
    have hnormalize := roundsTo_normalize m 0
    rw [zpow_zero, mul_one] at hnormalize
    change RoundsTo m (packed (UnpackedFloat.normalize .binary64 m.toUInt64.toNat 0 .positive))
    rwa [hnat]
  obtain ⟨b, hb, hvalue⟩ := exists_double hm (e := 0) (by decide) (by decide)
  rw [zpow_zero, mul_one] at hvalue
  exact hround.value_eq hb hvalue

/-- So small a number that it is not even computed is rounded to zero. -/
theorem roundsTo_zero_of_small (hk : m.log2 + 2048 < k) :
    RoundsTo (m / 10 ^ k) (packed (.zero .positive)) := by
  have hscaled (c : Nat) (hc : c < 2048) : (m : ℚ) / 10 ^ k / 2 ^ (-c : Int) < 1 / 2 := by
    have hsmall : (m : ℚ) * 2 ^ (c + 1) < 10 ^ k := by
      exact_mod_cast (mul_lt_two_pow (by omega)).trans_le (Nat.pow_le_pow_left (by decide) k)
    rw [zpow_neg, zpow_natCast, div_inv_eq_mul, div_mul_eq_mul_div, div_lt_div_iff₀ (by positivity)
      two_pos, mul_assoc, ← pow_succ, one_mul]
    exact hsmall
  have hnonneg : (0 : ℚ) ≤ (m : ℚ) / 10 ^ k / 2 ^ (-1074 : Int) := by positivity
  have hless : (m : ℚ) / 10 ^ k / 2 ^ (-1074 : Int) < 1 / 2 := hscaled 1074 (by decide)
  have hround : IsRounding (m / 10 ^ k) 0 (-1074) := by
    refine ⟨le_refl _, by linarith, .inr rfl, isNearest_below ?_ ?_⟩
    · rwa [Nat.cast_zero]
    · rwa [Nat.cast_zero, zero_add]
  obtain ⟨hfinite, hzero⟩ := packed_zero .positive
  refine roundsTo_of_finite hround (by positivity) hfinite ?_ ?_
  · rw [hzero, Nat.cast_zero, zero_mul]
  · rw [hzero]
    positivity

/-- By the sign and size of the exponent: the quotient is exact and rounded once, or so small that
zero is the nearest. -/
theorem roundsTo_unpackedOfScientific (m k : Nat) :
    RoundsTo (m / 10 ^ k) (packed (UnpackedFloat.ofScientific .binary64 m (-k))) := by
  have hexponent : (2 : Int) ^ Format.binary64.exponentBits = 2048 := rfl
  rw [UnpackedFloat.ofScientific, hexponent]
  split
  case isTrue hm =>
    rw [hm, Nat.cast_zero, zero_div]
    exact roundsTo_zero .positive
  case isFalse hm =>
    have hpos : 0 < m := Nat.pos_of_ne_zero hm
    rw [if_neg (by omega)]
    split
    case isTrue hsmall => exact roundsTo_zero_of_small (by omega)
    case isFalse =>
      split
      case isTrue hwhole =>
        obtain rfl : k = 0 := by omega
        have henough : 2 ^ 52 ≤ m <<< 53 * 1 := by
          rw [Nat.shiftLeft_eq, mul_one]
          exact (by decide : 2 ^ 52 ≤ 2 ^ 53).trans (Nat.le_mul_of_pos_left _ hpos)
        have hvalue : ((m <<< 53 * 1 : Nat) : ℚ) * 2 ^ (-53 : Int) = m / 10 ^ 0 := by
          rw [Nat.shiftLeft_eq, pow_zero, div_one, mul_one, Nat.cast_mul, mul_assoc]
          norm_num
        have hround := roundsTo_of_enough (e := -53) (.inl henough)
        rw [hvalue] at hround
        exact hround
      case isFalse =>
        have hround := roundsTo_quotient (e := 0) (f := 0) hpos
          (Nat.pow_pos (by decide : 0 < 10) : 0 < 10 ^ k)
        rw [zpow_zero, mul_one, mul_one, Nat.cast_pow, Nat.cast_ofNat] at hround
        simp only [neg_neg, Int.toNat_natCast]
        exact hround

/-- Both ways to read a literal, the short one and the general one, round once. -/
theorem roundsTo_ofScientific (m k : Nat) :
    RoundsTo (m / 10 ^ k) (Float.ofScientific m true k) := by
  rw [Float.ofScientific]
  split
  case isTrue h =>
    obtain ⟨hfinite, hvalue⟩ := value_toFloat h.1
    have hk : k < Float.exactlyRepresentablePowersOfTen.size := Nat.lt_succ_iff.mpr h.2
    obtain ⟨hfinite', hvalue'⟩ := value_powerOfTen hk
    have hround := roundsTo_div hfinite hfinite' (by rw [hvalue]; positivity)
      (by rw [hvalue']; positivity)
    rwa [hvalue, hvalue'] at hround
  case isFalse =>
    have hround := roundsTo_unpackedOfScientific m k
    rwa [← Int.ofNat_eq_natCast, ← Int.negOfNat_eq] at hround

def literalValue (literal : List Char) : ℚ :=
  let whole := literal.takeWhile Text.isDigit
  let fraction := literal.drop (whole.length + 1)
  natOfDigits (whole ++ fraction) / 10 ^ fraction.length

/-- The double of a literal is the one nearest to the number that it denotes. -/
theorem roundsTo_floatOfLiteral (literal : List Char) :
    RoundsTo (literalValue literal) (floatOfLiteral literal) :=
  roundsTo_ofScientific _ _

end Literals
end RandomTables.Decimal
