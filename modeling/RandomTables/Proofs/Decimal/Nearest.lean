import RandomTables.Proofs.Decimal.Order
import RandomTables.Proofs.Decimal.Rounding

namespace RandomTables.Decimal
open Float.Model
open UnpackedFloat (Accuracy ExtendedMantissa Sign)

/-- The middle between the greatest double and the next power of two. From there on numbers are
rounded to infinity. -/
def overflow : ℚ :=
  2 ^ 1024 - 2 ^ 970

/-- The double nearest to a number that is not negative, or infinity if the number is too great. -/
structure RoundsTo (x : ℚ) (a : Float) : Prop where
  isFinite_iff : a.isFinite = true ↔ x < overflow
  nearest : a.isFinite = true → ∀ b : Float, b.isFinite = true → |value a - x| ≤ |value b - x|
  infinite : a.isFinite = false → a.toModel.unpack = .infinity .positive

section Rounding
variable {x : ℚ} {n : Nat} {t : Int} {v : UnpackedFloat}

/-- Distances scale with the exponent. -/
theorem abs_sub_scaled (k x : ℚ) (t : Int) :
    |k * 2 ^ t - x| = |k - x / 2 ^ t| * 2 ^ t := by
  have hpos : (0 : ℚ) < 2 ^ t := by positivity
  rw [← abs_of_pos hpos, ← abs_mul, abs_of_pos hpos, sub_mul, div_mul_cancel₀ _ hpos.ne']

/-- No other multiple of the same power of two is nearer. -/
theorem IsRounding.abs_sub_le_integer (h : IsRounding x n t) (k : Int) :
    |(n : ℚ) * 2 ^ t - x| ≤ |(k : ℚ) * 2 ^ t - x| := by
  rw [abs_sub_scaled, abs_sub_scaled]
  exact mul_le_mul_of_nonneg_right (h.nearest.abs_sub_le k) (by positivity)

/-- A double with an exponent that is not less is a multiple of the same power of two. -/
theorem exists_multiple (k : Nat) {t f : Int} (h : t ≤ f) :
    ∃ i : Int, (k : ℚ) * 2 ^ f = i * 2 ^ t := by
  obtain ⟨j, rfl⟩ := Int.le.dest h
  refine ⟨(k * 2 ^ j : Nat), ?_⟩
  rw [zpow_add₀ two_ne_zero, zpow_natCast]
  push_cast
  ring

/-- A double with a lesser exponent is not greater than the least number with all its digits and
this exponent. -/
theorem le_of_exponent_lt {k : Nat} {t f : Int} (hshort : k < 2 ^ 53) (h : f < t) :
    (k : ℚ) * 2 ^ f ≤ 2 ^ 52 * 2 ^ t := by
  calc (k : ℚ) * 2 ^ f ≤ 2 ^ 53 * 2 ^ (t - 1) := by
        gcongr
        · exact_mod_cast hshort.le
        · norm_num
        · omega
    _ = 2 ^ 52 * 2 ^ t := by
        rw [zpow_sub_one₀ two_ne_zero]
        ring

/-- No double is nearer. -/
theorem IsRounding.abs_sub_le (h : IsRounding x n t) (hx : 0 ≤ x) (hv : IsDouble v)
    (hfinite : v.isFinite = true) : |(n : ℚ) * 2 ^ t - x| ≤ |unpackedValue v - x| := by
  have hzero : |(n : ℚ) * 2 ^ t - x| ≤ x := by
    have hnear := h.abs_sub_le_integer 0
    rwa [Int.cast_zero, zero_mul, zero_sub, abs_neg, abs_of_nonneg hx] at hnear
  rcases finite_cases hfinite with ⟨s, rfl⟩ | ⟨k, f, hk, rfl⟩ | ⟨k, f, hk, rfl⟩
  · change _ ≤ |(0 : ℚ) - x|
    rwa [zero_sub, abs_neg, abs_of_nonneg hx]
  · have hneg := unpackedValue_neg (e := f) hk
    rw [abs_of_neg (by linarith : unpackedValue (.finite .negative k f hk) - x < 0)]
    linarith
  · obtain ⟨hlow, -, hshort, -⟩ := hv
    rw [unpackedValue_positive]
    rcases le_or_gt t f with hle | hlt
    · obtain ⟨i, hi⟩ := exists_multiple k hle
      rw [hi]
      exact h.abs_sub_le_integer i
    · have hfull : (2 : ℚ) ^ 52 * 2 ^ t ≤ x := by
        rw [← le_div_iff₀ (by positivity)]
        exact h.full.resolve_right (by omega)
      have hless := le_of_exponent_lt hshort hlt
      have hnear := h.abs_sub_le_integer (2 ^ 52)
      rw [Int.cast_pow, Int.cast_ofNat, abs_of_nonpos (sub_nonpos.mpr hfull)] at hnear
      rw [abs_of_nonpos (sub_nonpos.mpr (hless.trans hfull))]
      linarith

theorem two_pow_eq : (2 : ℚ) ^ 1024 = 2 ^ 54 * 2 ^ 970 :=
  pow_add 2 54 970

theorem overflow_eq : overflow = (2 ^ 54 - 1) * 2 ^ 970 := by
  rw [overflow, two_pow_eq, sub_one_mul]

theorem two_zpow_eq (k : Nat) : (2 : ℚ) ^ (970 + k : Int) = 2 ^ k * 2 ^ 970 := by
  rw [zpow_add₀ two_ne_zero, zpow_natCast, mul_comm]
  rfl

/-- With a lesser exponent than the greatest, no 53 digits are too great. -/
theorem IsRounding.lt_overflow (h : IsRounding x n t) (ht : t < 971) :
    (n : ℚ) * 2 ^ t < 2 ^ 1024 ∧ x < overflow := by
  have hpos : (0 : ℚ) < 2 ^ t := by positivity
  have hunit : (0 : ℚ) < 2 ^ 970 := by positivity
  have hscale : (2 : ℚ) ^ t ≤ 2 ^ 0 * 2 ^ 970 :=
    two_zpow_eq 0 ▸ zpow_le_zpow_right₀ one_le_two (by omega)
  have hmost : n ≤ 2 ^ 53 := h.nearest.le_of_lt (by exact_mod_cast h.short)
  have hn : (n : ℚ) ≤ 2 ^ 53 := by exact_mod_cast hmost
  rw [overflow_eq, two_pow_eq]
  -- The unit is kept as it is: its digits are of no use and too many.
  generalize (2 : ℚ) ^ 970 = unit at hunit hscale
  constructor
  · calc (n : ℚ) * 2 ^ t ≤ 2 ^ 53 * 2 ^ t := by gcongr
      _ < 2 ^ 54 * unit := by linarith
  · calc x ≤ 2 ^ 53 * 2 ^ t := (div_le_iff₀ hpos).mp h.short.le
      _ < (2 ^ 54 - 1) * unit := by linarith

/-- With a greater exponent, all are. -/
theorem IsRounding.overflow_le (h : IsRounding x n t) (ht : 971 < t) :
    (2 : ℚ) ^ 1024 ≤ n * 2 ^ t ∧ overflow ≤ x := by
  have hpos : (0 : ℚ) < 2 ^ t := by positivity
  have hunit : (0 : ℚ) < 2 ^ 970 := by positivity
  have hscale : (2 : ℚ) ^ 2 * 2 ^ 970 ≤ 2 ^ t :=
    two_zpow_eq 2 ▸ zpow_le_zpow_right₀ one_le_two (by omega)
  have hz : (2 : ℚ) ^ 52 ≤ x / 2 ^ t := h.full.resolve_right (by omega)
  have hleast : 2 ^ 52 ≤ n := h.nearest.le_of_le (by exact_mod_cast hz)
  have hn : (2 : ℚ) ^ 52 ≤ n := by exact_mod_cast hleast
  rw [overflow_eq, two_pow_eq]
  generalize (2 : ℚ) ^ 970 = unit at hunit hscale
  constructor
  · calc (2 : ℚ) ^ 54 * unit ≤ 2 ^ 52 * 2 ^ t := by linarith
      _ ≤ (n : ℚ) * 2 ^ t := by gcongr
  · calc ((2 : ℚ) ^ 54 - 1) * unit ≤ 2 ^ 52 * 2 ^ t := by linarith
      _ ≤ x := (le_div_iff₀ hpos).mp hz

/-- The rounded number is too great for a double just when the number itself is. With the greatest
exponent that doubles have, the number after the greatest 53 digits is rounded to from their
middle on. -/
theorem IsRounding.lt_iff_lt_overflow (h : IsRounding x n t) :
    (n : ℚ) * 2 ^ t < 2 ^ 1024 ↔ x < overflow := by
  rcases lt_trichotomy t 971 with hlt | rfl | hgt
  · exact iff_of_true (h.lt_overflow hlt).1 (h.lt_overflow hlt).2
  · have hpos : (0 : ℚ) < 2 ^ (971 : Int) := by positivity
    have hunit : (0 : ℚ) < 2 ^ 970 := by positivity
    have hscale : (2 : ℚ) ^ (971 : Int) = 2 ^ 1 * 2 ^ 970 := two_zpow_eq 1
    have hodd := h.nearest.lt_iff_of_odd (k := 2 ^ 53 - 1) (by decide)
    rw [overflow_eq, two_pow_eq]
    generalize (2 : ℚ) ^ 970 = unit at hunit hscale
    have hleft : (n : ℚ) * 2 ^ (971 : Int) < 2 ^ 54 * unit ↔ n < 2 ^ 53 - 1 + 1 := by
      have hcast : (n : ℚ) < 2 ^ 53 ↔ n < 2 ^ 53 - 1 + 1 := by exact_mod_cast Iff.rfl
      rw [← hcast, hscale, ← mul_assoc, mul_lt_mul_iff_left₀ hunit]
      constructor <;> intro hless <;> linarith
    have hright : x / 2 ^ (971 : Int) < (2 ^ 53 - 1 : Nat) + 1 / 2 ↔ x < (2 ^ 54 - 1) * unit := by
      rw [div_lt_iff₀ hpos, hscale]
      push_cast
      constructor <;> intro hless <;> linarith
    rw [hleft, hodd, hright]
  · exact iff_of_false (not_lt.mpr (h.overflow_le hgt).1) (not_lt.mpr (h.overflow_le hgt).2)

end Rounding

/-- A number in canonical form has an exponent of doubles just when it is less than the power of two
after the greatest double. -/
theorem exponent_le_iff {k : Nat} {f : Int} (hshort : k < 2 ^ 53)
    (hfull : 2 ^ 52 ≤ k ∨ f = -1074) : f ≤ 971 ↔ (k : ℚ) * 2 ^ f < 2 ^ 1024 := by
  have hpow (j : Nat) (i : Int) (hi : i + j = 1024) : (2 : ℚ) ^ 1024 = 2 ^ j * 2 ^ i := by
    rw [mul_comm, ← zpow_natCast 2 j, ← zpow_add₀ two_ne_zero, hi]
    rfl
  constructor
  · intro hle
    have hk : (k : ℚ) < 2 ^ 53 := by exact_mod_cast hshort
    calc (k : ℚ) * 2 ^ f < 2 ^ 53 * 2 ^ f := by gcongr
      _ ≤ 2 ^ 53 * 2 ^ (971 : Int) := by gcongr; norm_num
      _ = 2 ^ 1024 := (hpow 53 971 rfl).symm
  · refine not_imp_not.mp fun hgt => not_lt.mpr ?_
    have hk : (2 : ℚ) ^ 52 ≤ k := by exact_mod_cast hfull.resolve_right (by omega)
    have hf : 972 ≤ f := by omega
    calc (2 : ℚ) ^ 1024 = 2 ^ 52 * 2 ^ (972 : Int) := hpow 52 972 rfl
      _ ≤ (k : ℚ) * 2 ^ f := by gcongr; norm_num

def packed (u : UnpackedFloat) : Float :=
  .ofModel (.pack u)

/-- What is packed and has the form of a double is unpacked unchanged. -/
theorem unpack_packed {u : UnpackedFloat} (h : IsDouble u) : (packed u).toModel.unpack = u :=
  unpack_pack h

theorem isFinite_of_unpack {a : Float} {u : UnpackedFloat} (h : a.toModel.unpack = u) :
    a.isFinite = u.isFinite :=
  congrArg UnpackedFloat.isFinite h

theorem isFinite_packed {u : UnpackedFloat} (h : IsDouble u) : (packed u).isFinite = u.isFinite :=
  isFinite_of_unpack (unpack_packed h)

/-- A double stands for the number that was packed into it. -/
theorem value_packed {u : UnpackedFloat} (h : IsDouble u) : value (packed u) = unpackedValue u :=
  congrArg unpackedValue (unpack_packed h)

theorem packed_zero (s : Sign) :
    (packed (.zero s)).isFinite = true ∧ value (packed (.zero s)) = 0 :=
  ⟨isFinite_packed (u := .zero s) trivial, value_packed (u := .zero s) trivial⟩

/-- A number in canonical form is packed as it is. -/
theorem packed_positive {m : Nat} {e : Int} (hm : 0 < m) (h : IsCanonical m e) :
    (packed (.finite .positive m e hm)).isFinite = true ∧
      value (packed (.finite .positive m e hm)) = m * 2 ^ e :=
  ⟨isFinite_packed (u := .finite .positive m e hm) h,
    (value_packed (u := .finite .positive m e hm) h).trans (unpackedValue_positive hm)⟩

section RoundsTo
variable {x : ℚ} {a b : Float} {m n : Nat} {e t : Int} {acc : Accuracy} {z : ℚ}

/-- A rounding that stays below the greatest power of two is the nearest double. -/
theorem roundsTo_of_finite (hround : IsRounding x n t) (hx : 0 ≤ x) (ha : a.isFinite = true)
    (hvalue : value a = n * 2 ^ t) (hless : value a < 2 ^ 1024) : RoundsTo x a where
  isFinite_iff := iff_of_true ha (hround.lt_iff_lt_overflow.mp (hvalue ▸ hless))
  nearest _ b hb := hvalue ▸ hround.abs_sub_le hx (isDouble_unpack b.toModel) hb
  infinite h := absurd ha (Bool.eq_false_iff.mp h)

/-- A rounding that reaches the greatest power of two is that of a number too great for doubles. -/
theorem roundsTo_of_infinite (hround : IsRounding x n t)
    (ha : a.toModel.unpack = .infinity .positive) (hgreat : (2 : ℚ) ^ 1024 ≤ n * 2 ^ t) :
    RoundsTo x a := by
  have hfinite : a.isFinite = false := isFinite_of_unpack ha
  constructor
  · exact iff_of_false (Bool.eq_false_iff.mp hfinite)
      (mt hround.lt_iff_lt_overflow.mpr (not_lt.mpr hgreat))
  · exact fun h => absurd h (Bool.eq_false_iff.mp hfinite)
  · exact fun _ => ha

/-- What an exact number is rounded to is the nearest double. -/
theorem roundsTo_packed (hz : Describes (.ofMantissaAndAccuracy m acc) z) (hz' : 0 ≤ z)
    (henough : 2 ^ 52 ≤ m ∨ e ≤ -1074) : RoundsTo (z * 2 ^ e)
      (packed (UnpackedFloat.roundWithAccuracy .binary64 .positive m e acc)) := by
  obtain ⟨n, t, hround, hresult⟩ := exists_roundWithAccuracy .positive hz henough
  have hx : 0 ≤ z * 2 ^ e := by positivity
  rcases hresult with ⟨rfl, hresult⟩ | ⟨k, f, hk, hresult, hvalue, hlow, hshort, hfull⟩
  · obtain ⟨hfinite, hzero⟩ := packed_zero .positive
    rw [hresult]
    refine roundsTo_of_finite hround hx hfinite ?_ ?_
    · rw [hzero, Nat.cast_zero, zero_mul]
    · rw [hzero]
      positivity
  · rw [hresult]
    have hexponent := exponent_le_iff hshort hfull
    by_cases hhigh : f ≤ 971
    · obtain ⟨hfinite, hpacked⟩ := packed_positive hk ⟨hlow, hhigh, hshort, hfull⟩
      refine roundsTo_of_finite hround hx hfinite (hpacked.trans hvalue) ?_
      rw [hpacked]
      exact hexponent.mp hhigh
    · have hunpack := unpack_pack_of_overflow (s := .positive) hk (Int.not_le.mp hhigh)
      refine roundsTo_of_infinite hround hunpack ?_
      rw [← hvalue]
      exact not_lt.mp (mt hexponent.mpr hhigh)

end RoundsTo

section Finite
variable {x : ℚ} {a b : Float}

/-- The greatest double lies below the middle from which on numbers are rounded up. -/
theorem unpackedValue_lt_overflow {v : UnpackedFloat} (hv : IsDouble v)
    (hfinite : v.isFinite = true) : unpackedValue v < overflow := by
  have hpos : 0 < overflow := by
    rw [overflow_eq]
    exact mul_pos (by norm_num) (by positivity)
  rcases finite_cases hfinite with ⟨s, rfl⟩ | ⟨k, f, hk, rfl⟩ | ⟨k, f, hk, rfl⟩
  · exact hpos
  · exact (unpackedValue_neg hk).trans hpos
  · obtain ⟨-, hhigh, hshort, -⟩ := hv
    have hk' : (k : ℚ) + 1 ≤ 2 ^ 53 := by exact_mod_cast hshort
    have hscale : (2 : ℚ) ^ (971 : Int) = 2 * 2 ^ 970 := by
      rw [mul_comm]
      exact zpow_add_one₀ two_ne_zero 970
    have hunit : (0 : ℚ) < 2 ^ 970 := by positivity
    rw [unpackedValue_positive, overflow_eq]
    generalize (2 : ℚ) ^ 970 = unit at hunit hscale
    calc (k : ℚ) * 2 ^ f ≤ (2 ^ 53 - 1) * 2 ^ (971 : Int) := by
          gcongr
          · linarith
          · norm_num
      _ = (2 ^ 54 - 2) * unit := by rw [hscale]; ring
      _ < (2 ^ 54 - 1) * unit := mul_lt_mul_of_pos_right (by norm_num) hunit

theorem value_lt_overflow (ha : a.isFinite = true) : value a < overflow :=
  unpackedValue_lt_overflow (isDouble_unpack a.toModel) ha

/-- A finite double is rounded to itself. -/
theorem roundsTo_value (ha : a.isFinite = true) : RoundsTo (value a) a where
  isFinite_iff := iff_of_true ha (value_lt_overflow ha)
  nearest _ b _ := by
    rw [sub_self, abs_zero]
    exact abs_nonneg _
  infinite h := absurd ha (Bool.eq_false_iff.mp h)

namespace RoundsTo
variable (h : RoundsTo x a)
include h

/-- What a number is rounded to is not NaN. -/
theorem isNaN_eq_false : a.isNaN = false := by
  cases hfinite : a.isFinite with
  | true => exact not_isNaN_of_isFinite hfinite
  | false => exact congrArg UnpackedFloat.isNaN (h.infinite hfinite)

/-- A double that is not greater than the number is not greater than the nearest double. -/
theorem value_le_value (ha : a.isFinite = true) (hb : b.isFinite = true) (hle : value b ≤ x) :
    value b ≤ value a := by
  have hnear := h.nearest ha b hb
  rw [abs_of_nonpos (sub_nonpos.mpr hle)] at hnear
  have hdistance := neg_le_abs (value a - x)
  linarith

/-- What is rounded to no finite double is rounded to the infinity above all numbers. -/
theorem place_eq_top (ha : a.isFinite = false) : place a = ⊤ :=
  congrArg unpackedPlace (h.infinite ha)

/-- Rounding does not get below a double that the number is not below. -/
theorem le_of_value_le (hb : b.isFinite = true) (hle : value b ≤ x) : b ≤ a := by
  cases ha : a.isFinite with
  | true => exact (le_iff_value hb ha).mpr (h.value_le_value ha hb hle)
  | false =>
    rw [le_iff_place (not_isNaN_of_isFinite hb) h.isNaN_eq_false, h.place_eq_top ha]
    exact le_top

/-- If there is a double that is not less than the number, the nearest one is finite and not
greater. -/
theorem le_of_le_value (hb : b.isFinite = true) (hle : x ≤ value b) :
    a.isFinite = true ∧ value a ≤ value b := by
  have ha : a.isFinite = true := h.isFinite_iff.mpr (hle.trans_lt (value_lt_overflow hb))
  refine ⟨ha, ?_⟩
  have hnear := h.nearest ha b hb
  rw [abs_of_nonneg (sub_nonneg.mpr hle)] at hnear
  have hdistance := le_abs_self (value a - x)
  linarith

/-- Where there is a double for the number itself, it is the nearest. -/
theorem value_eq (hb : b.isFinite = true) (hx : value b = x) :
    a.isFinite = true ∧ value a = x := by
  have ha : a.isFinite = true := (h.le_of_le_value hb hx.ge).1
  have hnear := h.nearest ha b hb
  rw [hx, sub_self, abs_zero] at hnear
  exact ⟨ha, sub_eq_zero.mp (abs_nonpos_iff.mp hnear)⟩

end RoundsTo

/-- Whole numbers of up to 53 digits have doubles, and so have their multiples by powers of two, as
far as the exponent is one of doubles. -/
theorem exists_double {m : Nat} {e : Int} (hm : m < 2 ^ 53) (hlow : -1074 ≤ e) (hhigh : e ≤ 971) :
    ∃ b : Float, b.isFinite = true ∧ value b = m * 2 ^ e := by
  rcases Nat.eq_zero_or_pos m with rfl | hpos
  · obtain ⟨hfinite, hzero⟩ := packed_zero .positive
    refine ⟨_, hfinite, ?_⟩
    rw [hzero, Nat.cast_zero, zero_mul]
  · have hlog : m.log2 < 53 := (Nat.log2_lt hpos.ne').mpr hm
    -- Zeros are put behind the digits until there are 53 or the exponent is the least.
    obtain ⟨k, hk⟩ : ∃ k : Nat, (k : Int) = min (52 - m.log2 : Int) (e + 1074) :=
      ⟨_, Int.toNat_of_nonneg (by omega)⟩
    have hcanonical : IsCanonical (m * 2 ^ k) (e - k) := by
      refine ⟨by omega, by omega, mul_lt_two_pow (by omega), ?_⟩
      by_cases hleast : e - k = -1074
      · exact .inr hleast
      · exact .inl (two_pow_le_mul hpos (by omega))
    obtain ⟨hfinite, hvalue⟩ := packed_positive (Nat.mul_pos hpos (Nat.two_pow_pos k)) hcanonical
    refine ⟨_, hfinite, ?_⟩
    rw [hvalue, zpow_sub₀ two_ne_zero, zpow_natCast]
    push_cast
    field_simp

end Finite
end RandomTables.Decimal
