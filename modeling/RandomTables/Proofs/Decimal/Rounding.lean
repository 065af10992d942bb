import RandomTables.Proofs.Decimal.Packing

/-! Rounding a fraction to the digits of a double. The digits that are shifted out leave two bits
behind, and these tell on which side of the middle between two whole numbers the fraction lies. -/
namespace RandomTables.Decimal
open Float.Model
open UnpackedFloat (Accuracy ExtendedMantissa Sign)

structure IsNearest (z : ℚ) (n : Nat) : Prop where
  low : z ≤ n + 1 / 2
  high : (n : ℚ) ≤ z + 1 / 2
  even : z = n + 1 / 2 ∨ (n : ℚ) = z + 1 / 2 → n % 2 = 0

/-- The whole number before the fraction, and where the fraction lies behind it: the round bit tells
whether it reaches the middle, the sticky bit whether it is anywhere but there or at the start. -/
structure Describes (em : ExtendedMantissa) (z : ℚ) : Prop where
  low : (em.mantissa : ℚ) ≤ z
  high : z < em.mantissa + 1
  round : em.roundBit = true ↔ em.mantissa + 1 / 2 ≤ z
  sticky : em.stickyBit = false ↔ z = em.mantissa ∨ z = em.mantissa + 1 / 2

section Digits
variable {m j k : Nat}

/-- Zeros behind the binary digits of a whole number make it longer by as many. -/
theorem two_pow_le_mul (hm : 0 < m) (h : j ≤ m.log2 + k) : 2 ^ j ≤ m * 2 ^ k := by
  calc 2 ^ j ≤ 2 ^ m.log2 * 2 ^ k := by
        rw [← Nat.pow_add]
        exact Nat.pow_le_pow_right (by decide) h
    _ ≤ m * 2 ^ k := Nat.mul_le_mul_right _ (Nat.log2_self_le hm.ne')

/-- A number with fewer binary digits than a power of two is less. -/
theorem mul_lt_two_pow (h : m.log2 + k < j) : m * 2 ^ k < 2 ^ j := by
  calc m * 2 ^ k < 2 ^ (m.log2 + 1) * 2 ^ k :=
        Nat.mul_lt_mul_of_pos_right Nat.lt_log2_self (Nat.two_pow_pos k)
    _ ≤ 2 ^ j := by
        rw [← Nat.pow_add]
        exact Nat.pow_le_pow_right (by decide) (by omega)

end Digits

section Nearest
variable {em : ExtendedMantissa} {z : ℚ} {n : Nat}

/-- No whole number is nearer. -/
theorem IsNearest.abs_sub_le (h : IsNearest z n) (k : Int) : |(n : ℚ) - z| ≤ |(k : ℚ) - z| := by
  have hclose : |(n : ℚ) - z| ≤ 1 / 2 := abs_le.mpr ⟨by linarith [h.low], by linarith [h.high]⟩
  rcases lt_trichotomy k (n : Int) with hlt | rfl | hgt
  · have hone : (k : ℚ) + 1 ≤ n := by exact_mod_cast hlt
    have hdistance := neg_le_abs ((k : ℚ) - z)
    linarith [h.high]
  · rw [Int.cast_natCast]
  · have hone : (n : ℚ) + 1 ≤ k := by exact_mod_cast hgt
    have hdistance := le_abs_self ((k : ℚ) - z)
    linarith [h.low]

/-- Rounding keeps whole numbers on their side. -/
theorem IsNearest.le_of_le (h : IsNearest z n) {k : Nat} (hk : (k : ℚ) ≤ z) : k ≤ n := by
  refine Nat.le_of_not_lt fun hlt => ?_
  have hone : (n : ℚ) + 1 ≤ k := by exact_mod_cast hlt
  linarith [h.low]

theorem IsNearest.le_of_lt (h : IsNearest z n) {k : Nat} (hk : z < k) : n ≤ k := by
  refine Nat.le_of_not_lt fun hlt => ?_
  have hone : (k : ℚ) + 1 ≤ n := by exact_mod_cast hlt
  linarith [h.high]

/-- From the middle between an odd number and the next one the way goes up. -/
theorem IsNearest.lt_iff_of_odd (h : IsNearest z n) {k : Nat} (hk : k % 2 = 1) :
    n < k + 1 ↔ z < k + 1 / 2 := by
  constructor
  · intro hlt
    have hle : (n : ℚ) ≤ k := by exact_mod_cast Nat.lt_succ_iff.mp hlt
    refine lt_of_le_of_ne (by linarith [h.low]) fun heq => ?_
    have hsame : n = k := by
      have hge : (k : ℚ) ≤ n := by linarith [h.low]
      exact_mod_cast le_antisymm hle hge
    rw [hsame] at h
    have heven := h.even (.inl heq)
    omega
  · intro hlt
    have hle : (n : ℚ) < (k + 1 : Nat) := by
      push_cast
      linarith [h.high]
    exact_mod_cast hle

/-- Before the middle the lower whole number is nearest. -/
theorem isNearest_below (hlow : (n : ℚ) ≤ z) (hhigh : z < n + 1 / 2) : IsNearest z n :=
  ⟨hhigh.le, by linarith, by rintro (h | h) <;> linarith⟩

/-- Behind the middle the upper one is. -/
theorem isNearest_above (hlow : (n : ℚ) + 1 / 2 < z) (hhigh : z < n + 1) :
    IsNearest z (n + 1) := by
  have hnext : ((n + 1 : Nat) : ℚ) = n + 1 := Nat.cast_succ n
  constructor
  · linarith
  · linarith
  · rintro (h | h) <;> linarith

/-- In the middle the even one is taken. -/
theorem isNearest_middle (h : z = n + 1 / 2) : IsNearest z (n + n % 2) := by
  rcases Nat.mod_two_eq_zero_or_one n with heven | hodd
  · rw [heven]
    exact ⟨h.le, by push_cast; linarith, fun _ => heven⟩
  · have hnext : ((n + 1 : Nat) : ℚ) = n + 1 := Nat.cast_succ n
    rw [hodd]
    exact ⟨by linarith, by linarith, fun _ => by omega⟩

/-- The rounded digits are those nearest to what is described. -/
theorem Describes.isNearest (h : Describes em z) : IsNearest z em.roundedMantissa := by
  obtain ⟨mantissa, round, sticky⟩ := em
  have hstart (hsticky : sticky = false) := h.sticky.mp hsticky
  have hmiddle : sticky = true → z ≠ mantissa + 1 / 2 := by
    rintro rfl heq
    cases h.sticky.mpr (.inr heq)
  cases round with
  | false =>
    have hless : z < mantissa + 1 / 2 := not_le.mp (mt h.round.mpr Bool.false_ne_true)
    cases sticky <;> exact isNearest_below h.low hless
  | true =>
    have hmore : (mantissa : ℚ) + 1 / 2 ≤ z := h.round.mp rfl
    cases sticky with
    | false => exact isNearest_middle ((hstart rfl).resolve_left (by dsimp only; linarith))
    | true => exact isNearest_above (lt_of_le_of_ne hmore (hmiddle rfl).symm) h.high

end Nearest

section Shift
variable {em : ExtendedMantissa} {z : ℚ} {m : Nat}

/-- Without a rest nothing lies behind the whole number. -/
theorem describes_exact (m : Nat) : Describes (.ofMantissaAndAccuracy m .exact) m where
  low := le_refl _
  high := lt_add_one _
  round := iff_of_false Bool.false_ne_true (not_le.mpr (lt_add_of_pos_right _ one_half_pos))
  sticky := iff_of_true rfl (.inl rfl)

/-- The last digit becomes the round bit. -/
theorem shiftRightOne_cases (em : ExtendedMantissa) :
    em.shiftRightOne.roundBit = false ∧ (em.mantissa : ℚ) = 2 * em.shiftRightOne.mantissa ∨
      em.shiftRightOne.roundBit = true ∧ (em.mantissa : ℚ) = 2 * em.shiftRightOne.mantissa + 1 := by
  have hparts : (em.mantissa : ℚ) = 2 * (em.mantissa / 2 : Nat) + (em.mantissa % 2 : Nat) := by
    exact_mod_cast (Nat.div_add_mod em.mantissa 2).symm
  rw [ExtendedMantissa.shiftRightOne]
  rcases Nat.mod_two_eq_zero_or_one em.mantissa with hdigit | hdigit
  · rw [hdigit, Nat.cast_zero, add_zero] at hparts
    exact .inl ⟨by rw [hdigit]; rfl, hparts⟩
  · rw [hdigit, Nat.cast_one] at hparts
    exact .inr ⟨by rw [hdigit]; rfl, hparts⟩

/-- Whatever was behind the last digit makes the new bit sticky. -/
theorem Describes.shiftRightOne (h : Describes em z) : Describes em.shiftRightOne (z / 2) := by
  have hlow := h.low
  have hhigh := h.high
  have hexact : em.shiftRightOne.stickyBit = false ↔ z = em.mantissa := by
    change (em.roundBit || em.stickyBit) = false ↔ _
    rw [Bool.or_eq_false_iff, h.sticky, ← Bool.not_eq_true, h.round]
    constructor
    · rintro ⟨hless, heq | heq⟩
      · exact heq
      · exact absurd heq.ge hless
    · intro heq
      exact ⟨by linarith, .inl heq⟩
  rcases shiftRightOne_cases em with ⟨hround, hparts⟩ | ⟨hround, hparts⟩
  · refine ⟨by linarith, by linarith, ?_, hexact.trans ⟨fun heq => .inl (by linarith), ?_⟩⟩
    · exact iff_of_false (Bool.eq_false_iff.mp hround) (by linarith)
    · rintro (heq | heq) <;> linarith
  · refine ⟨by linarith, by linarith, ?_, hexact.trans ⟨fun heq => .inr (by linarith), ?_⟩⟩
    · exact iff_of_true hround (by linarith)
    · rintro (heq | heq) <;> linarith

/-- By induction on the digits that are shifted out, each of which halves the fraction. -/
theorem Describes.shiftRight (h : Describes em z) (n : Nat) :
    Describes (em >>> n) (z / 2 ^ n) := by
  change Describes (n.repeat ExtendedMantissa.shiftRightOne em) (z / 2 ^ n)
  induction n with
  | zero => rwa [pow_zero, div_one]
  | succ n ih =>
    rw [pow_succ, ← div_div]
    exact ih.shiftRightOne

end Shift

/-- Whole number and exponent of a double nearest to a number that is not negative. The number has
53 binary digits before the point, or fewer with the least exponent. -/
structure IsRounding (x : ℚ) (n : Nat) (t : Int) : Prop where
  low : -1074 ≤ t
  short : x / 2 ^ t < 2 ^ 53
  full : 2 ^ 52 ≤ x / 2 ^ t ∨ t = -1074
  nearest : IsNearest (x / 2 ^ t) n

section Target
variable {m n : Nat} {e t : Int} {acc : Accuracy} {z : ℚ}

/-- The exponent is the one that leaves 53 digits, but no less than the least. -/
theorem targetExponent_eq (m : Nat) (e : Int) :
    Format.binary64.targetExponent (totalExponent m e) = max (m.log2 - 52 + e) (-1074) := by
  change max ((m.log2 : Int) + 1 + e - (1 + 52 : Nat)) (3 - 2 ^ 10 - (1 + 52 : Nat)) = _
  omega

/-- All digits beyond those are shifted out. -/
theorem shiftToTargetExponent_eq (m : Nat) (e : Int) (acc : Accuracy) :
    UnpackedFloat.shiftToTargetExponent .binary64 m e acc =
      (ExtendedMantissa.ofMantissaAndAccuracy m acc >>>
          (max ((m.log2 : Int) - 52 + e) (-1074) - e).toNat,
        e + (max ((m.log2 : Int) - 52 + e) (-1074) - e).toNat) := by
  rw [UnpackedFloat.shiftToTargetExponent, targetExponent_eq]
  rfl

theorem mantissa_ofMantissaAndAccuracy (m : Nat) (acc : Accuracy) :
    (ExtendedMantissa.ofMantissaAndAccuracy m acc).mantissa = m := by
  rcases acc with - | o
  · rfl
  · cases o <;> rfl

/-- With digits enough, or an exponent that is low enough, the shift comes to the digits that are
kept. -/
theorem exists_shiftToTargetExponent (hz : Describes (.ofMantissaAndAccuracy m acc) z)
    (henough : 2 ^ 52 ≤ m ∨ e ≤ -1074) :
    ∃ em t, UnpackedFloat.shiftToTargetExponent .binary64 m e acc = (em, t) ∧
      IsRounding (z * 2 ^ e) em.roundedMantissa t := by
  have hlow : (m : ℚ) ≤ z := mantissa_ofMantissaAndAccuracy m acc ▸ hz.low
  have hhigh : z < m + 1 := mantissa_ofMantissaAndAccuracy m acc ▸ hz.high
  have hdigits : 2 ^ 52 ≤ m → 52 ≤ m.log2 := fun h =>
    (Nat.le_log2 (Nat.ne_of_gt (Nat.lt_of_lt_of_le (by decide) h))).mpr h
  obtain ⟨k, hk⟩ : ∃ k : Nat, (k : Int) = max ((m.log2 : Int) - 52 + e) (-1074) - e :=
    ⟨_, Int.toNat_of_nonneg (by omega)⟩
  have hscale : z * 2 ^ e / 2 ^ (e + k) = z / 2 ^ k := by
    rw [zpow_add₀ two_ne_zero, zpow_natCast, mul_comm z, mul_div_mul_left _ _ (by positivity)]
  rw [shiftToTargetExponent_eq, ← hk, Int.toNat_natCast]
  refine ⟨_, _, rfl, by omega, ?_, ?_, ?_⟩
  · have hless := mul_lt_two_pow (by omega : m.log2 + 0 < 53 + k)
    rw [Nat.pow_zero, Nat.mul_one] at hless
    have hbound : (m : ℚ) + 1 ≤ 2 ^ (53 + k) := by exact_mod_cast hless
    rw [hscale, div_lt_iff₀ (by positivity), ← pow_add]
    exact hhigh.trans_le hbound
  · rw [hscale, le_div_iff₀ (by positivity), ← pow_add]
    by_cases hleast : e + k = -1074
    · exact .inr hleast
    · have hlog : m.log2 = 52 + k := by omega
      have hne : m ≠ 0 := by
        rintro rfl
        rw [Nat.log2_zero] at hlog
        omega
      have hpow : (2 : ℚ) ^ (52 + k) ≤ m := by exact_mod_cast hlog ▸ Nat.log2_self_le hne
      exact .inl (hpow.trans hlow)
  · rw [hscale]
    exact (hz.shiftRight k).isNearest

/-- Digits that were rounded are few enough. -/
theorem shiftToTargetExponent_of_short (hn : n < 2 ^ 53) (ht : -1074 ≤ t) :
    UnpackedFloat.shiftToTargetExponent .binary64 n t .exact =
      (.ofMantissaAndAccuracy n .exact, t) := by
  have hlog : n.log2 ≤ 52 := by
    rcases Nat.eq_zero_or_pos n with rfl | hpos
    · rw [Nat.log2_zero]
      exact Nat.zero_le 52
    · exact Nat.lt_succ_iff.mp ((Nat.log2_lt (Nat.ne_of_gt hpos)).mpr hn)
  have hshift : (max ((n.log2 : Int) - 52 + t) (-1074) - t).toNat = 0 := by omega
  rw [shiftToTargetExponent_eq, hshift]
  exact congrArg _ (Int.add_zero t)

/-- Or they are one too many, and all but the first are zero. -/
theorem shiftToTargetExponent_of_carry (ht : -1074 ≤ t) :
    UnpackedFloat.shiftToTargetExponent .binary64 (2 ^ 53) t .exact =
      (ExtendedMantissa.ofMantissaAndAccuracy (2 ^ 52) .exact, t + 1) := by
  have hshift : (max (((2 ^ 53 : Nat).log2 : Int) - 52 + t) (-1074) - t).toNat = 1 := by
    rw [Nat.log2_two_pow]
    omega
  rw [shiftToTargetExponent_eq, hshift]
  rfl

/-- The rounded number in canonical form, apart from exponents that are too great. -/
theorem exists_roundWithAccuracy (s : Sign) (hz : Describes (.ofMantissaAndAccuracy m acc) z)
    (henough : 2 ^ 52 ≤ m ∨ e ≤ -1074) :
    ∃ n t, IsRounding (z * 2 ^ e) n t ∧
      ((n = 0 ∧ UnpackedFloat.roundWithAccuracy .binary64 s m e acc = .zero s) ∨
        ∃ k f hk, UnpackedFloat.roundWithAccuracy .binary64 s m e acc = .finite s k f hk ∧
          (k : ℚ) * 2 ^ f = n * 2 ^ t ∧ -1074 ≤ f ∧ k < 2 ^ 53 ∧ (2 ^ 52 ≤ k ∨ f = -1074)) := by
  obtain ⟨em, t, hshift, hround⟩ := exists_shiftToTargetExponent hz henough
  refine ⟨em.roundedMantissa, t, hround, ?_⟩
  rw [UnpackedFloat.roundWithAccuracy, hshift]
  dsimp only
  have hmost : em.roundedMantissa ≤ 2 ^ 53 :=
    hround.nearest.le_of_lt (by exact_mod_cast hround.short)
  have hleast : 2 ^ 52 ≤ em.roundedMantissa ∨ t = -1074 :=
    hround.full.imp_left fun h => hround.nearest.le_of_le (by exact_mod_cast h)
  have hlow := hround.low
  generalize em.roundedMantissa = n at hmost hleast
  rcases Nat.lt_or_eq_of_le hmost with hshort | rfl
  · rw [shiftToTargetExponent_of_short hshort hlow]
    dsimp only [ExtendedMantissa.ofMantissaAndAccuracy]
    by_cases h : n = 0
    · exact .inl ⟨h, dif_pos h⟩
    · exact .inr ⟨n, t, Nat.pos_of_ne_zero h, dif_neg h, rfl, hlow, hshort, hleast⟩
  · rw [shiftToTargetExponent_of_carry hlow]
    refine .inr ⟨2 ^ 52, t + 1, by decide, rfl, ?_, by omega, by decide, .inl (le_refl _)⟩
    rw [zpow_add_one₀ two_ne_zero]
    push_cast
    ring

end Target
end RandomTables.Decimal
