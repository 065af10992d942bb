import RandomTables.Proofs.Decimal.Packing

namespace RandomTables.Decimal
open Float.Model
open UnpackedFloat (Sign)

/-- The numbers, with an infinity below and one above them all. -/
abbrev NumberLine : Type := WithBot (WithTop ℚ)

def NumberLine.number (q : ℚ) : NumberLine :=
  ((q : WithTop ℚ) : WithBot (WithTop ℚ))

open NumberLine (number)

section Line
variable {p q : ℚ}

@[simp] theorem number_lt_number : number p < number q ↔ p < q :=
  WithBot.coe_lt_coe.trans WithTop.coe_lt_coe

@[simp] theorem number_le_number : number p ≤ number q ↔ p ≤ q :=
  WithBot.coe_le_coe.trans WithTop.coe_le_coe

theorem bot_lt_number (q : ℚ) : ⊥ < number q :=
  WithBot.bot_lt_coe _

theorem number_lt_top (q : ℚ) : number q < ⊤ :=
  WithBot.coe_lt_coe.mpr (WithTop.coe_lt_top q)

/-- Numbers are compared as places on the line. -/
theorem compare_number (p q : ℚ) : compare (number p) (number q) = compare p q := by
  rcases lt_trichotomy p q with hlt | rfl | hgt
  · rw [compare_lt_iff_lt.mpr hlt, compare_lt_iff_lt.mpr (number_lt_number.mpr hlt)]
  · rw [compare_eq_iff_eq.mpr rfl, compare_eq_iff_eq.mpr rfl]
  · rw [compare_gt_iff_gt.mpr hgt, compare_gt_iff_gt.mpr (number_lt_number.mpr hgt)]

theorem swap_compare (p q : ℚ) : (compare p q).swap = compare (-p) (-q) := by
  rcases lt_trichotomy p q with hlt | rfl | hgt
  · rw [compare_lt_iff_lt.mpr hlt, compare_gt_iff_gt.mpr (neg_lt_neg hlt)]
    rfl
  · rw [compare_eq_iff_eq.mpr rfl, compare_eq_iff_eq.mpr rfl]
    rfl
  · rw [compare_gt_iff_gt.mpr hgt, compare_lt_iff_lt.mpr (neg_lt_neg hgt)]
    rfl

end Line

def unpackedValue : UnpackedFloat → ℚ
  | .finite s m e _ => s.apply m * 2 ^ e
  | _ => 0

def unpackedPlace : UnpackedFloat → NumberLine
  | .infinity .negative => ⊥
  | .infinity .positive => ⊤
  | u => number (unpackedValue u)

section Unpacked
variable {m n : Nat} {e f : Int} {u v : UnpackedFloat}

/-- Of two canonical forms, that with the greater exponent is the greater number, as its mantissa
has all digits. -/
theorem lt_of_exponent_lt (hm : IsCanonical m e) (hn : IsCanonical n f) (h : e < f) :
    (m : ℚ) * 2 ^ e < n * 2 ^ f := by
  have hfull : (2 : ℚ) ^ 52 ≤ n := by
    have hlow := hm.low
    exact_mod_cast hn.full.resolve_right (by omega)
  have hshort : (m : ℚ) < 2 ^ 53 := by exact_mod_cast hm.short
  calc (m : ℚ) * 2 ^ e < 2 ^ 53 * 2 ^ e := by gcongr
    _ = 2 ^ 52 * 2 ^ (e + 1) := by rw [zpow_add_one₀ two_ne_zero]; ring
    _ ≤ n * 2 ^ f := by
      gcongr
      · norm_num
      · omega

/-- In canonical form the greater exponent makes the greater number, and with equal exponents the
greater mantissa does. -/
theorem compare_canonical (hm : IsCanonical m e) (hn : IsCanonical n f) :
    (compare e f).then (compare m n) = compare ((m : ℚ) * 2 ^ e) (n * 2 ^ f) := by
  rcases lt_trichotomy e f with hlt | rfl | hgt
  · rw [compare_lt_iff_lt.mpr hlt, compare_lt_iff_lt.mpr (lt_of_exponent_lt hm hn hlt)]
    rfl
  · rw [compare_eq_iff_eq.mpr rfl, Ordering.then]
    rcases lt_trichotomy m n with hlt | rfl | hgt
    · have hless : (m : ℚ) * 2 ^ e < n * 2 ^ e := by gcongr
      rw [compare_lt_iff_lt.mpr hlt, compare_lt_iff_lt.mpr hless]
    · rw [compare_eq_iff_eq.mpr rfl, compare_eq_iff_eq.mpr rfl]
    · have hmore : (n : ℚ) * 2 ^ e < m * 2 ^ e := by gcongr
      rw [compare_gt_iff_gt.mpr hgt, compare_gt_iff_gt.mpr hmore]
  · rw [compare_gt_iff_gt.mpr hgt, compare_gt_iff_gt.mpr (lt_of_exponent_lt hn hm hgt)]
    rfl

theorem unpackedValue_positive (hm : 0 < m) :
    unpackedValue (.finite .positive m e hm) = m * 2 ^ e := by
  simp only [unpackedValue, Sign.apply, Int.cast_natCast]

theorem unpackedValue_negative (hm : 0 < m) :
    unpackedValue (.finite .negative m e hm) = -(m * 2 ^ e) := by
  simp only [unpackedValue, Sign.apply, Int.cast_neg, Int.cast_natCast, neg_mul]

/-- A positive mantissa with a positive sign makes a positive number. -/
theorem unpackedValue_pos (hm : 0 < m) : 0 < unpackedValue (.finite .positive m e hm) := by
  rw [unpackedValue_positive]
  positivity

theorem unpackedValue_neg (hm : 0 < m) : unpackedValue (.finite .negative m e hm) < 0 := by
  rw [unpackedValue_negative, neg_lt_zero]
  positivity

/-- A finite number is zero or has a sign. -/
theorem finite_cases (h : u.isFinite = true) :
    (∃ s, u = .zero s) ∨ (∃ m e hm, u = .finite .negative m e hm) ∨
      ∃ m e hm, u = .finite .positive m e hm := by
  cases u with
  | infinity | notANumber => cases h
  | zero s => exact .inl ⟨s, rfl⟩
  | finite s m e hm =>
    cases s with
    | negative => exact .inr (.inl ⟨m, e, hm, rfl⟩)
    | positive => exact .inr (.inr ⟨m, e, hm, rfl⟩)

/-- What is not NaN is finite or one of the two infinities. -/
theorem finite_or_infinite (h : u.isNaN = false) :
    u.isFinite = true ∨ u = .infinity .negative ∨ u = .infinity .positive := by
  cases u with
  | notANumber => cases h
  | infinity s => cases s <;> simp
  | zero | finite => exact .inl rfl

theorem unpackedPlace_of_finite (h : u.isFinite = true) :
    unpackedPlace u = number (unpackedValue u) := by
  cases u with
  | infinity | notANumber => cases h
  | zero | finite => rfl

/-- Numbers are compared by their values. -/
theorem compare_of_finite (hu : IsDouble u) (hv : IsDouble v) (hu' : u.isFinite = true)
    (hv' : v.isFinite = true) :
    u.compare v = some (compare (unpackedValue u) (unpackedValue v)) := by
  have less {p q : ℚ} (h : p < q) : some Ordering.lt = some (compare p q) :=
    congrArg some (compare_lt_iff_lt.mpr h).symm
  have more {p q : ℚ} (h : q < p) : some Ordering.gt = some (compare p q) :=
    congrArg some (compare_gt_iff_gt.mpr h).symm
  rcases finite_cases hu' with ⟨s, rfl⟩ | ⟨m, e, hm, rfl⟩ | ⟨m, e, hm, rfl⟩ <;>
    rcases finite_cases hv' with ⟨t, rfl⟩ | ⟨n, f, hn, rfl⟩ | ⟨n, f, hn, rfl⟩
  · exact congrArg some (compare_eq_iff_eq.mpr rfl).symm
  · exact more (unpackedValue_neg hn)
  · exact less (unpackedValue_pos hn)
  · exact less (unpackedValue_neg hm)
  · rw [UnpackedFloat.compare, compare_canonical hu hv, swap_compare, unpackedValue_negative,
      unpackedValue_negative]
  · exact less ((unpackedValue_neg hm).trans (unpackedValue_pos hn))
  · exact more (unpackedValue_pos hm)
  · exact more ((unpackedValue_neg hn).trans (unpackedValue_pos hm))
  · rw [UnpackedFloat.compare, compare_canonical hu hv, unpackedValue_positive,
      unpackedValue_positive]

/-- An infinity is on its side of every number. -/
theorem compare_infinity (h : u.isFinite = true) (s : Sign) :
    (UnpackedFloat.infinity s).compare u =
        some (compare (unpackedPlace (.infinity s)) (unpackedPlace u)) ∧
      u.compare (.infinity s) =
        some (compare (unpackedPlace u) (unpackedPlace (.infinity s))) := by
  have hleast := bot_lt_number (unpackedValue u)
  have hmost := number_lt_top (unpackedValue u)
  rw [unpackedPlace_of_finite h]
  cases s with
  | negative =>
    rw [unpackedPlace, compare_lt_iff_lt.mpr hleast, compare_gt_iff_gt.mpr hleast]
    cases u with
    | infinity | notANumber => cases h
    | zero | finite => exact ⟨rfl, rfl⟩
  | positive =>
    rw [unpackedPlace, compare_lt_iff_lt.mpr hmost, compare_gt_iff_gt.mpr hmost]
    cases u with
    | infinity | notANumber => cases h
    | zero | finite => exact ⟨rfl, rfl⟩

/-- Whatever is not NaN is compared by its place. -/
theorem compare_eq_place (hu : IsDouble u) (hv : IsDouble v) (hu' : u.isNaN = false)
    (hv' : v.isNaN = false) : u.compare v = some (compare (unpackedPlace u) (unpackedPlace v)) := by
  have hfar : unpackedPlace (.infinity .negative) < unpackedPlace (.infinity .positive) :=
    (bot_lt_number 0).trans (number_lt_top 0)
  rcases finite_or_infinite hu' with hu' | rfl | rfl <;>
    rcases finite_or_infinite hv' with hv' | rfl | rfl
  · rw [compare_of_finite hu hv hu' hv', unpackedPlace_of_finite hu', unpackedPlace_of_finite hv',
      compare_number]
  · exact (compare_infinity hu' _).2
  · exact (compare_infinity hu' _).2
  · exact (compare_infinity hv' _).1
  · exact congrArg some (compare_eq_iff_eq.mpr rfl).symm
  · exact congrArg some (compare_lt_iff_lt.mpr hfar).symm
  · exact (compare_infinity hv' _).1
  · exact congrArg some (compare_gt_iff_gt.mpr hfar).symm
  · exact congrArg some (compare_eq_iff_eq.mpr rfl).symm

/-- What compares in some way is not NaN. -/
theorem not_isNaN_of_compare {o : Ordering} (h : u.compare v = some o) :
    u.isNaN = false ∧ v.isNaN = false := by
  cases u <;> cases v <;> first | exact ⟨rfl, rfl⟩ | cases h

end Unpacked

def value (x : Float) : ℚ :=
  unpackedValue x.toModel.unpack

def place (x : Float) : NumberLine :=
  unpackedPlace x.toModel.unpack

section Doubles
variable {a b c : Float}

theorem place_of_finite (h : a.isFinite = true) : place a = number (value a) :=
  unpackedPlace_of_finite h

theorem place_of_infinity {s : Sign} (h : a.toModel.unpack = .infinity s) :
    place a = unpackedPlace (.infinity s) :=
  congrArg unpackedPlace h

theorem not_isNaN_of_isFinite (h : a.isFinite = true) : a.isNaN = false := by
  change a.toModel.unpack.isFinite = true at h
  change a.toModel.unpack.isNaN = false
  cases hunpack : a.toModel.unpack with
  | notANumber => rw [hunpack] at h; cases h
  | _ => rfl

/-- Doubles are compared in unpacked form. -/
theorem lt_iff_compare : a < b ↔ a.toModel.unpack.compare b.toModel.unpack = some .lt := by
  change decide ((_ == some Ordering.lt) = true) = true ↔ _
  rw [decide_eq_true_iff, beq_iff_eq]

theorem le_iff_compare :
    a ≤ b ↔ (a.toModel.unpack.compare b.toModel.unpack).any (·.isLE) = true := by
  change decide (Option.any _ _ = true) = true ↔ _
  rw [decide_eq_true_iff]

theorem not_isNaN_of_lt (h : a < b) : a.isNaN = false ∧ b.isNaN = false :=
  not_isNaN_of_compare (lt_iff_compare.mp h)

theorem not_isNaN_of_le (h : a ≤ b) : a.isNaN = false ∧ b.isNaN = false := by
  obtain ⟨o, ho, -⟩ := (Option.any_eq_true _ _).mp (le_iff_compare.mp h)
  exact not_isNaN_of_compare ho

/-- Doubles that are not NaN are in the order of their places. -/
theorem lt_iff_place (ha : a.isNaN = false) (hb : b.isNaN = false) :
    a < b ↔ place a < place b := by
  have hcompare := compare_eq_place (isDouble_unpack a.toModel) (isDouble_unpack b.toModel) ha hb
  rw [lt_iff_compare, hcompare, Option.some.injEq, compare_lt_iff_lt]
  rfl

theorem le_iff_place (ha : a.isNaN = false) (hb : b.isNaN = false) :
    a ≤ b ↔ place a ≤ place b := by
  have hcompare := compare_eq_place (isDouble_unpack a.toModel) (isDouble_unpack b.toModel) ha hb
  rw [le_iff_compare, hcompare, Option.any_some]
  exact Ordering.isLE_iff_ne_gt.trans compare_le_iff_le

/-- Finite doubles are in the order of the numbers that they stand for. -/
theorem le_iff_value (ha : a.isFinite = true) (hb : b.isFinite = true) :
    a ≤ b ↔ value a ≤ value b := by
  rw [le_iff_place (not_isNaN_of_isFinite ha) (not_isNaN_of_isFinite hb), place_of_finite ha,
    place_of_finite hb, number_le_number]

protected theorem lt_irrefl (a : Float) : ¬a < a := by
  intro h
  obtain ⟨ha, -⟩ := not_isNaN_of_lt h
  exact lt_irrefl _ ((lt_iff_place ha ha).mp h)

protected theorem le_of_lt (h : a < b) : a ≤ b := by
  obtain ⟨ha, hb⟩ := not_isNaN_of_lt h
  exact (le_iff_place ha hb).mpr ((lt_iff_place ha hb).mp h).le

protected theorem lt_of_le_of_lt (h : a ≤ b) (h' : b < c) : a < c := by
  obtain ⟨ha, hb⟩ := not_isNaN_of_le h
  obtain ⟨-, hc⟩ := not_isNaN_of_lt h'
  rw [le_iff_place ha hb] at h
  rw [lt_iff_place hb hc] at h'
  rw [lt_iff_place ha hc]
  exact h.trans_lt h'

protected theorem lt_of_lt_of_le (h : a < b) (h' : b ≤ c) : a < c := by
  obtain ⟨ha, hb⟩ := not_isNaN_of_lt h
  obtain ⟨-, hc⟩ := not_isNaN_of_le h'
  rw [lt_iff_place ha hb] at h
  rw [le_iff_place hb hc] at h'
  rw [lt_iff_place ha hc]
  exact h.trans_le h'

protected theorem lt_trans (h : a < b) (h' : b < c) : a < c :=
  Decimal.lt_of_lt_of_le h (Decimal.le_of_lt h')

/-- Comparing fails with NaN only, and no double below or above another is NaN. -/
protected theorem le_trans (h : a ≤ b) (h' : b ≤ c) : a ≤ c := by
  obtain ⟨ha, hb⟩ := not_isNaN_of_le h
  obtain ⟨-, hc⟩ := not_isNaN_of_le h'
  rw [le_iff_place ha hb] at h
  rw [le_iff_place hb hc] at h'
  rw [le_iff_place ha hc]
  exact h.trans h'

/-- Doubles that are not NaN compare in one way or the other. -/
theorem not_lt_iff_le (ha : a.isNaN = false) (hb : b.isNaN = false) : ¬a < b ↔ b ≤ a := by
  rw [lt_iff_place ha hb, le_iff_place hb ha, not_lt]

end Doubles

end RandomTables.Decimal
