import RandomTables.Decimal.Percent
import RandomTables.Proofs.Decimal.Arithmetic
import RandomTables.Proofs.Decimal.Numeral

namespace RandomTables.Decimal
open Float.Model
open UnpackedFloat (Sign)

def isNegative : Sign → Bool
  | .negative => true
  | .positive => false

/-- The sign is the first bit. -/
theorem isNegative_ofBitVec (v : BitVec 1) : isNegative (Sign.ofBitVec v) = (v.toNat == 1) := by
  have hlt := v.isLt
  rw [Sign.ofBitVec]
  split
  · rename_i hzero
    rw [hzero]
    rfl
  · rename_i hone
    have hnat : v.toNat ≠ 0 := fun h => hone (BitVec.eq_of_toNat_eq h)
    have heq : v.toNat = 1 := by omega
    rw [heq]
    rfl

/-- The bits of a double, taken apart, give the number that it is unpacked to. -/
theorem ofFloat_eq (x : Float) : Binary.ofFloat x = match x.toModel.unpack with
    | .notANumber => .nan
    | .infinity s => .infinite (isNegative s)
    | .zero s => .finite (isNegative s) 0 (-1074)
    | .finite s m e _ => .finite (isNegative s) m e := by
  have hbits : x.toBits.toNat = x.toModel.toBits.toBitVec.toNat := rfl
  rw [Binary.ofFloat, Float.Model.unpack, hbits]
  generalize x.toModel.toBits.toBitVec = b
  have hsign : (b.toNat >>> 63 == 1) = isNegative (Sign.ofBitVec
      (@UnpackedFloat.unpackSign .binary64 b)) := by
    have hlt := b.isLt
    rw [isNegative_ofBitVec, UnpackedFloat.unpackSign, BitVec.toNat_cast, BitVec.extractLsb_toNat]
    change (b.toNat >>> 63 == 1) = (b.toNat >>> 63 % 2 == 1)
    rw [Nat.shiftRight_eq_div_pow, Nat.mod_eq_of_lt]
    change b.toNat < 2 ^ 64 at hlt
    omega
  have hexponent : (b.toNat >>> 52) % 0x800 =
      (@UnpackedFloat.unpackExponent .binary64 b).toNat := by
    rw [UnpackedFloat.unpackExponent, BitVec.toNat_cast, BitVec.extractLsb_toNat]
    rfl
  have hmantissa : b.toNat % (1 <<< 52) =
      (@UnpackedFloat.unpackMantissa .binary64 b).toNat := by
    rw [UnpackedFloat.unpackMantissa, BitVec.toNat_cast, BitVec.extractLsb_toNat]
    rfl
  rw [hsign, hexponent, hmantissa]
  have hmost : (@UnpackedFloat.unpackExponent .binary64 b).toNat = 2047 ↔
      @UnpackedFloat.unpackExponent .binary64 b = -1#11 :=
    BitVec.toNat_inj (y := -1#11)
  have hleast : (@UnpackedFloat.unpackExponent .binary64 b).toNat = 0 ↔
      @UnpackedFloat.unpackExponent .binary64 b = 0#11 :=
    BitVec.toNat_inj (y := 0#11)
  have hzero : (@UnpackedFloat.unpackMantissa .binary64 b).toNat = 0 ↔
      @UnpackedFloat.unpackMantissa .binary64 b = 0#52 :=
    BitVec.toNat_inj (y := 0#52)
  simp only [hmost, hleast]
  fun_cases UnpackedFloat.unpack with
  | case1 _ _ _ _ h h' => rw [if_pos h, if_pos (hzero.mpr h')]
  | case2 _ _ h h' => rw [if_pos h, if_neg (mt hzero.mp h')]
  | case3 _ _ _ _ h h' h'' => rw [if_neg h, if_pos h', hzero.mpr h'']
  | case4 _ exponent value _ _ h h' =>
    have hvalue : value + 1 = -1074 := by
      change (exponent.toNat : Int) - (1023 + 52) + 1 = _
      rw [h']
      rfl
    rw [if_neg h, if_pos h', hvalue]
  | case5 mantissa _ _ _ _ h h' =>
    have hleading : 1 <<< 52 + mantissa.toNat = (1#1 ++ mantissa).toNat :=
      (toNat_leading mantissa).symm
    rw [if_neg h, if_neg h', hleading]
    rfl

/-- A finite double has its magnitude from its mantissa and exponent, and its sign from its bits. -/
theorem exists_finite {x : Float} (h : x.isFinite = true) : ∃ negative m e,
    Binary.ofFloat x = .finite negative m e ∧ |value x| = m * 2 ^ e ∧
      (value x < 0 → negative = true) ∧ (0 < value x → negative = false) := by
  rw [ofFloat_eq, value]
  change x.toModel.unpack.isFinite = true at h
  generalize x.toModel.unpack = u at h
  obtain ⟨s, rfl⟩ | ⟨m, e, hm, rfl⟩ | ⟨m, e, hm, rfl⟩ := finite_cases h
  · refine ⟨isNegative s, 0, -1074, rfl, ?_, fun h => absurd h (lt_irrefl 0),
      fun h => absurd h (lt_irrefl 0)⟩
    simp [unpackedValue]
  · have hneg := unpackedValue_neg (e := e) hm
    refine ⟨true, m, e, rfl, ?_, fun _ => rfl, fun hpos => absurd hneg (not_lt.mpr hpos.le)⟩
    rw [abs_of_neg hneg, unpackedValue_negative, neg_neg]
  · have hpos := unpackedValue_pos (e := e) hm
    refine ⟨false, m, e, rfl, ?_, fun hneg => absurd hneg (not_lt.mpr hpos.le), fun _ => rfl⟩
    rw [abs_of_pos hpos, unpackedValue_positive]

/-- Digits in front count for as many powers of ten as digits stand behind them. -/
theorem natOfDigits_append (digits more : List Char) :
    natOfDigits (digits ++ more) = natOfDigits digits * 10 ^ more.length + natOfDigits more := by
  induction more using List.reverseRecOn with
  | nil => simp
  | append_singleton more c ih =>
    rw [← List.append_assoc, natOfDigits_concat, natOfDigits_concat, ih, List.length_append,
      List.length_singleton, pow_succ]
    ring

theorem natOfDigits_zeros (n : Nat) : natOfDigits (List.replicate n '0') = 0 := by
  induction n with
  | zero => rfl
  | succ n ih => rw [List.replicate_succ', natOfDigits_concat, ih]; rfl

/-- A literal with a number of places after its point, whose last place is right: no literal of the
kind is nearer to the number. -/
structure IsFixedPlaces (places : Nat) (x : ℚ) (literal : List Char) : Prop where
  parts : ∃ whole fraction, literal = whole ++ '.' :: fraction ∧ whole ≠ [] ∧
    fraction.length = places ∧ ∀ c ∈ whole ++ fraction, Text.isDigit c = true
  near : |literalValue literal - x| * 10 ^ places ≤ 1 / 2

/-- A literal with a point denotes its digits over as many tens as places. -/
theorem literalValue_parts {whole fraction : List Char} (h : ∀ c ∈ whole, Text.isDigit c = true) :
    literalValue (whole ++ '.' :: fraction) =
      natOfDigits (whole ++ fraction) / 10 ^ fraction.length := by
  have htake : (whole ++ '.' :: fraction).takeWhile Text.isDigit = whole := by
    rw [List.takeWhile_append_of_pos h]
    simp [Text.isDigit]
  have hdrop : (whole ++ '.' :: fraction).drop (whole.length + 1) = fraction := by
    simp
  rw [literalValue]
  simp only [htake, hdrop]

/-- The quotient is rounded by at most one half. -/
theorem abs_roundHalfEven_sub_le (numerator : Nat) {denominator : Nat} (h : 0 < denominator) :
    |(roundHalfEven numerator denominator : ℚ) - numerator / denominator| ≤ 1 / 2 := by
  obtain ⟨hlow, hhigh⟩ := roundHalfEven_near numerator h
  generalize roundHalfEven numerator denominator = rounded at hlow hhigh
  have hpos : (0 : ℚ) < denominator := by exact_mod_cast h
  have hlow' : 2 * (numerator : ℚ) ≤ 2 * rounded * denominator + denominator := by
    exact_mod_cast hlow
  have hhigh' : 2 * (rounded : ℚ) * denominator ≤ 2 * numerator + denominator := by
    exact_mod_cast hhigh
  have hquotient : (rounded : ℚ) - numerator / denominator =
      (rounded * denominator - numerator) / denominator := by
    field_simp
  rw [hquotient, abs_div, abs_of_pos hpos, div_le_iff₀ hpos, abs_le]
  constructor <;> linarith

/-- The shifted numbers have the quotient that is to be rounded. -/
theorem shifted_div (m : Nat) (e : Int) :
    ((m <<< e.toNat : Nat) : ℚ) / (1 <<< (-e).toNat : Nat) = m * 2 ^ e := by
  rw [Nat.shiftLeft_eq, Nat.shiftLeft_eq, one_mul, Nat.cast_mul, Nat.cast_pow, Nat.cast_pow,
    Nat.cast_ofNat]
  rcases Int.le_total 0 e with he | he
  · obtain ⟨k, rfl⟩ := Int.eq_ofNat_of_zero_le he
    simp
  · obtain ⟨k, hk⟩ := Int.eq_ofNat_of_zero_le (Int.neg_nonneg.mpr he)
    obtain rfl : e = -k := by omega
    simp [div_eq_mul_inv]

/-- The quotient by a power of ten is rounded once, and its last digits become the places. -/
theorem isFixedPlaces {places : Nat} (h : 0 < places) (m : Nat) (e : Int) :
    IsFixedPlaces places (m * 2 ^ e) (fixedPlaces places m e) := by
  have hpos : 0 < 1 <<< (-e).toNat := by
    rw [Nat.shiftLeft_eq, one_mul]
    positivity
  have hround := abs_roundHalfEven_sub_le ((m * 10 ^ places) <<< e.toNat) hpos
  rw [shifted_div] at hround
  change IsFixedPlaces places _ (let units := roundHalfEven ((m * 10 ^ places) <<< e.toNat) _;
    Nat.toDigits 10 (units / 10 ^ places) ++ '.' ::
      (Nat.toDigits 10 (units % 10 ^ places)).leftpad places '0')
  generalize roundHalfEven ((m * 10 ^ places) <<< e.toNat) (1 <<< (-e).toNat) = units at hround ⊢
  dsimp only
  have hunit : (0 : ℚ) < 10 ^ places := by positivity
  have hshort : (Nat.toDigits 10 (units % 10 ^ places)).length ≤ places :=
    (Nat.length_toDigits_le_iff (by decide) h).mpr (Nat.mod_lt _ (by positivity))
  have hlength : ((Nat.toDigits 10 (units % 10 ^ places)).leftpad places '0').length = places := by
    rw [List.length_leftpad]
    omega
  have hdigits : ∀ c ∈ Nat.toDigits 10 (units / 10 ^ places) ++
      (Nat.toDigits 10 (units % 10 ^ places)).leftpad places '0', Text.isDigit c = true := by
    simp only [List.leftpad, List.forall_mem_append]
    refine ⟨isDigit_of_mem_toDigits _, fun c hc => ?_, isDigit_of_mem_toDigits _⟩
    rw [List.eq_of_mem_replicate hc]
    rfl
  have hvalue : natOfDigits (Nat.toDigits 10 (units / 10 ^ places) ++
      (Nat.toDigits 10 (units % 10 ^ places)).leftpad places '0') = units := by
    rw [natOfDigits_append, hlength, List.leftpad, natOfDigits_append, natOfDigits_zeros,
      natOfDigits_toDigits, natOfDigits_toDigits, Nat.zero_mul, Nat.zero_add]
    exact Nat.div_add_mod' units (10 ^ places)
  refine ⟨⟨_, _, rfl, Nat.toDigits_ne_nil, hlength, hdigits⟩, ?_⟩
  rw [literalValue_parts (List.forall_mem_append.mp hdigits).1, hvalue, hlength,
    ← abs_of_pos hunit, ← abs_mul, abs_of_pos hunit, sub_mul, div_mul_cancel₀ _ hunit.ne']
  rwa [Nat.cast_mul, Nat.cast_pow, Nat.cast_ofNat, mul_right_comm] at hround

/-- What a column tells of a share. The hundredfold of the share stands there with its sign and with
the places that the format has. If it is no number, that is what stands there. -/
structure PercentFormat.Shows (format : PercentFormat) (share : Float) (text : String) : Prop where
  number : (share * 100).isFinite = true → ∃ negative literal,
    text = format.sign negative ++ String.ofList literal ++ "%" ∧
      (value (share * 100) < 0 → negative = true) ∧ (0 < value (share * 100) → negative = false) ∧
      IsFixedPlaces format.places |value (share * 100)| literal
  noNumber : (share * 100).isFinite = false →
    text = format.sign false ++ "nan%" ∨ ∃ negative, text = format.sign negative ++ "inf%"

/-- By the kind of the product with a hundred, which is a number, an infinity or NaN. -/
theorem PercentFormat.shows_render {format : PercentFormat} (h : 0 < format.places)
    (share : Float) : format.Shows share (format.render share) := by
  constructor
  case number =>
    intro hfinite
    obtain ⟨negative, m, e, hbits, hvalue, hneg, hpos⟩ := exists_finite hfinite
    refine ⟨negative, fixedPlaces format.places m e, ?_, hneg, hpos, ?_⟩
    · rw [render, hbits]
    · rw [hvalue]
      exact isFixedPlaces h m e
  case noNumber =>
    intro hfinite
    change (share * 100).toModel.unpack.isFinite = false at hfinite
    rw [render, ofFloat_eq]
    cases hunpack : (share * 100).toModel.unpack with
    | notANumber => exact .inl rfl
    | infinity s => exact .inr ⟨isNegative s, rfl⟩
    | zero | finite =>
      rw [hunpack] at hfinite
      cases hfinite

end RandomTables.Decimal
