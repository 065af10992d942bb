import Mathlib

/-! The bits of doubles. A double is unpacked into a sign, a mantissa and an exponent in canonical
form, and what is in canonical form is packed into the bits that it is unpacked from. A number whose
exponent is greater than those of doubles is packed as infinite. -/
namespace RandomTables.Decimal
open Float.Model
open UnpackedFloat (Sign packComponents)

/-- Mantissa and exponent of a double: 53 binary digits, or fewer with the least exponent. -/
structure IsCanonical (m : Nat) (e : Int) : Prop where
  low : -1074 ≤ e
  high : e ≤ 971
  short : m < 2 ^ 53
  full : 2 ^ 52 ≤ m ∨ e = -1074

def IsDouble : UnpackedFloat → Prop
  | .finite _ m e _ => IsCanonical m e
  | _ => True

section Packing
variable {s : Sign} {m : Nat} {e : Int}

/-- The leading digit that the bits leave out comes back in front of the others. -/
theorem toNat_leading (v : BitVec 52) : (1#1 ++ v).toNat = 2 ^ 52 + v.toNat := by
  rw [BitVec.toNat_append, ← Nat.shiftLeft_add_eq_or_of_lt v.isLt]
  rfl

/-- What bits are unpacked into is in canonical form, or no finite number. -/
theorem isDouble_unpack (x : Float.Model) : IsDouble x.unpack := by
  rw [Float.Model.unpack]
  fun_cases UnpackedFloat.unpack with
  | case1 | case2 | case3 => trivial
  | case4 mantissa exponent value _ _ _ hleast =>
    have hzero : exponent.toNat = 0 := congrArg BitVec.toNat hleast
    have hvalue : value + 1 = -1074 := by
      change (exponent.toNat : Int) - (1023 + 52) + 1 = -1074
      omega
    rw [IsDouble, hvalue]
    exact ⟨by decide, by decide, Nat.lt_trans mantissa.isLt (by decide : 2 ^ 52 < 2 ^ 53), .inr rfl⟩
  | case5 mantissa exponent value _ _ hmost hleast =>
    have hvalue : value = exponent.toNat - 1075 := rfl
    have hlow : exponent.toNat ≠ 0 := fun h => hleast (BitVec.eq_of_toNat_eq h)
    have hhigh : exponent.toNat ≠ 2047 := fun h => hmost (BitVec.eq_of_toNat_eq h)
    have hbits : exponent.toNat < 2048 := exponent.isLt
    have hmantissa : mantissa.toNat < 2 ^ 52 := mantissa.isLt
    rw [IsDouble, hvalue, toNat_leading mantissa]
    constructor <;> omega

/-- A mantissa with all its digits keeps its exponent in the bits. -/
theorem pack_of_full (hm : 0 < m) (h : IsCanonical m e)
    (hfull : 2 ^ 52 ≤ m) : UnpackedFloat.pack .binary64 (.finite s m e hm) =
      packComponents .binary64 s (BitVec.ofNat 11 (e + 1075).toNat) (BitVec.ofNat 52 m) := by
  obtain ⟨hlow, hhigh, hshort, -⟩ := h
  have hlog : m.log2 = 52 := (Nat.log2_eq_iff (Nat.ne_of_gt hm)).mpr ⟨hfull, hshort⟩
  have hbias : (e + Format.binary64.exponentBias +
      Format.binary64.mantissaBitsWithoutImplicit).toNat = (e + 1075).toNat := by
    change (e + 1023 + 52).toNat = _
    omega
  rw [UnpackedFloat.pack]
  simp only [hbias, hlog]
  rw [if_neg, if_pos]
  · rfl
  · omega

/-- With fewer digits the exponent is the least, for which the bits are zero. -/
theorem pack_of_short (hm : 0 < m) (h : IsCanonical m e)
    (hshort : m < 2 ^ 52) : UnpackedFloat.pack .binary64 (.finite s m e hm) =
      packComponents .binary64 s 0#11 (BitVec.ofNat 52 m) := by
  obtain rfl : e = -1074 := by
    rcases h.full with hfull | hleast
    · omega
    · exact hleast
  have hlog : m.log2 ≠ 52 := by
    have hlt : m.log2 < 52 := (Nat.log2_lt (Nat.ne_of_gt hm)).mpr hshort
    omega
  rw [UnpackedFloat.pack, if_neg (by decide), if_neg]
  change ¬m.log2 + 1 = 53
  omega

/-- The leading digit of a full mantissa is left out of the bits, and put back. -/
theorem unpack_full (hm : 0 < m) (h : IsCanonical m e)
    (hfull : 2 ^ 52 ≤ m) : UnpackedFloat.unpack .binary64
      (packComponents .binary64 s (BitVec.ofNat 11 (e + 1075).toNat) (BitVec.ofNat 52 m)) =
        .finite s m e hm := by
  obtain ⟨hlow, hhigh, hshort, -⟩ := h
  have hexponent : (BitVec.ofNat 11 (e + 1075).toNat).toNat = (e + 1075).toNat := by
    rw [BitVec.toNat_ofNat]
    omega
  have hmost : BitVec.ofNat 11 (e + 1075).toNat ≠ -1#11 := by
    intro heq
    have hnat := congrArg BitVec.toNat heq
    rw [hexponent] at hnat
    change (e + 1075).toNat = 2047 at hnat
    omega
  have hleast : BitVec.ofNat 11 (e + 1075).toNat ≠ 0#11 := by
    intro heq
    have hnat := congrArg BitVec.toNat heq
    rw [hexponent] at hnat
    change (e + 1075).toNat = 0 at hnat
    omega
  have hmantissa : (1#1 ++ BitVec.ofNat 52 m).toNat = m := by
    rw [toNat_leading, BitVec.toNat_ofNat]
    omega
  have hvalue : ((BitVec.ofNat 11 (e + 1075).toNat).toNat : Int) -
      (Format.binary64.exponentBias + Format.binary64.mantissaBitsWithoutImplicit) = e := by
    rw [hexponent]
    change ((e + 1075).toNat : Int) - (1023 + 52) = e
    omega
  rw [UnpackedFloat.unpack]
  simp only [UnpackedFloat.unpackMantissa_packComponents,
    UnpackedFloat.unpackExponent_packComponents, UnpackedFloat.unpackSign_packComponents,
    Sign.ofBitVec_toBitVec, hmost, hleast, if_false, hmantissa, hvalue]

/-- A short mantissa has the least exponent, and no digit of it is left out. -/
theorem unpack_short (hm : 0 < m) (hshort : m < 2 ^ 52) :
    UnpackedFloat.unpack .binary64
      (packComponents .binary64 s 0#11 (BitVec.ofNat 52 m)) = .finite s m (-1074) hm := by
  have hmantissa : (BitVec.ofNat 52 m).toNat = m := by
    rw [BitVec.toNat_ofNat]
    omega
  have hzero : BitVec.ofNat 52 m ≠ 0#52 := by
    intro heq
    have hnat := congrArg BitVec.toNat heq
    rw [hmantissa] at hnat
    exact Nat.ne_of_gt hm hnat
  rw [UnpackedFloat.unpack]
  simp only [UnpackedFloat.unpackMantissa_packComponents,
    UnpackedFloat.unpackExponent_packComponents, UnpackedFloat.unpackSign_packComponents,
    Sign.ofBitVec_toBitVec, hzero, hmantissa]
  rfl

/-- What is packed is unpacked again. -/
theorem unpack_pack {u : UnpackedFloat} (h : IsDouble u) : (Float.Model.pack u).unpack = u := by
  change UnpackedFloat.unpack .binary64
    (UnpackedFloat.pack .binary64 u) = u
  cases u with
  | notANumber => rfl
  | infinity s => cases s <;> rfl
  | zero s => cases s <;> rfl
  | finite s m e hm =>
    rcases Nat.lt_or_ge m (2 ^ 52) with hshort | hfull
    · obtain rfl : e = -1074 := h.full.resolve_left (Nat.not_le_of_lt hshort)
      rw [pack_of_short hm h hshort, unpack_short hm hshort]
    · rw [pack_of_full hm h hfull, unpack_full hm h hfull]

/-- A number with a greater exponent than doubles have becomes infinite. -/
theorem unpack_pack_of_overflow (hm : 0 < m) (h : 971 < e) :
    (Float.Model.pack (.finite s m e hm)).unpack = .infinity s := by
  have hpack : UnpackedFloat.pack .binary64 (.finite s m e hm) =
      UnpackedFloat.packedInfinity .binary64 s := by
    rw [UnpackedFloat.pack, if_pos]
    change 2 ^ 11 ≤ (e + 1023 + 52).toNat + 1
    omega
  change UnpackedFloat.unpack .binary64
    (UnpackedFloat.pack .binary64 (.finite s m e hm)) = .infinity s
  rw [hpack]
  cases s <;> rfl

end Packing

end RandomTables.Decimal
