import RandomTables.Decimal.Layout

namespace RandomTables.Decimal

def roundHalfEven (numerator denominator : Nat) : Nat :=
  let quotient := numerator / denominator
  let twice := 2 * (numerator % denominator)
  if denominator < twice || (twice == denominator && quotient % 2 == 1) then quotient + 1
  else quotient

def fixedPlaces (places mantissa : Nat) (exponent : Int) : List Char :=
  let unit := Nat.pow 10 places
  let units := roundHalfEven ((mantissa * unit) <<< exponent.toNat) (1 <<< (-exponent).toNat)
  Nat.toDigits 10 (units / unit) ++ '.' :: (Nat.toDigits 10 (units % unit)).leftpad places '0'

structure PercentFormat where
  places : Nat
  /-- Numbers that are not negative get a plus sign. -/
  showPlus : Bool

def PercentFormat.sign (format : PercentFormat) (negative : Bool) : String :=
  if negative then "-" else if format.showPlus then "+" else ""

/-- A share as a percentage. It is multiplied by a hundred as a double, before the rounding. -/
def PercentFormat.render (format : PercentFormat) (share : Float) : String :=
  match Binary.ofFloat (share * 100) with
  | .nan => format.sign false ++ "nan%"
  | .infinite negative => format.sign negative ++ "inf%"
  | .finite negative mantissa exponent =>
    format.sign negative ++ String.ofList (fixedPlaces format.places mantissa exponent) ++ "%"

def shareFormat : PercentFormat where
  places := 2
  showPlus := false

def differenceFormat : PercentFormat where
  places := 2
  showPlus := true

/-- Rounding moves by at most half a unit. -/
theorem roundHalfEven_near (numerator : Nat) {denominator : Nat} (h : 0 < denominator) :
    2 * numerator ≤ 2 * roundHalfEven numerator denominator * denominator + denominator ∧
      2 * roundHalfEven numerator denominator * denominator ≤ 2 * numerator + denominator := by
  have hdiv := Nat.div_add_mod numerator denominator
  have hlt := Nat.mod_lt numerator h
  have hmul : numerator / denominator * denominator = denominator * (numerator / denominator) :=
    Nat.mul_comm _ _
  unfold roundHalfEven
  simp only [Bool.or_eq_true, Bool.and_eq_true, decide_eq_true_eq, beq_iff_eq]
  split
  · rename_i hup
    have hexp : 2 * (numerator / denominator + 1) * denominator =
        2 * (denominator * (numerator / denominator)) + 2 * denominator := by
      rw [Nat.mul_assoc, Nat.add_mul, hmul]; omega
    omega
  · rename_i hdown
    have hexp : 2 * (numerator / denominator) * denominator =
        2 * (denominator * (numerator / denominator)) := by
      rw [Nat.mul_assoc, hmul]
    omega

end RandomTables.Decimal
