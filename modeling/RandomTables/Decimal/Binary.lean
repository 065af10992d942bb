namespace RandomTables.Decimal

inductive Binary where
  | nan
  | infinite (negative : Bool)
  /-- The number `mantissa * 2 ^ exponent`, negated if so marked. -/
  | finite (negative : Bool) (mantissa : Nat) (exponent : Int)
  deriving DecidableEq, Repr

namespace Binary

/-- Takes the bits of a double apart: one for the sign, eleven for the exponent, and 52 for the
mantissa, whose leading bit is implied unless the exponent is the least one. -/
def ofFloat (x : Float) : Binary :=
  let bits := x.toBits.toNat
  let negative := bits >>> 63 == 1
  let exponent : Nat := (bits >>> 52) % 0x800
  let mantissa : Nat := bits % (1 <<< 52)
  if exponent = 0x7ff then if mantissa = 0 then infinite negative else nan
  else if exponent = 0 then finite negative mantissa (-1074)
  else finite negative ((1 <<< 52) + mantissa) ((exponent : Int) - 1075)

/-- The gap to the next smaller double is half the usual one: the mantissa is the least with its
leading bit, and the exponent can still go down. -/
def narrowBelow (mantissa : Nat) (exponent : Int) : Bool :=
  mantissa == 1 <<< 52 && -1074 < exponent

end Binary

end RandomTables.Decimal
