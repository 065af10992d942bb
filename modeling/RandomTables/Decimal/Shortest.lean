import RandomTables.Decimal.Binary

/-!
The shortest decimal that reads back as a given double. Every real number closer to the double
than to its neighbours reads back as it; the ends of that interval do so when the mantissa is
even. Grids of one, two, three, … digits are tried until one has a point in the interval.
-/
namespace RandomTables.Decimal

structure Scaled where
  digits : Nat
  exponent : Int
  deriving DecidableEq, Repr

def Scaled.normalize (fuel : Nat) (d : Scaled) : Scaled :=
  match fuel with
  | 0 => d
  | fuel + 1 =>
    if d.digits ≠ 0 ∧ d.digits % 10 = 0 then
      Scaled.normalize fuel ⟨d.digits / 10, d.exponent + 1⟩
    else d

def inUnits (quarters : Nat) (exponent place : Int) : Nat × Nat :=
  ((quarters <<< (exponent - 2).toNat) * Nat.pow 10 (-place).toNat,
   (1 <<< (2 - exponent).toNat) * Nat.pow 10 place.toNat)

/-- The power of ten of the leading digit of `mantissa * 2 ^ exponent`. Scaled by `10 ^ 340`,
every positive double has an integer part. -/
def leadingPlace (mantissa : Nat) (exponent : Int) : Int :=
  let (numerator, denominator) := inUnits (4 * mantissa) exponent (-340)
  ((numerator / denominator).repr.length : Int) - 341

/-- The multiple of `10 ^ place` that reads back as `mantissa * 2 ^ exponent`, if there is one. Of
two the nearer is taken, and of two equally near ones the even one. -/
def onGrid? (mantissa : Nat) (exponent place : Int) : Option Nat :=
  let below := if Binary.narrowBelow mantissa exponent then 1 else 2
  let (value, unit) := inUnits (4 * mantissa) exponent place
  let (low, _) := inUnits (4 * mantissa - below) exponent place
  let (high, _) := inUnits (4 * mantissa + 2) exponent place
  let readsBack (n : Nat) : Bool :=
    if mantissa % 2 = 0 then low ≤ n * unit && n * unit ≤ high
    else low < n * unit && n * unit < high
  let down := value / unit
  let up := down + 1
  match readsBack down, readsBack up with
  | true, true =>
    let fromDown := value - down * unit
    let fromUp := up * unit - value
    some (if fromDown < fromUp || (fromDown == fromUp && down % 2 == 0) then down else up)
  | true, false => some down
  | false, true => some up
  | false, false => none

def shortest (mantissa : Nat) (exponent : Int) : Scaled :=
  let leading := leadingPlace mantissa exponent
  let hit := (List.range 17).findSome? fun (more : Nat) =>
    let place := leading - more
    (onGrid? mantissa exponent place).map fun digits => (⟨digits, place⟩ : Scaled)
  (hit.getD ⟨0, 0⟩).normalize 20

end RandomTables.Decimal
