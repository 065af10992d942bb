import RandomTables.Decimal.Shortest

/-!
How a decimal is written out: with a point among its digits, or with an exponent. One record holds
the choices of a format.
-/
namespace RandomTables.Decimal

/-- The choices of a number format. Numbers whose leading digit has a place from `leastPlace` to
`greatestPlace` are written with a point, always with a digit after it; all others with an exponent
of a sign and at least two digits. -/
structure Format where
  leastPlace : Int
  greatestPlace : Int
  nan : String
  infinite : String

def signText (negative : Bool) : String :=
  if negative then "-" else ""

def positional (digits : List Char) (place : Int) : List Char :=
  if place < 0 then '0' :: '.' :: List.replicate (-place - 1).toNat '0' ++ digits
  else
    let whole := place.toNat + 1
    if digits.length ≤ whole then
      digits ++ List.replicate (whole - digits.length) '0' ++ ['.', '0']
    else digits.take whole ++ '.' :: digits.drop whole

def scientific (digits : List Char) (place : Int) : List Char :=
  let mantissa := match digits with
    | [] => []
    | [d] => [d]
    | d :: rest => d :: '.' :: rest
  let exponent := Nat.toDigits 10 place.natAbs
  mantissa ++ 'e' :: (if place < 0 then '-' else '+') ::
    (if exponent.length < 2 then '0' :: exponent else exponent)

def Format.render (format : Format) (x : Float) : String :=
  match Binary.ofFloat x with
  | .nan => format.nan
  | .infinite negative => signText negative ++ format.infinite
  | .finite negative mantissa exponent =>
    if mantissa = 0 then signText negative ++ "0.0"
    else
      let d := shortest mantissa exponent
      let digits := Nat.toDigits 10 d.digits
      let place := d.exponent + digits.length - 1
      let body :=
        if format.leastPlace ≤ place ∧ place ≤ format.greatestPlace then positional digits place
        else scientific digits place
      signText negative ++ String.ofList body

def weightFormat : Format where
  leastPlace := -4
  greatestPlace := 15
  nan := "nan"
  infinite := "inf"

def weightText (x : Float) : String :=
  weightFormat.render x

end RandomTables.Decimal
