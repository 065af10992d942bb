import RandomTables.Text.Numeral

namespace RandomTables.Decimal

def digitValue (c : Char) : Nat :=
  c.toNat - '0'.toNat

def natOfDigits (digits : List Char) : Nat :=
  digits.foldl (fun n c => 10 * n + digitValue c) 0

def floatOfDigits (whole fraction : List Char) : Float :=
  Float.ofScientific (natOfDigits (whole ++ fraction)) true fraction.length

def floatOfLiteral (literal : List Char) : Float :=
  let whole := literal.takeWhile Text.isDigit
  floatOfDigits whole (literal.drop (whole.length + 1))

@[simp] theorem natOfDigits_nil : natOfDigits [] = 0 := rfl

/-- One more digit at the end makes the number tenfold and adds to it. -/
theorem natOfDigits_concat (digits : List Char) (c : Char) :
    natOfDigits (digits ++ [c]) = 10 * natOfDigits digits + digitValue c := by
  simp [natOfDigits]

end RandomTables.Decimal
