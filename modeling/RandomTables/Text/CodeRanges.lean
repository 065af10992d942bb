/-!
Sets of characters as ascending lists of closed ranges of code points, the form in which the
character properties of this library are tabulated. Letters, numerals, printable characters and
case are those of Unicode 15.0. The cells of a terminal follow a later version.
-/
namespace RandomTables.Text

abbrev CodeRanges := List (Nat × Nat)

def CodeRanges.contains : CodeRanges → Nat → Bool
  | [], _ => false
  | (first, last) :: rest, code =>
    if code < first then false
    else if code ≤ last then true
    else CodeRanges.contains rest code

end RandomTables.Text
