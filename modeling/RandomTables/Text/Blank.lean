namespace RandomTables.Text

/-- White space in any script: the ASCII controls that move the cursor, the four information
separators, the next-line control, and every space and line separator. -/
def isBlank (c : Char) : Bool :=
  let code := c.toNat
  (0x09 ≤ code && code ≤ 0x0D) || (0x1C ≤ code && code ≤ 0x20) || code == 0x85 || code == 0xA0
    || code == 0x1680 || (0x2000 ≤ code && code ≤ 0x200A) || code == 0x2028 || code == 0x2029
    || code == 0x202F || code == 0x205F || code == 0x3000

def trimRight (s : List Char) : List Char :=
  (s.reverse.dropWhile isBlank).reverse

def trim (s : List Char) : List Char :=
  trimRight (s.dropWhile isBlank)

def strip (s : String) : String :=
  String.ofList (trim s.toList)

end RandomTables.Text
