import RandomTables.Text.Case.Cased
import RandomTables.Text.Case.Lower
import RandomTables.Text.Case.Upper

namespace RandomTables.Text

def upper (s : List Char) : List Char :=
  s.flatMap upperChar

def meetsCased (s : List Char) : Bool :=
  (s.dropWhile isCaseIgnorable).head?.any isCased

/-- Lower case of the rest of a text, given what stands before it, nearest character first. A
capital sigma that ends a word of at least two letters takes its final form. -/
def lowerAfter (before : List Char) : List Char → List Char
  | [] => []
  | c :: rest =>
    let lowered :=
      if c = 'Σ' then if meetsCased before && !meetsCased rest then ['ς'] else ['σ']
      else lowerChar c
    lowered ++ lowerAfter (c :: before) rest

def lower (s : List Char) : List Char :=
  lowerAfter [] s

def capitalize : List Char → List Char
  | [] => []
  | c :: rest => upperChar c ++ rest

end RandomTables.Text
