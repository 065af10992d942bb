namespace RandomTables.Text

def linesOf : List Char → List Char × List (List Char)
  | [] => ([], [])
  | c :: rest =>
    let (line, others) := linesOf rest
    if c = '\n' then ([], line :: others) else (c :: line, others)

def withoutReturn (line : List Char) : List Char :=
  if line.getLast? = some '\r' then line.dropLast else line

/-- A text with every line end, whether a line feed, a carriage return or both, as a line feed. -/
def unifyLineEnds : List Char → List Char
  | [] => []
  | '\r' :: '\n' :: rest => '\n' :: unifyLineEnds rest
  | c :: rest => (if c = '\r' then '\n' else c) :: unifyLineEnds rest

end RandomTables.Text
