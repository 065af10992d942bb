namespace RandomTables.Text

inductive Style where
  | bold
  | blue
  | boldRed
  | boldGreen
  deriving DecidableEq, Repr

structure Piece where
  style : Option Style
  text : List Char
  deriving DecidableEq, Repr

/-- The bell, the backspace, the vertical tab, the form feed and the carriage return. -/
def movesCursor (c : Char) : Bool :=
  c == '\x07' || c == '\x08' || c == '\x0b' || c == '\x0c' || c == '\r'

def Piece.ofString (style : Option Style) (s : String) : Piece :=
  ⟨style, s.toList.filter (!movesCursor ·)⟩

def plainText (pieces : List Piece) : List Char :=
  pieces.flatMap (·.text)

@[simp] theorem plainText_nil : plainText [] = [] := rfl

@[simp] theorem plainText_cons (piece : Piece) (pieces : List Piece) :
    plainText (piece :: pieces) = piece.text ++ plainText pieces :=
  List.flatMap_cons

@[simp] theorem plainText_append (pieces more : List Piece) :
    plainText (pieces ++ more) = plainText pieces ++ plainText more :=
  List.flatMap_append

end RandomTables.Text
