import RandomTables.Text.Letter
import RandomTables.Text.Numeral

namespace RandomTables.Text

def isAlphanumeric (c : Char) : Bool :=
  isLetter c || isNumeral c

def continuesWord (c : Char) : Bool :=
  isAlphanumeric c || c == '_'

def continuesName (c : Char) : Bool :=
  continuesWord c || c == '-'

end RandomTables.Text
