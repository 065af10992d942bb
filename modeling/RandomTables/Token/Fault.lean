import RandomTables.Diagnostic.LineTable
import RandomTables.Token

namespace RandomTables

/-- The three ways of reading a source. A line begins as a declaration, a colon opens the content
of a rule, and braces enclose an expression within it. -/
inductive Mode where
  | declaration
  | ruleContent
  | expression
  deriving DecidableEq, Repr

inductive DiceFault where
  | noLetter
  | noSides
  | zeroSides
  | zeroCount
  | tooManySides
  | tooManyDice
  deriving DecidableEq, Repr

def maxDice : Nat := 0xffffffff

def DiceFault.message : DiceFault → String
  | noLetter => "expected 'd' followed by the number of sides"
  | noSides => "expected the number of sides after 'd'"
  | zeroSides => "dice must have at least one side"
  | zeroCount => "dice count must be at least 1"
  | tooManySides => "dice must have at most " ++ toString maxDice ++ " sides"
  | tooManyDice => "dice count must be at most " ++ toString maxDice

inductive LexFault where
  /-- No word of the mode begins with the character. -/
  | invalidCharacter (mode : Mode) (character : Char)
  | unterminatedComment
  | invalidNumber (lexeme : String)
  | zeroWeight
  | invalidDice (lexeme : String) (fault : DiceFault)
  deriving DecidableEq, Repr

namespace LexFault

def code : LexFault → String
  | invalidCharacter .. => "LEXER_INVALID_CHARACTER"
  | unterminatedComment => "LEXER_UNTERMINATED_BLOCK_COMMENT"
  | invalidNumber _ => "LEXER_INVALID_NUMBER"
  | zeroWeight => "LEXER_NON_POSITIVE_WEIGHT"
  | invalidDice .. => "LEXER_INVALID_DICE"

def message : LexFault → String
  | invalidCharacter _ c => "Invalid character '" ++ c.toString ++ "'"
  | unterminatedComment => "Unterminated block comment"
  | invalidNumber lexeme => "'" ++ lexeme ++ "' is not a valid number"
  | zeroWeight => "Weight must be positive, but got 0"
  | invalidDice lexeme fault => "Invalid dice roll '" ++ lexeme ++ "': " ++ fault.message

def expressionForms : String :=
  "Expressions look like \x7b#table\x7d, \x7b#table|capitalize\x7d, " ++
    "\x7b@publisher/collection#table\x7d or \x7b2d6\x7d"

def characterHint : Mode → Char → String
  | .declaration, c =>
    if c = '-' then "Negative numbers are not allowed. Use positive weights like 1.0, 2.5"
    else if c = '\x7b' || c = '\x7d' then
      "Expressions are only allowed in rule text, after 'weight:'"
    else "Only table declarations, flags, weights, colons and rule text are allowed here"
  | .ruleContent, _ => "Unmatched '\x7d'. Expressions must be opened with '\x7b'"
  | .expression, c =>
    if c = ':' then
      "A ':' separates a rule weight from its text and cannot appear inside '\x7b...\x7d'"
    else expressionForms

def hint : LexFault → String
  | invalidCharacter mode c => characterHint mode c
  | unterminatedComment => "Close the comment with '*/'"
  | invalidNumber _ => "Numbers should be positive decimal values like 1.5, 2.0, or 42"
  | zeroWeight => "Try using a positive number like 1.0, 2.5, or 10"
  | invalidDice .. =>
    "Dice rolls look like \x7bd6\x7d or \x7b2d10\x7d, with positive counts and sides"

def diagnose (fault : LexFault) (table : LineTable) (position : Nat) : Diagnostic :=
  table.diagnose .lexing position fault.message (some fault.code) (some fault.hint)

end LexFault

inductive LexErrorKind where
  | other
  | character (character : String)
  | number (reason : String)
  deriving DecidableEq, Repr

structure LexError where
  kind : LexErrorKind
  diagnostic : Diagnostic
  deriving DecidableEq, Repr

def LexFault.kind : LexFault → LexErrorKind
  | invalidCharacter _ c => .character c.toString
  | unterminatedComment => .character "/"
  | fault => .number fault.message

end RandomTables
