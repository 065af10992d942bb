import RandomTables.Decimal.Layout
import RandomTables.Span
import RandomTables.Text.Padding
import RandomTables.Text.Quoted

/-!
Tokens: the words of a table source, each with its kind, its text and its place. Weights and dice
carry the value that was read.
-/
namespace RandomTables

inductive TokenKind where
  | endOfInput
  | newline
  | hash
  | identifier
  | exportWord
  | number
  | colon
  | leftBracket
  | rightBracket
  | comma
  | text
  | leftBrace
  | rightBrace
  | pipe
  | atSign
  | slash
  | modifier
  | diceRoll
  deriving DecidableEq, Repr

namespace TokenKind

def all : List TokenKind :=
  [endOfInput, newline, hash, identifier, exportWord, number, colon, leftBracket, rightBracket,
    comma, text, leftBrace, rightBrace, pipe, atSign, slash, modifier, diceRoll]

def name : TokenKind → String
  | endOfInput => "EOF"
  | newline => "NEWLINE"
  | hash => "HASH"
  | identifier => "IDENTIFIER"
  | exportWord => "EXPORT"
  | number => "NUMBER"
  | colon => "COLON"
  | leftBracket => "LBRACKET"
  | rightBracket => "RBRACKET"
  | comma => "COMMA"
  | text => "TEXT"
  | leftBrace => "LBRACE"
  | rightBrace => "RBRACE"
  | pipe => "PIPE"
  | atSign => "AT"
  | slash => "SLASH"
  | modifier => "MODIFIER"
  | diceRoll => "DICE_ROLL"

/-- The number of the kind: units for the ends of lines and input, tens for declarations, twenties
for rule content and thirties for expressions. -/
def code : TokenKind → Nat
  | endOfInput => 1
  | newline => 2
  | hash => 10
  | identifier => 11
  | exportWord => 12
  | number => 13
  | colon => 14
  | leftBracket => 15
  | rightBracket => 16
  | comma => 17
  | text => 20
  | leftBrace => 21
  | rightBrace => 22
  | pipe => 30
  | atSign => 31
  | slash => 32
  | modifier => 33
  | diceRoll => 34

def displayName : TokenKind → String
  | endOfInput => "end of input"
  | newline => "newline"
  | hash => "'#'"
  | identifier => "identifier"
  | exportWord => "'export'"
  | number => "number"
  | colon => "':'"
  | leftBracket => "'['"
  | rightBracket => "']'"
  | comma => "','"
  | text => "rule text"
  | leftBrace => "'\x7b'"
  | rightBrace => "'\x7d'"
  | pipe => "'|'"
  | atSign => "'@'"
  | slash => "'/'"
  | modifier => "modifier"
  | diceRoll => "dice roll"

theorem mem_all (k : TokenKind) : k ∈ all := by
  cases k <;> decide

end TokenKind

structure Dice where
  count : Option Int
  sides : Int
  deriving DecidableEq, Repr

def Dice.rolls (d : Dice) : Int :=
  d.count.getD 1

inductive TokenValue where
  | weight (w : Float)
  | dice (d : Dice)
  deriving DecidableEq

def TokenValue.describe : TokenValue → String
  | weight w => Decimal.weightText w
  | dice d =>
    let count := match d.count with
      | some n => toString n
      | none => "None"
    s!"DiceSpec(count={count}, sides={d.sides})"

structure Token where
  kind : TokenKind
  lexeme : String
  span : Span
  value : Option TokenValue := none
  deriving DecidableEq

inductive PayloadFault where
  | noNumber (kind : TokenKind)
  | noDice (kind : TokenKind)
  deriving DecidableEq, Repr

def PayloadFault.message : PayloadFault → String
  | noNumber kind => kind.name ++ " token carries no number"
  | noDice kind => kind.name ++ " token carries no dice roll"

namespace Token

def number (t : Token) : Except PayloadFault Float :=
  match t.value with
  | some (.weight w) => .ok w
  | _ => .error (.noNumber t.kind)

def dice (t : Token) : Except PayloadFault Dice :=
  match t.value with
  | some (.dice d) => .ok d
  | _ => .error (.noDice t.kind)

def describe (t : Token) : String :=
  match t.kind with
  | .identifier | .modifier | .number | .diceRoll => "'" ++ t.lexeme ++ "'"
  | kind => kind.displayName

def textIn (t : Token) (source : List Char) : List Char :=
  if t.kind = .endOfInput then [] else t.span.slice source

def listing (index : Nat) (t : Token) : String :=
  let value := match t.value with
    | some v => " value=" ++ v.describe
    | none => ""
  Text.padLeft '0' 3 (toString index) ++ " " ++ Text.padRight ' ' 11 t.kind.name ++ " span=" ++
    t.span.pairText ++ " lexeme=" ++ String.ofList (Text.quoted t.lexeme.toList) ++ value

def listAll (tokens : List Token) : String :=
  String.join (tokens.zipIdx.map fun (t, index) => t.listing index ++ "\n")

end Token

end RandomTables
