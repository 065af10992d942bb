import RandomTables.Decimal.Reading
import RandomTables.Modifier
import RandomTables.Text.Word
import RandomTables.Token.Fault

/-!
One step of reading a source: which characters the next token, blank or comment takes. A step looks
at the mode, at the kind of the token before, and at the text ahead. It always takes the first
character, so that reading comes to an end.
-/
namespace RandomTables

/-- What a step takes: the first character and `more` characters after it, as a token of the given
kind and value or, without a kind, as a blank or comment that no token stands for. Reading goes on
in the given mode. -/
structure Bite where
  kind : Option TokenKind
  value : Option TokenValue := none
  more : Nat
  mode : Mode

inductive StepFault where
  | reported (fault : LexFault)
  /-- A count or number of sides has more digits than are ever read as a number. -/
  | overlongDice
  deriving DecidableEq, Repr

structure Halt where
  fault : StepFault
  seen : Nat
  mode : Mode

def maxDiceDigits : Nat := 4300

namespace Bite

def token (kind : TokenKind) (more : Nat) (mode : Mode) : Bite :=
  { kind := some kind, more, mode }

def trivia (more : Nat) (mode : Mode) : Bite :=
  { kind := none, more, mode }

end Bite

def Halt.reported (fault : LexFault) (seen : Nat) (mode : Mode) : Halt :=
  ⟨.reported fault, seen, mode⟩

def startsLineEnd : List Char → Bool
  | [] => false
  | c :: rest => c == '\n' || (c == '\r' && rest.head? == some '\n')

def startsComment : List Char → Bool
  | [] => false
  | c :: rest => c == '/' && (rest.head? == some '/' || rest.head? == some '*')

def closedComment? : List Char → Option (List Char)
  | [] => none
  | c :: rest =>
    if c = '*' ∧ rest.head? = some '/' then some ['*', '/']
    else (closedComment? rest).map (c :: ·)

/-- Reading goes on as a declaration after text that holds a line feed. -/
def modeAfter (mode : Mode) (s : List Char) : Mode :=
  if s.contains '\n' then .declaration else mode

/-- A comment, given what follows its first slash. A line comment leaves the line feed alone. A
block comment that holds one ends the line all the same. -/
def stepComment (mode : Mode) (rest : List Char) : Except Halt Bite :=
  if rest.head? = some '/' then .ok (.trivia (rest.takeWhile (· ≠ '\n')).length mode)
  else
    match closedComment? rest.tail with
    | some comment => .ok (.trivia (1 + comment.length) (modeAfter mode comment))
    | none => .error (.reported .unterminatedComment (1 + rest.length) (modeAfter mode rest))

def lineBlanks : List Char → List Char
  | [] => []
  | c :: rest =>
    if c = ' ' ∨ c = '\t' ∨ (c = '\r' ∧ rest.head? ≠ some '\n') then c :: lineBlanks rest else []

def isInlineBlank (c : Char) : Bool :=
  c == ' ' || c == '\t'

def fractionPart : List Char → List Char
  | [] => []
  | c :: rest =>
    let digits := rest.takeWhile Text.isDigit
    if c = '.' ∧ digits ≠ [] then c :: digits else []

def continuesNumber (c : Char) : Bool :=
  Text.continuesWord c || c == '.' || c == '+' || c == '-'

def stepNumber (c : Char) (rest : List Char) : Except Halt Bite :=
  let digits := rest.takeWhile Text.isDigit
  let fraction := fractionPart (rest.drop digits.length)
  let more := digits.length + fraction.length
  let literal := c :: digits ++ fraction
  let after := rest.drop more
  if after.head?.any fun d => Text.continuesWord d || d == '.' then
    let lexeme := literal ++ after.takeWhile continuesNumber
    .error (.reported (.invalidNumber (String.ofList lexeme)) lexeme.length .declaration)
  else
    let weight := Decimal.floatOfLiteral literal
    if weight ≤ 0 then .error (.reported .zeroWeight literal.length .declaration)
    else .ok ⟨some .number, some (.weight weight), more, .declaration⟩

def readDice (count sides : List Char) : Except DiceFault Dice :=
  let sidesValue := Decimal.natOfDigits sides
  let countValue := Decimal.natOfDigits count
  if sidesValue = 0 then .error .zeroSides
  else if count ≠ [] ∧ countValue = 0 then .error .zeroCount
  else if maxDice < sidesValue then .error .tooManySides
  else if maxDice < countValue then .error .tooManyDice
  else .ok ⟨if count = [] then none else some countValue, sidesValue⟩

def stepDice (input : List Char) : Except Halt Bite :=
  let count := input.takeWhile Text.isDigit
  let afterCount := input.drop count.length
  let fail (fault : DiceFault) (lexeme : List Char) : Except Halt Bite :=
    .error (.reported (.invalidDice (String.ofList lexeme) fault) lexeme.length .expression)
  if afterCount.head? = some 'd' then
    let sides := afterCount.tail.takeWhile Text.isDigit
    let literal := count ++ 'd' :: sides
    let after := input.drop literal.length
    if sides = [] ∨ after.head?.any Text.continuesWord then
      fail .noSides (literal ++ after.takeWhile Text.continuesWord)
    else if maxDiceDigits < count.length ∨ maxDiceDigits < sides.length then
      .error ⟨.overlongDice, literal.length, .expression⟩
    else
      match readDice count sides with
      | .error fault => fail fault literal
      | .ok dice => .ok ⟨some .diceRoll, some (.dice dice), literal.length - 1, .expression⟩
  else fail .noLetter (count ++ afterCount.takeWhile Text.continuesWord)

def declarationMark? (c : Char) : Option TokenKind :=
  if c = '#' then some .hash
  else if c = '[' then some .leftBracket
  else if c = ']' then some .rightBracket
  else if c = ',' then some .comma
  else none

def expressionMark? (c : Char) : Option TokenKind :=
  if c = '#' then some .hash
  else if c = '@' then some .atSign
  else if c = '/' then some .slash
  else if c = '|' then some .pipe
  else none

def stepDeclaration (c : Char) (rest : List Char) : Except Halt Bite :=
  if c = ' ' ∨ c = '\t' ∨ c = '\r' then .ok (.trivia (lineBlanks rest).length .declaration)
  else
    match declarationMark? c with
    | some kind => .ok (.token kind 0 .declaration)
    | none =>
      if c = ':' then .ok (.token .colon 0 .ruleContent)
      else if Text.isDigit c then stepNumber c rest
      else if Text.isLetter c then
        let tail := rest.takeWhile Text.continuesName
        let kind := if c :: tail = "export".toList then .exportWord else .identifier
        .ok (.token kind tail.length .declaration)
      else .error (.reported (.invalidCharacter .declaration c) 0 .declaration)

/-- The rest of a run of rule text, given the character before. Braces and line ends end it, and so
does a comment after a space or tab; anywhere else slashes are text. -/
def textRun (before : Char) : List Char → List Char
  | [] => []
  | c :: rest =>
    if c = '\x7b' ∨ c = '\x7d' ∨ startsLineEnd (c :: rest) ∨
        (startsComment (c :: rest) ∧ isInlineBlank before) then []
    else c :: textRun c rest

def stepContent (c : Char) (rest : List Char) : Except Halt Bite :=
  if c = '\x7b' then .ok (.token .leftBrace 0 .expression)
  else if c = '\x7d' then .error (.reported (.invalidCharacter .ruleContent c) 0 .ruleContent)
  else .ok (.token .text (textRun c rest).length .ruleContent)

def announcesName : Option TokenKind → Bool
  | some .hash | some .atSign | some .slash | some .pipe => true
  | _ => false

def stepExpression (last : Option TokenKind) (c : Char) (rest : List Char) : Except Halt Bite :=
  if isInlineBlank c then .ok (.trivia (rest.takeWhile isInlineBlank).length .expression)
  else if c = '\x7d' then .ok (.token .rightBrace 0 .ruleContent)
  else
    match expressionMark? c with
    | some kind => .ok (.token kind 0 .expression)
    | none =>
      if Text.isDigit c then stepDice (c :: rest)
      else if Text.isLetter c then
        if c = 'd' ∧ rest.head?.any Text.isDigit ∧ ¬ announcesName last then stepDice (c :: rest)
        else
          let tail := rest.takeWhile Text.continuesName
          let kind :=
            if last = some .pipe ∧ Modifier.isName (String.ofList (c :: tail)) then .modifier
            else .identifier
          .ok (.token kind tail.length .expression)
      else .error (.reported (.invalidCharacter .expression c) 0 .expression)

def step (mode : Mode) (last : Option TokenKind) (c : Char) (rest : List Char) :
    Except Halt Bite :=
  if c = '\n' then .ok (.token .newline 0 .declaration)
  else if c = '\r' ∧ rest.head? = some '\n' then .ok (.token .newline 1 .declaration)
  else if startsComment (c :: rest) then stepComment mode rest
  else
    match mode with
    | .declaration => stepDeclaration c rest
    | .ruleContent => stepContent c rest
    | .expression => stepExpression last c rest

end RandomTables
