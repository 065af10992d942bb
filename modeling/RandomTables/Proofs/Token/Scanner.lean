import RandomTables.Proofs.Token.Run
import RandomTables.Token.Scan

/-! Scanning by position. A scanner stands at a position of its source and looks at the character
there, at the one after it and, within rule text, at the one before. Where the source has ended it
reads a sentinel, which is a character like any other. Nothing keeps a position within the source,
nor does a loop have to come to an end: each has a number of rounds, after which there is no outcome
at all, and a look at what stands before a run of text is a failure of its own. -/
namespace RandomTables

inductive Scanner.Failure where
  /-- What stands before the first character of a run of text was looked at. -/
  | beforeRun
  | badSpan (fault : SpanFault)
  | stopped (fault : ScanFault)

/-- Scanning from a position on. What has not ended is `none`. -/
abbrev Scanning := ExceptT Scanner.Failure Option

structure Scanner where
  position : Nat
  mode : Mode
  last : Option TokenKind

namespace Scanner

structure Stride where
  token : Option Token
  position : Nat
  mode : Mode

def start : Scanner where
  position := 0
  mode := .declaration
  last := none

def after (s : Scanner) (stride : Stride) : Scanner where
  position := stride.position
  mode := stride.mode
  last := (stride.token.map (·.kind)).or s.last

/-- What is read where the source has ended. -/
def sentinel : Char := '\x00'

def unfinished {α : Type} : Scanning α := ExceptT.mk none

def stop {α : Type} (fault : StepFault) (first position : Nat) (mode : Mode) : Scanning α :=
  throw (.stopped ⟨fault, first, position, mode⟩)

def passWhile (goesOn : Nat → Bool) : Nat → Nat → Scanning Nat
  | 0, _ => unfinished
  | rounds + 1, position =>
    if goesOn position then passWhile goesOn rounds (position + 1) else return position

section Source
variable (source : List Char)

def isAtEnd (position : Nat) : Bool :=
  source.length ≤ position

def charAt (position : Nat) : Char :=
  source.getD position sentinel

def isAtLineEnd (position : Nat) : Bool :=
  charAt source position == '\n' ||
    (charAt source position == '\r' && charAt source (position + 1) == '\n')

def isAtComment (position : Nat) : Bool :=
  charAt source position == '/' &&
    (charAt source (position + 1) == '/' || charAt source (position + 1) == '*')

def lexeme (first position : Nat) : List Char :=
  source.extract first position

def token (kind : TokenKind) (first position : Nat) (mode : Mode)
    (value : Option TokenValue := none) : Scanning Stride :=
  match Span.ofOffsets first position with
  | .ok span =>
    return ⟨some ⟨kind, String.ofList (lexeme source first position), span, value⟩, position, mode⟩
  | .error fault => throw (.badSpan fault)

-- Every loop begins with this number of rounds.
variable (limit : Nat)

/-- Moves on over characters with the property, of which the sentinel is to be none. -/
def passRun (p : Char → Bool) (position : Nat) : Scanning Nat :=
  passWhile (fun q => p (charAt source q)) limit position

def passInside (p : Char → Bool) (position : Nat) : Scanning Nat :=
  passWhile (fun q => !isAtEnd source q && p (charAt source q)) limit position

def passBlanks (isBlank : Char → Bool) (position : Nat) : Scanning Nat :=
  passWhile (fun q => !isAtEnd source q && isBlank (charAt source q) && !isAtLineEnd source q)
    limit position

def passComment (first : Nat) : Nat → Nat → Mode → Scanning Stride
  | 0, _, _ => unfinished
  | rounds + 1, position, mode =>
    if isAtEnd source position then stop (.reported .unterminatedComment) first position mode
    else if charAt source position = '*' ∧ charAt source (position + 1) = '/' then
      return ⟨none, position + 2, mode⟩
    else
      passComment first rounds (position + 1)
        (if charAt source position = '\n' then .declaration else mode)

def comment (first : Nat) (mode : Mode) : Scanning Stride :=
  if charAt source (first + 1) = '/' then do
    let position ← passInside source limit (· ≠ '\n') first
    return ⟨none, position, mode⟩
  else passComment source first limit (first + 2) mode

def passFraction (position : Nat) : Scanning Nat :=
  if charAt source position = '.' ∧ Text.isDigit (charAt source (position + 1)) then
    passRun source limit Text.isDigit (position + 1)
  else return position

def number (first : Nat) : Scanning Stride := do
  let position ← passFraction source limit (← passRun source limit Text.isDigit first)
  if Text.continuesWord (charAt source position) || charAt source position == '.' then
    let position ← passInside source limit continuesNumber position
    stop (.reported (.invalidNumber (String.ofList (lexeme source first position)))) first position
      .declaration
  else
    let weight := Decimal.floatOfLiteral (lexeme source first position)
    if weight ≤ 0 then stop (.reported .zeroWeight) first position .declaration
    else token source .number first position .declaration (some (.weight weight))

def stopDice {α : Type} (fault : DiceFault) (first position : Nat) : Scanning α :=
  stop (.reported (.invalidDice (String.ofList (lexeme source first position)) fault)) first
    position .expression

def roll (first letter : Nat) : Scanning Stride := do
  let position ← passRun source limit Text.isDigit (letter + 1)
  let count := lexeme source first letter
  let sides := lexeme source (letter + 1) position
  if sides = [] ∨ Text.continuesWord (charAt source position) then
    let position ← passRun source limit Text.continuesWord position
    stopDice source .noSides first position
  else if maxDiceDigits < count.length ∨ maxDiceDigits < sides.length then
    stop .overlongDice first position .expression
  else
    match readDice count sides with
    | .error fault => stopDice source fault first position
    | .ok dice => token source .diceRoll first position .expression (some (.dice dice))

def dice (first : Nat) : Scanning Stride := do
  let position ← passRun source limit Text.isDigit first
  if charAt source position = 'd' then roll source limit first position
  else
    let position ← passRun source limit Text.continuesWord position
    stopDice source .noLetter first position

def declarationStep (first : Nat) : Scanning Stride :=
  let c := charAt source first
  if c = ' ' ∨ c = '\t' ∨ c = '\r' then do
    let position ← passBlanks source limit isLineBlank first
    return ⟨none, position, .declaration⟩
  else
    match declarationMark? c with
    | some kind => token source kind first (first + 1) .declaration
    | none =>
      if c = ':' then token source .colon first (first + 1) .ruleContent
      else if Text.isDigit c then number source limit first
      else if Text.isLetter c then do
        let position ← passRun source limit Text.continuesName (first + 1)
        let kind := if lexeme source first position = "export".toList then .exportWord
          else .identifier
        token source kind first position .declaration
      else stop (.reported (.invalidCharacter .declaration c)) first first .declaration

def charBefore (first position : Nat) : Scanning Char :=
  if first < position then return charAt source (position - 1) else throw .beforeRun

def textEnds (first position : Nat) : Scanning Bool :=
  if charAt source position = '\x7b' ∨ charAt source position = '\x7d' ∨
      isAtLineEnd source position then return true
  else if isAtComment source position then do
    return isInlineBlank (← charBefore source first position)
  else return false

def passText (first : Nat) : Nat → Nat → Scanning Nat
  | 0, _ => unfinished
  | rounds + 1, position =>
    if isAtEnd source position then return position
    else do
      if ← textEnds source first position then return position
      else passText first rounds (position + 1)

def contentStep (first : Nat) : Scanning Stride :=
  let c := charAt source first
  if c = '\x7b' then token source .leftBrace first (first + 1) .expression
  else if c = '\x7d' then
    stop (.reported (.invalidCharacter .ruleContent c)) first first .ruleContent
  else do
    let position ← passText source first limit first
    token source .text first position .ruleContent

def expressionStep (last : Option TokenKind) (first : Nat) : Scanning Stride :=
  let c := charAt source first
  if isInlineBlank c then do
    let position ← passBlanks source limit isInlineBlank first
    return ⟨none, position, .expression⟩
  else if c = '\x7d' then token source .rightBrace first (first + 1) .ruleContent
  else
    match expressionMark? c with
    | some kind => token source kind first (first + 1) .expression
    | none =>
      if Text.isDigit c then dice source limit first
      else if Text.isLetter c then
        if c = 'd' ∧ Text.isDigit (charAt source (first + 1)) ∧ ¬announcesName last then
          dice source limit first
        else do
          let position ← passRun source limit Text.continuesName (first + 1)
          let kind :=
            if last = some .pipe ∧
                Modifier.isName (String.ofList (lexeme source first position)) then .modifier
            else .identifier
          token source kind first position .expression
      else stop (.reported (.invalidCharacter .expression c)) first first .expression

def step (s : Scanner) : Scanning Stride :=
  if isAtLineEnd source s.position then
    token source .newline s.position
      (s.position + if charAt source s.position = '\r' then 2 else 1) .declaration
  else if isAtComment source s.position then comment source limit s.position s.mode
  else
    match s.mode with
    | .declaration => declarationStep source limit s.position
    | .ruleContent => contentStep source limit s.position
    | .expression => expressionStep source limit s.last s.position

def run : Nat → Scanner → Scanning Scan
  | steps, s =>
    if isAtEnd source s.position then return ⟨[.endAt s.position], s.mode⟩
    else
      match steps with
      | 0 => unfinished
      | steps + 1 => do
        let stride ← step source limit s
        let scan ← run steps (s.after stride)
        return ⟨stride.token.toList ++ scan.tokens, scan.mode⟩

inductive Reaches : Nat → Scanner → Prop
  | start : Reaches 0 .start
  | step {steps s stride} : Reaches steps s → isAtEnd source s.position = false →
      step source limit s = pure stride → Reaches (steps + 1) (s.after stride)

end Source

end Scanner

end RandomTables
