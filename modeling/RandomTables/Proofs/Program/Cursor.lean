import RandomTables.Program.OfSource

/-! Reading tokens by position. The parts of a program are read as from a list, but only the token
at the current position is looked at, and the position moves on from every token other than an end
of input. Nothing keeps a position within the list, nor does a loop have to come to an end: a
position past the last token has a failure of its own, and each loop has a number of rounds, after
which there is no outcome at all. A reading ends if it has an outcome for some number of rounds. -/
namespace RandomTables

inductive Stop where
  /-- There is no token at the position. -/
  | outside
  | failed (failure : ParseFailure)

/-- Readings from a position. One that has not ended is `none`. -/
abbrev Cursor := StateT Nat (ExceptT Stop Option)

namespace Cursor
variable {α : Type}

def unfinished : Cursor α := fun _ => none

def ofPayload : Except PayloadFault α → Cursor α
  | .ok a => return a
  | .error fault => throw (.failed (.badPayload fault))

def spanTo (first : Token) (stop : Nat) : Cursor Span :=
  match Span.ofOffsets first.span.start stop with
  | .ok span => return span
  | .error fault => throw (.failed (.badSpan fault))

section Tokens
variable (tokens : List Token)

def current : Cursor Token := do
  match tokens[← get]? with
  | some t => return t
  | none => throw .outside

/-- Moves on from the current token, but never from an end of input. -/
def advance : Cursor Token := do
  let t ← current tokens
  if t.kind = .endOfInput then return t
  else
    modify (· + 1)
    return t

def eat (kind : TokenKind) : Cursor Bool := do
  if (← current tokens).kind = kind then
    let _ ← advance tokens
    return true
  else return false

variable (table : LineTable)

def unexpected (expected : Expectation) : Cursor α := do
  let t ← current tokens
  let remaining := if t.kind = .endOfInput then [] else [t]
  throw (.failed ((Misparse.unexpected expected remaining).failure table t))

def expect (kind : TokenKind) (expected : Expectation) : Cursor Token := do
  if (← current tokens).kind = kind then advance tokens else unexpected tokens table expected

def modifiers : Nat → Cursor (List String)
  | 0 => unfinished
  | rounds + 1 => do
    if ← eat tokens .pipe then
      let t ← current tokens
      if t.kind = .identifier then unexpected tokens table .knownModifier
      else if t.kind = .modifier then
        let _ ← advance tokens
        return t.lexeme :: (← modifiers rounds)
      else unexpected tokens table .modifier
    else return []

-- Every loop begins with this number of rounds.
variable (limit : Nat)

def tableReference : Cursor Item := do
  let _ ← advance tokens
  let id ← expect tokens table .identifier .tableName
  return .table id.lexeme (← modifiers tokens table limit)

def externalReference : Cursor Item := do
  let _ ← advance tokens
  let publisher ← expect tokens table .identifier .publisher
  let _ ← expect tokens table .slash .slash
  let collection ← expect tokens table .identifier .collection
  let _ ← expect tokens table .hash .hash
  let id ← expect tokens table .identifier .tableName
  return .external publisher.lexeme collection.lexeme id.lexeme (← modifiers tokens table limit)

def braced : Cursor Item := do
  let t ← current tokens
  match t.kind with
  | .hash => tableReference tokens table limit
  | .atSign => externalReference tokens table limit
  | .diceRoll => do
    let _ ← advance tokens
    return .dice (← ofPayload t.dice)
  | _ => unexpected tokens table .expression

def expression : Cursor (Located Item) := do
  let opening ← advance tokens
  let item ← braced tokens table limit
  let closing ← expect tokens table .rightBrace .closingBrace
  return ⟨item, ← spanTo opening closing.span.stop⟩

def content : Nat → Nat → Cursor (List Item × Nat)
  | 0, _ => unfinished
  | rounds + 1, stop => do
    let t ← current tokens
    match t.kind with
    | .text => do
      let _ ← advance tokens
      let (items, stop') ← content rounds t.span.stop
      return (consText t.lexeme items, stop')
    | .leftBrace => do
      let e ← expression tokens table limit
      let (items, stop') ← content rounds e.span.stop
      return (e.value :: items, stop')
    | _ => return ([], stop)

def rule : Cursor (Located Rule) := do
  let weight ← advance tokens
  let colon ← expect tokens table .colon .colon
  let (items, stop) ← content tokens table limit limit colon.span.stop
  if items.all Item.isBlank then unexpected tokens table .ruleContent
  else
    let w ← ofPayload weight.number
    return ⟨⟨w, items⟩, ← spanTo weight stop⟩

def rules : Nat → Nat → Cursor (List (Located Rule) × Nat)
  | 0, _ => unfinished
  | rounds + 1, stop => do
    if ← eat tokens .newline then rules rounds stop
    else
      let t ← current tokens
      match t.kind with
      | .number => do
        let r ← rule tokens table limit
        let (more, stop') ← rules rounds r.span.stop
        return (r :: more, stop')
      | .hash | .endOfInput => return ([], stop)
      | _ => unexpected tokens table .rule

def unknownFlag (bracket flag : Token) : Cursor α := do
  let remaining := (tokens.drop (← get)).takeWhile (·.kind ≠ .endOfInput)
  throw (.failed ((Misparse.unknownFlag bracket flag remaining).failure table flag))

def flags (bracket : Token) : Nat → Cursor Nat
  | 0 => unfinished
  | rounds + 1 => do
    let t ← current tokens
    match t.kind with
    | .exportWord => do
      let _ ← advance tokens
      if ← eat tokens .comma then flags bracket rounds
      else return (← expect tokens table .rightBracket .flagEnd).span.stop
    | .identifier => unknownFlag tokens table bracket t
    | _ => unexpected tokens table .flag

def headerEnd (name : Token) : Cursor (Bool × Nat) := do
  if (← current tokens).kind = .leftBracket then
    let bracket ← advance tokens
    return (true, ← flags tokens table bracket limit)
  else return (false, name.span.stop)

def checkLineEnd : Cursor Unit := do
  let t ← current tokens
  if t.kind = .newline ∨ t.kind = .endOfInput then return ()
  else unexpected tokens table .lineEnd

def tableDeclaration : Cursor (Located Table) := do
  let hash ← advance tokens
  let name ← expect tokens table .identifier .tableName
  let (exported, stop) ← headerEnd tokens table limit name
  checkLineEnd tokens table
  let (rules, stop) ← rules tokens table limit limit stop
  return ⟨⟨name.lexeme, exported, rules⟩, ← spanTo hash stop⟩

def declarations : Nat → Cursor (List (Located Table))
  | 0 => unfinished
  | rounds + 1 => do
    if (← current tokens).kind = .endOfInput then return []
    else if ← eat tokens .newline then declarations rounds
    else if (← current tokens).kind = .hash then
      let declared ← tableDeclaration tokens table limit
      return declared :: (← declarations rounds)
    else unexpected tokens table .tableDeclaration

def program : Cursor Program := do
  let tables ← declarations tokens table limit limit
  if tables.isEmpty then
    throw (.failed (Misparse.noTables.failure table (← current tokens)))
  else return ⟨tables⟩

end Tokens

def read (limit : Nat) (source : List Char) (tokens : List Token) : Option (Except Stop Program) :=
  match tokens.getLast? with
  | some last =>
    if last.kind = .endOfInput then
      ((program tokens (.ofSource source) limit).run' 0).run
    else some (.error (.failed .noEndOfInput))
  | none => some (.error (.failed .noEndOfInput))

end Cursor

end RandomTables
