import RandomTables.Diagnostic.Excerpt
import RandomTables.Program.Reader.Table
import RandomTables.Token.Scan

namespace RandomTables

inductive ParseErrorKind where
  | unexpectedToken (expected found : String)
  | unexpectedEnd (expected : String)
  | invalidCharacter (character : String)
  | invalidNumber (reason : String)
  deriving DecidableEq, Repr

structure ParseError where
  kind : ParseErrorKind
  diagnostic : Diagnostic
  deriving DecidableEq, Repr

def ParseError.message (e : ParseError) : String :=
  e.diagnostic.render

inductive ParseFailure where
  | reported (error : ParseError)
  | overlongDice
  | noEndOfInput
  | badPayload (fault : PayloadFault)
  | badSpan (fault : SpanFault)
  | unknownLexError
  deriving DecidableEq, Repr

def ParseFailure.message? : ParseFailure → Option String
  | reported error => some error.message
  | overlongDice => none
  | noEndOfInput => some "Token stream must end with an EOF token"
  | badPayload fault => some fault.message
  | badSpan fault => some fault.message
  | unknownLexError => some "Unsupported lex error type: LexError"

def ParseError.ofLexError (e : LexError) : Except ParseFailure ParseError :=
  match e.kind with
  | .character c => .ok ⟨.invalidCharacter c, e.diagnostic⟩
  | .number reason => .ok ⟨.invalidNumber reason, e.diagnostic⟩
  | .other => .error .unknownLexError

def ScanFault.failure (f : ScanFault) (source : List Char) : ParseFailure :=
  match f.error? source with
  | none => .overlongDice
  | some e =>
    match ParseError.ofLexError e with
    | .ok error => .reported error
    | .error failure => failure

/-- Where the text of a flag list ends, given the end of the part before: after its closing bracket,
or before the next line, table or end of input if it is never closed. -/
def flagListEnd (stop : Nat) : List Token → Nat
  | [] => stop
  | t :: rest =>
    match t.kind with
    | .newline | .hash => stop
    | .rightBracket => t.span.stop
    | _ => flagListEnd t.span.stop rest

/-- The failure to report for a fault in the grammar, given the token that ends the input. The fault
is reported where the first remaining token begins; an unknown flag, with the whole flag list. -/
def Misparse.failure (table : LineTable) (last : Token) : Misparse → ParseFailure
  | unexpected expected remaining =>
    let t := remaining.headD last
    let found := t.describe
    let diagnostic := table.diagnose .parsing t.span.start (expected.message found)
      (some expected.code) expected.hint
    let kind : ParseErrorKind :=
      if remaining.isEmpty then .unexpectedEnd expected.describe
      else .unexpectedToken expected.describe found
    .reported ⟨kind, diagnostic⟩
  | unknownFlag bracket flag remaining =>
    .reported ⟨.unexpectedToken "'export'" flag.describe,
      table.diagnoseSpan .parsing bracket.span.start (flagListEnd flag.span.stop remaining)
        ("Unknown table flag '" ++ flag.lexeme ++ "'") (some "PARSER_UNKNOWN_FLAG")
        (some "The only supported flag is 'export', e.g. '#table[export]'")⟩
  | noTables =>
    .reported ⟨.unexpectedEnd "table declaration",
      table.diagnose .parsing last.span.start "Expected at least one table declaration"
        (some "PARSER_MISSING_TABLE")
        (some ("Declare a table like '#colors' followed by weighted rules such as '1.0: red'"))⟩
  | badPayload fault => .badPayload fault
  | badSpan fault => .badSpan fault

namespace Program

/-- The program that tokens make. The list ends with an end of input, and what follows the first
one is not looked at. -/
def ofTokens (source : List Char) (tokens : List Token) : Except ParseFailure Program :=
  match tokens.getLast? with
  | none => .error .noEndOfInput
  | some last =>
    if last.kind = .endOfInput then
      let ending := (tokens.find? (·.kind = .endOfInput)).getD last
      (readProgram (tokens.takeWhile (·.kind ≠ .endOfInput))).mapError
        (·.failure (.ofSource source) ending)
    else .error .noEndOfInput

def parse (source : String) : Except ParseFailure Program :=
  match scan source.toList with
  | .error fault => .error (fault.failure source.toList)
  | .ok s => ofTokens source.toList s.tokens

def isValid (source : String) : Except ParseFailure Bool :=
  match parse source with
  | .ok _ => .ok true
  | .error (.reported _) => .ok false
  | .error failure => .error failure

end Program

end RandomTables
