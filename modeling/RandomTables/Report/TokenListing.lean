import RandomTables.Diagnostic.Excerpt
import RandomTables.Program.OfSource

namespace RandomTables

structure CommandOutput where
  exitCode : Nat
  out : String
  err : String
  deriving DecidableEq, Repr

def readNote (tokens characters : Nat) : String :=
  s!"DEBUG:tblpy.lexer.lexer:Lexed {tokens} tokens from {characters} characters\n"

def listTokens (text : String) (colours verbose : Bool) : Except ParseFailure CommandOutput :=
  let source := Text.unifyLineEnds text.toList
  match scan source with
  | .ok s =>
    .ok ⟨0, Token.listAll s.tokens,
      if verbose then readNote s.tokens.length source.length else ""⟩
  | .error fault =>
    match fault.error? source with
    | some e => .ok ⟨1, "", e.diagnostic.render { colours } ++ "\n"⟩
    | none => .error (fault.failure source)

end RandomTables
