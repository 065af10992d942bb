import RandomTables.Token.Step

namespace RandomTables

/-- Reading stopped at a word that begins at `start`, having looked at the text up to `cursor`. -/
structure ScanFault where
  fault : StepFault
  start : Nat
  cursor : Nat
  mode : Mode
  deriving DecidableEq, Repr

structure Scan where
  tokens : List Token
  mode : Mode

def Token.endAt (offset : Nat) : Token where
  kind := .endOfInput
  lexeme := ""
  span := .empty offset

def Token.ofBite (kind : TokenKind) (bite : Bite) (offset : Nat) (c : Char) (rest : List Char) :
    Token where
  kind := kind
  lexeme := String.ofList (c :: rest.take bite.more)
  span := ⟨offset, offset + (bite.more + 1), by omega⟩
  value := bite.value

def scanFrom (mode : Mode) (last : Option TokenKind) (offset : Nat) :
    List Char → Except ScanFault Scan
  | [] => .ok ⟨[.endAt offset], mode⟩
  | c :: rest =>
    match step mode last c rest with
    | .error halt => .error ⟨halt.fault, offset, offset + halt.seen, halt.mode⟩
    | .ok bite =>
      let next := offset + (bite.more + 1)
      match bite.kind with
      | none => scanFrom bite.mode last next (rest.drop bite.more)
      | some kind =>
        match scanFrom bite.mode (some kind) next (rest.drop bite.more) with
        | .error fault => .error fault
        | .ok scan => .ok ⟨.ofBite kind bite offset c rest :: scan.tokens, scan.mode⟩
termination_by input => input.length
decreasing_by all_goals simp only [List.length_drop, List.length_cons]; omega

def scan (source : List Char) : Except ScanFault Scan :=
  scanFrom .declaration none 0 source

def ScanFault.error? (f : ScanFault) (source : List Char) : Option LexError :=
  match f.fault with
  | .reported fault => some ⟨fault.kind, fault.diagnose (.ofSource source) f.start⟩
  | .overlongDice => none

end RandomTables
