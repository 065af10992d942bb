namespace RandomTables

inductive Stage where
  | lexing
  | parsing
  | meaning
  deriving DecidableEq, Repr

structure Location where
  position : Int
  line : Int
  column : Int
  endPosition : Option Int := none
  endColumn : Option Int := none
  deriving DecidableEq, Repr

def Location.isSpan (l : Location) : Bool :=
  l.endPosition.isSome && l.endColumn.isSome

structure Diagnostic where
  stage : Stage
  location : Location
  message : String
  sourceLine : String
  suggestion : Option String := none
  code : Option String := none
  deriving DecidableEq, Repr

def Diagnostic.severity (d : Diagnostic) : String :=
  match d.stage with
  | .lexing | .parsing | .meaning => "error"

end RandomTables
