import RandomTables.Diagnostic
import RandomTables.Span
import RandomTables.Text.Lines

namespace RandomTables

/-- A line by number, counted from one, with its characters from `start` up to `stop`. The line
feed, and one carriage return before it, are not among them. -/
structure Line where
  number : Nat
  start : Nat
  stop : Nat
  deriving DecidableEq, Repr

def Line.ofRaw (number start : Nat) (raw : List Char) : Line :=
  ⟨number, start, start + (Text.withoutReturn raw).length⟩

def linesFrom (number start : Nat) : List (List Char) → List Line
  | [] => []
  | raw :: rest =>
    Line.ofRaw number start raw :: linesFrom (number + 1) (start + raw.length + 1) rest

structure LineTable where
  source : List Char
  first : Line
  others : List Line
  deriving Repr

namespace LineTable

def ofSource (source : List Char) : LineTable :=
  let (raw, rest) := Text.linesOf source
  ⟨source, Line.ofRaw 1 0 raw, linesFrom 2 (raw.length + 1) rest⟩

def lines (t : LineTable) : List Line :=
  t.first :: t.others

/-- The first line that does not end before the position, or the last line of all. -/
def lineAt (t : LineTable) (position : Int) : Line :=
  match t.lines.find? (fun line => position ≤ line.stop) with
  | some line => line
  | none => t.others.getLastD t.first

def columnOn (line : Line) (position : Int) : Int :=
  max (line.start : Int) (min position line.stop) - line.start + 1

def locate (t : LineTable) (position : Int) : Location :=
  let line := t.lineAt position
  { position, line := line.number, column := columnOn line position }

/-- The place of a stretch of text. It ends on the line it begins on: a stretch that runs over
several lines is shown up to the end of the first. -/
def locateSpan (t : LineTable) (start stop : Int) : Location :=
  let line := t.lineAt start
  { position := start
    line := line.number
    column := columnOn line start
    endPosition := some stop
    endColumn := some (min stop line.stop - line.start + 1) }

def textAt (t : LineTable) (position : Int) : String :=
  let line := t.lineAt position
  String.ofList ((t.source.drop line.start).take (line.stop - line.start))

def diagnose (t : LineTable) (stage : Stage) (position : Int) (message : String)
    (code : Option String) (suggestion : Option String := none) : Diagnostic :=
  { stage, location := t.locate position, message, sourceLine := t.textAt position, suggestion
    code }

def diagnoseSpan (t : LineTable) (stage : Stage) (start stop : Int) (message : String)
    (code : Option String) (suggestion : Option String := none) : Diagnostic :=
  { stage, location := t.locateSpan start stop, message, sourceLine := t.textAt start, suggestion
    code }

end LineTable

end RandomTables
