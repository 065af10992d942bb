import RandomTables.Diagnostic
import RandomTables.Text.Console
import RandomTables.Text.Padding

/-!
Diagnostics for the eye: a heading, the line of the source in question, carets below the place, and
the suggestion. Colours add escape sequences and nothing else.
-/
namespace RandomTables

open Text (Console Piece Style)

structure ExcerptOptions where
  colours : Bool := false
  suggestions : Bool := true
  deriving DecidableEq, Repr

def lineLabel (n : Int) : String :=
  Text.padLeft ' ' 3 (toString n)

namespace Diagnostic

def heading (d : Diagnostic) : String :=
  match d.code with
  | none => d.severity
  | some code => d.severity ++ "[" ++ code ++ "]"

/-- As many blanks as characters stand before the place, then a caret for each character of it.
There is always at least one caret. -/
def carets (d : Diagnostic) : String :=
  let column := d.location.column
  let marked := match d.location.endColumn with
    | none => 1
    | some stop => max (stop - column) 1
  Text.repeated (column - 1).toNat ' ' ++ Text.repeated marked.toNat '^'

def suggestionPieces (suggestion : String) : List Piece :=
  [.ofString (some .blue) "    │\n", .ofString (some .blue) "    = ",
    .ofString (some .boldGreen) "suggestion", .ofString none (": " ++ suggestion ++ "\n")]

def pieces (d : Diagnostic) (suggestions : Bool) : List Piece :=
  let l := d.location
  [.ofString (some .boldRed) d.heading, .ofString (some .bold) (": " ++ d.message ++ "\n"),
    .ofString (some .blue) s!"    ┌─ line {l.line}:{l.column}\n", .ofString (some .blue) "    │\n",
    .ofString (some .blue) (lineLabel l.line ++ " │ "), .ofString none (d.sourceLine ++ "\n"),
    .ofString (some .blue) "    │ ", .ofString (some .boldRed) (d.carets ++ "\n")] ++
  match d.suggestion with
  | some suggestion => if suggestions then suggestionPieces suggestion else []
  | none => []

def render (d : Diagnostic) (options : ExcerptOptions := {}) (console : Console := .standard) :
    String :=
  let pieces := d.pieces options.suggestions
  String.ofList (if options.colours then console.print pieces else Text.plainText pieces)

def renderAll (ds : List Diagnostic) (options : ExcerptOptions := {})
    (console : Console := .standard) : String :=
  "\n".intercalate (ds.map (·.render options console))

end Diagnostic

end RandomTables
