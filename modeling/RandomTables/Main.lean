import RandomTables.Report.Distribution
import RandomTables.Report.TokenListing

namespace RandomTables

inductive Command where
  | tokens (path : Option String) (colours verbose : Bool)
  | distribution (path table : String) (seed : Option Int) (trials : Int)

namespace Command

def ofTokensArgs (path : Option String) (colours verbose : Bool) : List String → Option Command
  | [] => some (.tokens path colours verbose)
  | "--color" :: rest => ofTokensArgs path true verbose rest
  | "--verbose" :: rest => ofTokensArgs path colours true rest
  | arg :: rest => if path.isNone then ofTokensArgs (some arg) colours verbose rest else none

/-- Reads the arguments of `distribution`. Progress is never shown, so that to ask for none changes
nothing. -/
def ofDistributionArgs (names : List String) (seed : Option Int) (trials : Int) :
    List String → Option Command
  | [] =>
    match names with
    | [path, table] => some (.distribution path table seed trials)
    | _ => none
  | "--seed" :: n :: rest =>
    n.toInt?.bind fun seed => ofDistributionArgs names (some seed) trials rest
  | "--trials" :: n :: rest =>
    n.toInt?.bind fun trials => ofDistributionArgs names seed trials rest
  | "--no-progress" :: rest => ofDistributionArgs names seed trials rest
  | arg :: rest => ofDistributionArgs (names ++ [arg]) seed trials rest

def ofArgs? : List String → Option Command
  | "tokens" :: rest => ofTokensArgs none false false rest
  | "distribution" :: rest => ofDistributionArgs [] none 10000 rest
  | _ => none

def usage : String :=
  "usage: randomtables tokens [FILE] [--color] [--verbose]\n" ++
    "       randomtables distribution FILE TABLE [--seed N] [--trials N] [--no-progress]\n"

def finish (o : CommandOutput) : IO UInt32 := do
  IO.print o.out
  IO.eprint o.err
  return UInt32.ofNat o.exitCode

def failed (message : Option String) : CommandOutput :=
  ⟨1, "", message.getD "the source cannot be read" ++ "\n"⟩

def run : Command → IO UInt32
  | tokens path colours verbose => do
    let text ← match path with
      | some path => IO.FS.readFile path
      | none => (← IO.getStdin).readToEnd
    match listTokens text colours verbose with
    | .ok output => finish output
    | .error failure => finish (failed failure.message?)
  | distribution path table seed trials => do
    let text ← IO.FS.readFile path
    let seed ← match seed with
      | some seed => pure seed
      | none => Int.ofNat <$> IO.monoNanosNow
    match Distribution.check text table trials (Twister.State.ofSeed seed) with
    | .ok report => finish ⟨0, report, ""⟩
    | .error failure => finish (failed failure.message?)

end Command

end RandomTables

def main (args : List String) : IO UInt32 :=
  match RandomTables.Command.ofArgs? args with
  | some command => command.run
  | none => RandomTables.Command.finish ⟨2, "", RandomTables.Command.usage⟩
