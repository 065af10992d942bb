import RandomTables.Collection
import RandomTables.Random.Draw

/-!
Generating texts from a collection. One number is drawn for the rule of a table; then the items of
the rule are put out from left to right, references by generating from the table that they name.
The random state is kept also when generating fails. References may lead on without end and a die
may never be decided, so both are followed to limits; what is beyond them is a failure of its own.
-/
namespace RandomTables

inductive GenerateFailure where
  | error (e : CollectionError)
  | negativeCount (count : Int)
  /-- A die has less than one side. -/
  | noSides
  /-- The sum of a dice roll has more digits than are written out. -/
  | overlongSum
  /-- The references lead on beyond the limit. -/
  | endless
  /-- A die with so many sides is not decided within the limit. -/
  | undecided (sides : Nat)
  deriving DecidableEq, Repr

def leastUnwritable : Nat :=
  Nat.pow 10 maxDiceDigits

def isWritable (n : Int) : Bool :=
  n.natAbs < leastUnwritable

def GenerateFailure.message? : GenerateFailure → Option String
  | error e => some e.message
  | negativeCount count =>
    if isWritable count then some ("count must be non-negative, got " ++ toString count) else none
  | noSides | overlongSum | endless | undecided _ => none

abbrev Generation (σ : Type) := ExceptT GenerateFailure (StateM σ)

variable {σ : Type} [WordSource σ]

section Rolls
variable (attempts : Nat)

/-- One die. If it is not decided, the random state is that of before the die. -/
def rollDie (sides : Nat) : Generation σ Nat :=
  ExceptT.mk fun s =>
    match (drawDie? attempts sides).run s with
    | (some n, s') => (.ok n, s')
    | (none, _) => (.error (.undecided sides), s)

def rollFrom (sum : Int) (sides : Nat) : Nat → Generation σ Int
  | 0 => return sum
  | dice + 1 => do
    let n ← rollDie attempts sides
    rollFrom (sum + n) sides dice

def Dice.roll (d : Dice) : Generation σ Int :=
  if d.rolls ≤ 0 then return 0
  else if d.sides < 1 then throw .noSides
  else rollFrom attempts 0 d.sides.toNat d.rolls.toNat

def Item.generate (single : String → Generation σ String) (owner : String) :
    Item → Generation σ String
  | .text s => return s
  | .table id modifiers => return Modifier.applyAll (← single id) modifiers
  | .external publisher collection id _ =>
    throw (.error (.missingDependency publisher collection id owner))
  | .dice d => do
    let sum ← d.roll attempts
    if isWritable sum then return toString sum else throw .overlongSum

def Rule.generate (single : String → Generation σ String) (owner : String) (r : Rule) :
    Generation σ String :=
  return Text.strip (String.join (← r.content.mapM (Item.generate attempts single owner)))

end Rolls

namespace Collection

/-- One text from a table, with references nested up to the given depth and dice decided within the
given number of attempts. -/
def generateNested (c : Collection) (attempts : Nat) : Nat → String → Generation σ String
  | 0, _ => throw .endless
  | depth + 1, id => do
    match c.table id with
    | .error e => throw (.error e)
    | .ok t =>
      let fraction ← (drawFraction : StateM σ Float)
      let index := t.select (fraction * t.total)
      match if index < 0 then none else t.table.rules[index.toNat]? with
      | some rule => rule.value.generate attempts (generateNested c attempts depth) id
      | none =>
        throw (.error (.generation s!"Invalid rule index {index} for table '{id}'"))

def generateMany (c : Collection) (attempts depth : Nat) (id : String) (count : Nat) :
    Generation σ (List String) :=
  (List.replicate count id).mapM (c.generateNested attempts depth)

def generate (c : Collection) (attempts depth : Nat) (id : String) (count : Int) :
    Generation σ String := do
  if count < 0 then throw (.negativeCount count)
  else return ", ".intercalate (← c.generateMany attempts depth id count.toNat)

def usualDepth : Nat := 1000

def usualAttempts : Nat := 1 <<< 32

end Collection

end RandomTables
