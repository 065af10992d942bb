import RandomTables.Collection.Generate
import RandomTables.Decimal.Percent

namespace RandomTables

namespace Distribution

def addShare {α : Type} [OfNat α 0] [Add α] [Div α] (total : α) (shares : Directory α)
    (weighted : String × α) : Directory α :=
  let (text, weight) := weighted
  shares.assign text ((shares.find? text).getD 0 + weight / total)

/-- The share of each text in the total, in the order in which the texts come up first. The weights
of the same text count together. -/
def sharesOf {α : Type} [OfNat α 0] [Add α] [Div α] (total : α) (weighted : List (String × α)) :
    Directory α :=
  weighted.foldl (addShare total) []

def expectedShares {α : Type} [OfNat α 0] [Add α] [Div α] (total : α) (weigh : Located Rule → α)
    (rules : List (Located Rule)) : Directory α :=
  sharesOf total (rules.map fun rule => (rule.value.contentText, weigh rule))

structure Row (α : Type) where
  text : String
  expected : α
  observed : α

namespace Row

def difference (r : Row Float) : Float :=
  r.observed - r.expected

def render (r : Row Float) : String :=
  Text.padRight ' ' 30 (String.ofList (r.text.toList.take 30)) ++ " " ++
    Text.padLeft ' ' 9 (Decimal.shareFormat.render r.expected) ++ " " ++
    Text.padLeft ' ' 9 (Decimal.shareFormat.render r.observed) ++ " " ++
    Text.padLeft ' ' 8 (Decimal.differenceFormat.render r.difference) ++ "\n"

end Row

instance natCastFloat : NatCast Float :=
  ⟨Float.ofNat⟩

def observedShare {α : Type} [NatCast α] [Div α] (samples : List String) (trials : Nat)
    (text : String) : α :=
  (samples.count text : α) / (trials : α)

def rows {α : Type} [NatCast α] [Div α] (shares : Directory α) (samples : List String)
    (trials : Nat) : List (Row α) :=
  shares.map fun (text, expected) => ⟨text, expected, observedShare samples trials text⟩

/-- The greatest difference of all rows, regardless of its sign. One that is not a number is passed
over. -/
def worst (rows : List (Row Float)) : Float :=
  rows.foldl (fun worst r => if worst < r.difference.abs then r.difference.abs else worst) 0

def render (id : String) (trials : Nat) (rows : List (Row Float)) : String :=
  s!"Table: {id}\nTrials: {trials}\n" ++
    Text.padRight ' ' 30 "rule" ++ " " ++ Text.padLeft ' ' 9 "expected" ++ " " ++
    Text.padLeft ' ' 9 "observed" ++ " " ++ Text.padLeft ' ' 8 "delta" ++ "\n" ++
    String.join (rows.map Row.render) ++
    "Largest deviation: " ++ Decimal.shareFormat.render (worst rows) ++ "\n"

inductive Failure where
  | tooFewTrials
  | error (e : CollectionError)
  | notPlain (id : String)
  | unreadable (failure : ParseFailure)
  | notGenerated (failure : GenerateFailure)

def Failure.message? : Failure → Option String
  | tooFewTrials => some "--trials must be at least 1"
  | error e => some e.message
  | notPlain id =>
    some ("Table '" ++ id ++ "' contains expressions; only plain-text tables can be checked")
  | unreadable failure => failure.message?
  | notGenerated failure => failure.message?

def plainTable (c : Collection) (id : String) : Except Failure PreparedTable := do
  let t ← (c.table id).mapError .error
  if t.table.rules.any fun rule => !rule.value.expressions.isEmpty then .error (.notPlain id)
  else return t

def sampling {σ : Type} [WordSource σ] (c : Collection) (id : String) (trials : Nat) :
    Generation σ (List String) :=
  c.generateMany Collection.usualAttempts Collection.usualDepth id trials

def check {σ : Type} [WordSource σ] (text id : String) (trials : Int) (random : σ) :
    Except Failure String := do
  if trials < 1 then .error .tooFewTrials
  else
    let source := String.ofList (Text.unifyLineEnds text.toList)
    let loading ← (Collection.ofSource source).mapError .unreadable
    let c ← loading.outcome.mapError .error
    let t ← plainTable c id
    let samples ← ((sampling c id trials.toNat).run random).1.mapError .notGenerated
    let shares := expectedShares t.total (·.value.weight) t.table.rules
    return render id trials.toNat (rows shares samples trials.toNat)

end Distribution

end RandomTables
