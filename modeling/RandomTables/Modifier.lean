import RandomTables.Text.Case

namespace RandomTables

inductive Modifier where
  | indefinite
  | definite
  | capitalize
  | uppercase
  | lowercase
  deriving DecidableEq, Repr

namespace Modifier

def all : List Modifier :=
  [indefinite, definite, capitalize, uppercase, lowercase]

def name : Modifier → String
  | indefinite => "indefinite"
  | definite => "definite"
  | capitalize => "capitalize"
  | uppercase => "uppercase"
  | lowercase => "lowercase"

def ofName? (name : String) : Option Modifier :=
  all.find? (·.name == name)

def isName (name : String) : Bool :=
  (ofName? name).isSome

def startsWithVowel (s : List Char) : Bool :=
  match s with
  | [] => false
  | c :: _ => [['a'], ['e'], ['i'], ['o'], ['u']].contains (Text.lower [c])

def apply (m : Modifier) (s : List Char) : List Char :=
  match m with
  | indefinite => (if startsWithVowel s then "an " else "a ").toList ++ s
  | definite => "the ".toList ++ s
  | capitalize => Text.capitalize s
  | uppercase => Text.upper s
  | lowercase => Text.lower s

def applyNamed (s name : String) : String :=
  match ofName? name with
  | some m => String.ofList (m.apply s.toList)
  | none => s

def applyAll (s : String) (names : List String) : String :=
  names.foldl applyNamed s

@[simp] theorem ofName?_name (m : Modifier) : ofName? m.name = some m := by
  cases m <;> decide

theorem isName_iff {s : String} : isName s = true ↔ ∃ m : Modifier, m.name = s := by
  constructor
  · intro h
    obtain ⟨m, hm⟩ := Option.isSome_iff_exists.1 h
    exact ⟨m, by simpa using List.find?_some hm⟩
  · rintro ⟨m, rfl⟩
    simp [isName]

end Modifier

end RandomTables
