namespace RandomTables

abbrev Directory (α : Type) := List (String × α)

namespace Directory

variable {α : Type}

def find? (name : String) : Directory α → Option α
  | [] => none
  | (other, value) :: rest => if name = other then some value else find? name rest

/-- Gives a name a value. A known name keeps its place and loses its old value. -/
def assign (name : String) (value : α) : Directory α → Directory α
  | [] => [(name, value)]
  | (other, old) :: rest =>
    if name = other then (name, value) :: rest else (other, old) :: assign name value rest

def contains (name : String) (d : Directory α) : Bool :=
  (d.find? name).isSome

/-- To assign a value changes what is found by its name and nothing else. -/
theorem find?_assign (d : Directory α) (name other : String) (value : α) :
    find? other (assign name value d) = if other = name then some value else find? other d := by
  induction d with
  | nil => simp [assign, find?]
  | cons entry rest ih =>
    obtain ⟨key, old⟩ := entry
    by_cases hk : name = key
    · subst hk
      by_cases h : other = name <;> simp [assign, find?, h]
    · by_cases ho : other = key
      · simp [assign, find?, hk, ho, Ne.symm hk]
      · simp [assign, find?, hk, ho, ih]

end Directory

end RandomTables
