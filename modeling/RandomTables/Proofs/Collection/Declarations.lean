import Mathlib.Data.List.Induction
import RandomTables.Collection

namespace RandomTables

namespace Directory
variable {α : Type}

def names (d : Directory α) : List String :=
  d.map (·.1)

theorem contains_iff (d : Directory α) (name : String) :
    d.contains name = true ↔ name ∈ d.names := by
  induction d with
  | nil => simp [contains, find?, names]
  | cons entry rest ih =>
    obtain ⟨other, value⟩ := entry
    by_cases h : name = other
    · simp [contains, find?, names, h]
    · simp only [contains, find?, names, h, if_false, List.map_cons, List.mem_cons, false_or]
      exact ih

/-- A name comes in at the end, and stays where it is when it comes again. -/
theorem names_assign (d : Directory α) (name : String) (value : α) :
    (d.assign name value).names = if name ∈ d.names then d.names else d.names ++ [name] := by
  induction d with
  | nil => rfl
  | cons entry rest ih =>
    obtain ⟨other, old⟩ := entry
    by_cases h : name = other
    · simp [assign, names, h]
    · simp only [names] at ih
      by_cases hrest : name ∈ rest.map (·.1)
      · simp [assign, h, names, ih, hrest]
      · simp [assign, h, names, ih, hrest]

end Directory

namespace Program

def declarations (p : Program) : List Table :=
  p.tables.map (·.value)

def lastDeclaration? (p : Program) (id : String) : Option Table :=
  p.declarations.findRev? (·.id = id)

theorem tableIds_eq (p : Program) : p.tableIds = p.declarations.map (·.id) := by
  simp [tableIds, declarations]

theorem lastDeclaration_id {p : Program} {id : String} {t : Table}
    (h : p.lastDeclaration? id = some t) : t.id = id := by
  rw [lastDeclaration?, List.findRev?_eq_find?_reverse] at h
  simpa using List.find?_some h

theorem lastDeclaration_mem {p : Program} {id : String} {t : Table}
    (h : p.lastDeclaration? id = some t) : t ∈ p.declarations := by
  rw [lastDeclaration?, List.findRev?_eq_find?_reverse] at h
  exact List.mem_reverse.mp (List.mem_of_find?_eq_some h)

/-- The ids that have a declaration that counts are those that are declared at all. -/
theorem isSome_lastDeclaration (p : Program) (id : String) :
    (p.lastDeclaration? id).isSome = true ↔ id ∈ p.tableIds := by
  simp [lastDeclaration?, tableIds_eq]

end Program

def repeats (ids : List String) : List String :=
  (ids.zipIdx.filter fun (id, i) => id ∈ ids.take i).map (·.1)

/-- The last id of a list is repeated if the list has it before. -/
theorem repeats_concat (ids : List String) (id : String) :
    repeats (ids ++ [id]) = repeats ids ++ if id ∈ ids then [id] else [] := by
  have hfront : (ids.zipIdx.filter fun (other, i) => other ∈ (ids ++ [id]).take i) =
      ids.zipIdx.filter fun (other, i) => other ∈ ids.take i := by
    refine List.filter_congr fun (other, i) hmem => ?_
    dsimp only
    rw [List.take_append_of_le_length (Nat.le_of_lt (List.snd_lt_of_mem_zipIdx hmem))]
  rw [repeats, List.zipIdx_append, List.filter_append, List.map_append, hfront, ← repeats]
  congr 1
  by_cases h : id ∈ ids <;> simp [h]

theorem eraseDups_concat (ids : List String) (id : String) :
    (ids ++ [id]).eraseDups = if id ∈ ids then ids.eraseDups else ids.eraseDups ++ [id] := by
  rw [List.eraseDups_append, List.removeAll]
  by_cases h : id ∈ ids <;> simp [h, List.eraseDups_cons]

namespace Declarations

/-- To take in a table changes what is found by its id and nothing else. -/
theorem find?_add (d : Declarations) (t : Table) (id : String) :
    (d.add t).tables.find? id = if id = t.id then some (.ofTable t) else d.tables.find? id := by
  rw [← Directory.find?_assign]
  simp only [add]
  split <;> rfl

/-- Directory and list of ids are kept in step with each table that is taken in. -/
theorem names_add (d : Declarations) (t : Table) (h : d.tables.names = d.ids) :
    (d.add t).tables.names = (d.add t).ids := by
  have hnames := d.tables.names_assign t.id (.ofTable t)
  have hcontains := d.tables.contains_iff t.id
  rw [h] at hnames hcontains
  simp only [add]
  split
  · rename_i hknown
    rw [hnames, if_pos (hcontains.mp hknown)]
  · rename_i hnew
    rw [hnames, if_neg fun hmem => hnew (hcontains.mpr hmem)]

def ofTables (ts : List Table) : Declarations :=
  ts.foldl add {}

theorem ofTables_concat (ts : List Table) (t : Table) :
    ofTables (ts ++ [t]) = (ofTables ts).add t := by
  simp [ofTables]

/-- What the declarations record of the tables that were taken in: every id once, in the order of
the first declarations, with the table of its last one, and apart from that the ids that came
again. -/
structure Records (d : Declarations) (ts : List Table) : Prop where
  names : d.tables.names = d.ids
  ids : d.ids = (ts.map (·.id)).eraseDups
  find : ∀ id, d.tables.find? id = (ts.findRev? (·.id = id)).map .ofTable
  repeated : d.repeated = repeats (ts.map (·.id))

theorem Records.contains_iff {d : Declarations} {ts : List Table} (h : d.Records ts) (id : String) :
    d.tables.contains id = true ↔ id ∈ ts.map (·.id) := by
  rw [d.tables.contains_iff, h.names, h.ids, List.mem_eraseDups]

/-- Taking in one more table keeps the directory and the list of ids in step. -/
theorem Records.add {d : Declarations} {ts : List Table} (h : d.Records ts) (t : Table) :
    (d.add t).Records (ts ++ [t]) := by
  have hknown := h.contains_iff t.id
  constructor
  case names => exact names_add d t h.names
  case ids =>
    rw [List.map_append, List.map_singleton, eraseDups_concat, ← h.ids]
    simp only [Declarations.add, hknown]
    split <;> rfl
  case find =>
    intro id
    rw [find?_add, h.find]
    by_cases hid : id = t.id
    · simp [hid]
    · simp [hid, Ne.symm hid]
  case repeated =>
    rw [List.map_append, List.map_singleton, repeats_concat, ← h.repeated]
    simp only [Declarations.add, hknown]
    split
    · rfl
    · rw [List.append_nil]

/-- By induction on the tables, of which the last is taken in last. -/
theorem records_ofTables (ts : List Table) : (ofTables ts).Records ts := by
  induction ts using List.reverseRecOn with
  | nil => exact ⟨rfl, rfl, fun _ => rfl, rfl⟩
  | append_singleton ts t ih =>
    rw [ofTables_concat]
    exact ih.add t

/-- Of the tables without rules the first is answered. -/
theorem addAll_empty (d : Declarations) (ts : List Table) :
    (d.addAll ts).2 = (ts.find? (·.rules.isEmpty)).map (·.id) := by
  induction ts generalizing d with
  | nil => rfl
  | cons t rest ih =>
    rw [addAll, List.find?_cons]
    cases t.rules.isEmpty with
    | true => rfl
    | false => exact ih (d.add t)

/-- If all tables have rules, all are taken in. -/
theorem addAll_taken (d : Declarations) (ts : List Table)
    (h : ts.find? (·.rules.isEmpty) = none) : (d.addAll ts).1 = ts.foldl add d := by
  induction ts generalizing d with
  | nil => rfl
  | cons t rest ih =>
    rw [List.find?_cons] at h
    rw [addAll]
    cases hempty : t.rules.isEmpty with
    | true => simp [hempty] at h
    | false =>
      rw [hempty] at h
      exact ih (d.add t) h

end Declarations

end RandomTables
