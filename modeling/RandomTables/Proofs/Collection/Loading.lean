import RandomTables.Proofs.Collection.Declarations

namespace RandomTables

theorem findSome?_flatMap {α β γ : Type} (l : List α) (f : α → List β) (g : β → Option γ) :
    (l.flatMap f).findSome? g = l.findSome? fun a => (f a).findSome? g := by
  induction l with
  | nil => rfl
  | cons a rest ih =>
    rw [List.flatMap_cons, List.findSome?_append, ih, List.findSome?_cons]
    cases (f a).findSome? g <;> rfl

namespace Program

/-- The expressions that are checked, each with the id of its table: by the ids in the order of
their first declaration, those of the last declaration in order. -/
def checkedExpressions (p : Program) : List (String × Item) :=
  p.tableIds.eraseDups.flatMap fun id =>
    (p.lastDeclaration? id).toList.flatMap fun t =>
      t.rules.flatMap fun r => r.value.expressions.map fun item => (id, item)

def expressionFault? (p : Program) (owner : String) : Item → Option CollectionError
  | .table id _ => if id ∈ p.tableIds then none else some (.invalidReference id owner)
  | .external publisher collection id _ =>
    some (.missingDependency publisher collection id owner)
  | .text _ | .dice _ => none

/-- What keeps a program from being a collection: the first declaration without rules or, where all
have some, the first faulty one of the expressions that are checked. -/
def fault? (p : Program) : Option CollectionError :=
  match p.declarations.find? (·.rules.isEmpty) with
  | some t => some (.emptyTable t.id)
  | none => p.checkedExpressions.findSome? fun (owner, item) => p.expressionFault? owner item

def Resolves (p : Program) : Item → Prop
  | .table id _ => id ∈ p.tableIds
  | .external .. => False
  | .text _ | .dice _ => True

/-- All declarations have rules, and all references in those that count lead to a declaration,
wherever it stands. -/
structure IsComplete (p : Program) : Prop where
  rules : ∀ t ∈ p.declarations, t.rules ≠ []
  resolves : ∀ owner t, p.lastDeclaration? owner = some t → ∀ r ∈ t.rules,
    ∀ item ∈ r.value.content, p.Resolves item

/-- Texts are never at fault, so that a search of the content is one of its expressions. -/
theorem findSome?_expressions (p : Program) (owner : String) (r : Rule) :
    r.expressions.findSome? (p.expressionFault? owner) =
      r.content.findSome? (p.expressionFault? owner) := by
  rw [Rule.expressions]
  induction r.content with
  | nil => rfl
  | cons item rest ih =>
    cases item <;>
      simp [List.filter_cons, Item.isExpression, List.findSome?_cons, expressionFault?, ih]

/-- The tables are checked against a directory that has all ids of the program. -/
theorem fault?_of_table (p : Program) (tables : Directory PreparedTable)
    (h : ∀ id, tables.contains id = true ↔ id ∈ p.tableIds) (t : Table) :
    t.fault? tables =
      t.rules.findSome? fun r => r.value.expressions.findSome? (p.expressionFault? t.id) := by
  have hitem : Item.fault? tables t.id = p.expressionFault? t.id := by
    funext item
    cases item with
    | table id modifiers => simp only [Item.fault?, expressionFault?, h]
    | _ => rfl
  simp only [Table.fault?, findSome?_expressions, hitem]

/-- To check the tables in turn is to check all expressions in turn. -/
theorem findSome?_checkedExpressions (p : Program) (tables : Directory PreparedTable)
    (h : ∀ id, tables.find? id = (p.lastDeclaration? id).map .ofTable) :
    Collection.firstFault? p.tableIds.eraseDups tables =
      p.checkedExpressions.findSome? fun (owner, item) => p.expressionFault? owner item := by
  have hcontains (id : String) : tables.contains id = true ↔ id ∈ p.tableIds := by
    rw [Directory.contains, h, Option.isSome_map, isSome_lastDeclaration]
  rw [Collection.firstFault?, checkedExpressions, findSome?_flatMap]
  congr 1
  funext id
  rw [h]
  cases hlast : p.lastDeclaration? id with
  | none => rfl
  | some t =>
    have hid := lastDeclaration_id hlast
    simp only [Option.map_some, Option.bind_some, Option.toList_some, List.flatMap_singleton,
      findSome?_flatMap, List.findSome?_map]
    rw [PreparedTable.ofTable, fault?_of_table p tables hcontains, hid]
    rfl

theorem mem_checkedExpressions (p : Program) (owner : String) (item : Item) :
    (owner, item) ∈ p.checkedExpressions ↔ ∃ t, p.lastDeclaration? owner = some t ∧
      ∃ r ∈ t.rules, item ∈ r.value.expressions := by
  simp only [checkedExpressions, List.mem_flatMap, List.mem_map, List.mem_eraseDups,
    Option.mem_toList, Prod.mk.injEq]
  constructor
  · rintro ⟨id, -, t, ht, r, hr, other, hother, rfl, rfl⟩
    exact ⟨t, ht, r, hr, hother⟩
  · rintro ⟨t, ht, r, hr, hitem⟩
    have hid := (p.isSome_lastDeclaration owner).mp (Option.isSome_of_mem ht)
    exact ⟨owner, hid, t, ht, r, hr, item, hitem, rfl, rfl⟩

theorem expressionFault?_eq_none_iff (p : Program) (owner : String) (item : Item) :
    p.expressionFault? owner item = none ↔ p.Resolves item := by
  cases item <;> simp [expressionFault?, Resolves]

theorem resolves_of_text (p : Program) (item : Item) (h : item.isExpression = false) :
    p.Resolves item := by
  cases item with
  | text => trivial
  | _ => cases h

/-- Programs without a fault are those that are complete. -/
theorem fault?_eq_none_iff (p : Program) : p.fault? = none ↔ p.IsComplete := by
  have hrules : p.declarations.find? (·.rules.isEmpty) = none ↔
      ∀ t ∈ p.declarations, t.rules ≠ [] := by
    simp
  have hchecked : (p.checkedExpressions.findSome? fun (owner, item) =>
        p.expressionFault? owner item) = none ↔
      ∀ owner t, p.lastDeclaration? owner = some t → ∀ r ∈ t.rules, ∀ item ∈ r.value.content,
        p.Resolves item := by
    rw [List.findSome?_eq_none_iff]
    constructor
    · intro h owner t ht r hr item hitem
      cases hexpression : item.isExpression with
      | false => exact p.resolves_of_text item hexpression
      | true =>
        have hmem := (p.mem_checkedExpressions owner item).mpr
          ⟨t, ht, r, hr, List.mem_filter.mpr ⟨hitem, hexpression⟩⟩
        exact (p.expressionFault?_eq_none_iff owner item).mp (h _ hmem)
    · rintro h ⟨owner, item⟩ hmem
      obtain ⟨t, ht, r, hr, hitem⟩ := (p.mem_checkedExpressions owner item).mp hmem
      have hresolves := h owner t ht r hr item (List.mem_filter.mp hitem).1
      exact (p.expressionFault?_eq_none_iff owner item).mpr hresolves
  rw [fault?]
  -- Expressions are looked at only where no declaration is empty.
  constructor
  · intro h
    split at h
    · cases h
    · rename_i hfind
      exact ⟨hrules.mp hfind, hchecked.mp h⟩
  · intro h
    rw [hrules.mpr h.rules]
    exact hchecked.mpr h.resolves

end Program

namespace Collection

def ofDeclarations (p : Program) : Collection :=
  ⟨(Declarations.ofTables p.declarations).ids, (Declarations.ofTables p.declarations).tables⟩

/-- A table without rules is reported whatever the references are. -/
theorem outcome_of_empty {p : Program} {t : Table}
    (h : p.declarations.find? (·.rules.isEmpty) = some t) :
    (load p).outcome = .error (.emptyTable t.id) := by
  have hempty := Declarations.addAll_empty {} p.declarations
  rw [h] at hempty
  rw [load, ← Program.declarations]
  generalize Declarations.addAll {} p.declarations = taken at hempty
  obtain ⟨d, empty⟩ := taken
  obtain rfl : empty = some t.id := hempty
  rfl

/-- Where no declaration is empty, every one of them is taken in. -/
theorem load_of_rules {p : Program} (h : p.declarations.find? (·.rules.isEmpty) = none) :
    load p = ⟨(Declarations.ofTables p.declarations).repeated,
      match firstFault? (ofDeclarations p).ids (ofDeclarations p).tables with
      | some error => .error error
      | none => .ok (ofDeclarations p)⟩ := by
  have hempty := Declarations.addAll_empty {} p.declarations
  have htaken := Declarations.addAll_taken {} p.declarations h
  rw [h] at hempty
  rw [load, ← Program.declarations]
  generalize Declarations.addAll {} p.declarations = taken at hempty htaken
  obtain ⟨d, empty⟩ := taken
  obtain rfl : empty = none := hempty
  obtain rfl : d = Declarations.ofTables p.declarations := htaken
  rw [ofDeclarations]
  dsimp only
  cases firstFault? _ _ <;> rfl

/-- Either the first fault is reported, or all declarations make the collection. -/
theorem outcome_eq (p : Program) :
    (load p).outcome = match p.fault? with
      | some error => .error error
      | none => .ok (ofDeclarations p) := by
  have hchecked := p.findSome?_checkedExpressions (Declarations.ofTables p.declarations).tables
    (Declarations.records_ofTables p.declarations).find
  rw [p.tableIds_eq, ← (Declarations.records_ofTables p.declarations).ids] at hchecked
  rw [Program.fault?, ← hchecked]
  cases hfind : p.declarations.find? (·.rules.isEmpty) with
  | some t => rw [outcome_of_empty hfind]
  | none => rw [load_of_rules hfind, ofDeclarations]

theorem load_eq_ok_iff (p : Program) (c : Collection) :
    (load p).outcome = .ok c ↔ p.IsComplete ∧ c = ofDeclarations p := by
  rw [outcome_eq, ← p.fault?_eq_none_iff]
  cases p.fault? with
  | some error => simp
  | none => simp [eq_comm]

/-- The outcome of making a collection, for every program. It fails with what is wrong first, and
succeeds where the declarations that count leave nothing open. -/
theorem outcome_determined (p : Program) :
    (∀ error, (load p).outcome = .error error ↔ p.fault? = some error) ∧
      ((∃ c, (load p).outcome = .ok c) ↔ p.IsComplete) := by
  constructor
  · intro error
    rw [outcome_eq]
    cases p.fault? <;> simp
  · constructor
    · rintro ⟨c, hc⟩
      exact ((load_eq_ok_iff p c).mp hc).1
    · intro h
      exact ⟨_, (load_eq_ok_iff p _).mpr ⟨h, rfl⟩⟩

section Loaded
variable {p : Program} {c : Collection}

theorem isComplete_of_load (h : (load p).outcome = .ok c) : p.IsComplete :=
  ((load_eq_ok_iff p c).mp h).1

/-- By each id a collection has the last declaration of it. -/
theorem find?_of_load (h : (load p).outcome = .ok c) (id : String) :
    c.tables.find? id = (p.lastDeclaration? id).map .ofTable := by
  obtain ⟨-, rfl⟩ := (load_eq_ok_iff p c).mp h
  exact (Declarations.records_ofTables p.declarations).find id

theorem find?_of_declaration (h : (load p).outcome = .ok c) {id : String} {t : Table}
    (ht : p.lastDeclaration? id = some t) : c.tables.find? id = some (.ofTable t) := by
  rw [find?_of_load h, ht, Option.map_some]

theorem hasTable_of_load (h : (load p).outcome = .ok c) (id : String) :
    c.hasTable id = true ↔ id ∈ p.tableIds := by
  rw [hasTable, Directory.contains, find?_of_load h, Option.isSome_map,
    p.isSome_lastDeclaration]

theorem ids_of_load (h : (load p).outcome = .ok c) : c.ids = p.tableIds.eraseDups := by
  obtain ⟨-, rfl⟩ := (load_eq_ok_iff p c).mp h
  rw [p.tableIds_eq]
  exact (Declarations.records_ofTables p.declarations).ids

theorem size_of_load (h : (load p).outcome = .ok c) : c.size = p.tableIds.eraseDups.length := by
  rw [← ids_of_load h]
  obtain ⟨-, rfl⟩ := (load_eq_ok_iff p c).mp h
  have hnames := (Declarations.records_ofTables p.declarations).names
  rw [ofDeclarations, ← hnames, Directory.names, List.length_map, size]

theorem declaration_of_load (h : (load p).outcome = .ok c) {id : String}
    (hid : c.hasTable id = true) : ∃ t, p.lastDeclaration? id = some t := by
  rw [hasTable_of_load h, ← p.isSome_lastDeclaration] at hid
  exact Option.isSome_iff_exists.mp hid

/-- A table of a collection has rules. -/
theorem rules_of_load (h : (load p).outcome = .ok c) {id : String} {t : Table}
    (ht : p.lastDeclaration? id = some t) : t.rules ≠ [] :=
  (isComplete_of_load h).rules t (Program.lastDeclaration_mem ht)

end Loaded

end Collection

end RandomTables
