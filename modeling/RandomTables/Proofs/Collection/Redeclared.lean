import RandomTables.Proofs.Collection.Loading

namespace RandomTables

def Program.redeclaredIds (p : Program) : List String :=
  repeats p.tableIds

namespace Collection

/-- The collection has its ids in the order of their first declarations, and by each of them the
last declaration, made ready with one running sum for each rule. -/
structure Keeps (c : Collection) (p : Program) : Prop where
  ids : c.ids = p.tableIds.eraseDups
  known : ∀ id, c.hasTable id = true ↔ id ∈ c.ids
  size : c.size = c.ids.length
  declared : ∀ id ∈ c.ids, ∃ t, p.lastDeclaration? id = some t ∧ c.table id = .ok (.ofTable t) ∧
    (PreparedTable.ofTable t).sums.length = t.rules.length
  undeclared : ∀ id ∉ c.ids, c.table id = .error (.tableNotFound id)
  exported : c.exportedIds = c.ids.filter fun id => (p.lastDeclaration? id).any (·.exported)

theorem length_sums (t : Table) : (PreparedTable.ofTable t).sums.length = t.rules.length := by
  rw [PreparedTable.ofTable, length_runningSums, List.length_map]

theorem repeated_of_load {p : Program} {c : Collection} (h : (load p).outcome = .ok c) :
    (load p).repeated = p.redeclaredIds := by
  have hrules : p.declarations.find? (·.rules.isEmpty) = none := by
    simpa using (isComplete_of_load h).rules
  rw [load_of_rules hrules, (Declarations.records_ofTables p.declarations).repeated,
    ← p.tableIds_eq, Program.redeclaredIds]

theorem keeps_of_load {p : Program} {c : Collection} (h : (load p).outcome = .ok c) :
    c.Keeps p := by
  have hids := ids_of_load h
  have hmem (id : String) : id ∈ c.ids ↔ (p.lastDeclaration? id).isSome = true := by
    rw [hids, List.mem_eraseDups, p.isSome_lastDeclaration]
  constructor
  case ids => exact hids
  case known =>
    intro id
    rw [hasTable_of_load h, hids, List.mem_eraseDups]
  case size => rw [size_of_load h, hids]
  case declared =>
    intro id hid
    obtain ⟨t, ht⟩ := Option.isSome_iff_exists.mp ((hmem id).mp hid)
    refine ⟨t, ht, ?_, length_sums t⟩
    rw [table, find?_of_declaration h ht]
  case undeclared =>
    intro id hid
    rw [hmem, Bool.not_eq_true, Option.isSome_eq_false_iff, Option.isNone_iff_eq_none] at hid
    rw [table, find?_of_load h, hid]
    rfl
  case exported =>
    rw [exportedIds]
    refine List.filter_congr fun id _ => ?_
    rw [find?_of_load h, Option.any_map]
    rfl

/-- A collection that was made has for every id the last declaration at the place of the first, and
of every declaration that came again there is one warning. -/
theorem load_keeps (p : Program) (c : Collection) (h : (load p).outcome = .ok c) :
    c.Keeps p ∧ (load p).warnings = p.redeclaredIds.map Loading.warning := by
  refine ⟨keeps_of_load h, ?_⟩
  rw [Loading.warnings, repeated_of_load h]

def declaredAgain : Program :=
  ⟨[⟨⟨"a", true, [⟨⟨1, [.text "first"]⟩, .empty 0⟩]⟩, .empty 0⟩,
    ⟨⟨"b", false, [⟨⟨1, [.table "c" []]⟩, .empty 0⟩]⟩, .empty 0⟩,
    ⟨⟨"a", false, [⟨⟨1, [.text "second"]⟩, .empty 0⟩, ⟨⟨2, [.text "third"]⟩, .empty 0⟩]⟩, .empty 0⟩,
    ⟨⟨"c", true, [⟨⟨1, [.text "x"]⟩, .empty 0⟩]⟩, .empty 0⟩,
    ⟨⟨"b", true, [⟨⟨1, [.table "a" []]⟩, .empty 0⟩]⟩, .empty 0⟩]⟩

theorem load_declaredAgain :
    (load declaredAgain).outcome = .ok (ofDeclarations declaredAgain) :=
  (load_eq_ok_iff declaredAgain _).mpr ⟨(Program.fault?_eq_none_iff _).mp rfl, rfl⟩

theorem load_keeps_declaredAgain :
    (load declaredAgain).outcome = .ok (ofDeclarations declaredAgain) ∧
      (ofDeclarations declaredAgain).Keeps declaredAgain ∧
      (load declaredAgain).warnings = declaredAgain.redeclaredIds.map Loading.warning :=
  ⟨load_declaredAgain, load_keeps _ _ load_declaredAgain⟩

end Collection

end RandomTables
