import RandomTables.Proofs.Collection.Generation
import RandomTables.Proofs.Decimal.Numeral

namespace RandomTables
open Generation

variable {σ : Type} [WordSource σ]

namespace Tower

def name (level : Nat) : String :=
  "t" ++ level.repr

def table (height level : Nat) : Table :=
  ⟨name level, false, [⟨⟨1, [if level < height then .table (name (level + 1)) [] else .text "end"]⟩,
    .empty 0⟩]⟩

/-- Tables on levels from zero up to the height, each of which refers to the next one. -/
def program (height : Nat) : Program :=
  ⟨(List.range (height + 1)).map fun level => ⟨table height level, .empty 0⟩⟩

theorem name_injective {level other : Nat} (h : name level = name other) : level = other := by
  have hdigits := congrArg String.toList ((String.append_right_inj "t").mp h)
  rw [Nat.toList_repr, Nat.toList_repr] at hdigits
  rw [← Decimal.natOfDigits_toDigits level, hdigits, Decimal.natOfDigits_toDigits]

theorem declarations_eq (height : Nat) :
    (program height).declarations = (List.range (height + 1)).map (table height) := by
  simp [Program.declarations, program]

theorem mem_declarations {height : Nat} {t : Table} :
    t ∈ (program height).declarations ↔ ∃ level ≤ height, t = table height level := by
  simp only [declarations_eq, List.mem_map, List.mem_range, Nat.lt_succ_iff, eq_comm]

theorem mem_tableIds {height level : Nat} (h : level ≤ height) :
    name level ∈ (program height).tableIds := by
  rw [Program.tableIds_eq]
  exact List.mem_map.mpr ⟨_, mem_declarations.mpr ⟨level, h, rfl⟩, rfl⟩

/-- Each level has one table, and no two levels have the same id. -/
theorem lastDeclaration_iff {height : Nat} {id : String} {t : Table} :
    (program height).lastDeclaration? id = some t ↔
      ∃ level ≤ height, id = name level ∧ t = table height level := by
  constructor
  · intro h
    obtain ⟨level, hlevel, rfl⟩ := mem_declarations.mp (Program.lastDeclaration_mem h)
    exact ⟨level, hlevel, (Program.lastDeclaration_id h).symm, rfl⟩
  · rintro ⟨level, hlevel, rfl, rfl⟩
    have hknown := ((program height).isSome_lastDeclaration _).mpr (mem_tableIds hlevel)
    obtain ⟨t, ht⟩ := Option.isSome_iff_exists.mp hknown
    obtain ⟨other, -, rfl⟩ := mem_declarations.mp (Program.lastDeclaration_mem ht)
    obtain rfl := name_injective (Program.lastDeclaration_id ht)
    exact ht

/-- References lead one level up. -/
theorem refers {height : Nat} {owner id : String} (h : (program height).Refers owner id) :
    ∃ level, owner = name level ∧ id = name (level + 1) := by
  obtain ⟨t, ht, hid⟩ := h
  obtain ⟨level, -, rfl, rfl⟩ := lastDeclaration_iff.mp ht
  refine ⟨level, rfl, ?_⟩
  by_cases hlevel : level < height
  · simpa [table, Table.references, Rule.references, hlevel] using hid
  · simp [table, Table.references, Rule.references, hlevel] at hid

/-- A way back would lead down, but every step leads up. -/
theorem isAcyclic (height : Nat) : (program height).IsAcyclic := by
  -- References only lead up.
  have hup {owner id : String} (h : Relation.TransGen (program height).Refers owner id) :
      ∃ level other, level < other ∧ owner = name level ∧ id = name other := by
    induction h with
    | single hrefers =>
      obtain ⟨level, rfl, rfl⟩ := refers hrefers
      exact ⟨level, _, Nat.lt_succ_self level, rfl, rfl⟩
    | tail _ hrefers ih =>
      obtain ⟨level, other, hlt, rfl, hother⟩ := ih
      obtain ⟨other', rfl, rfl⟩ := refers hrefers
      obtain rfl := name_injective hother
      exact ⟨level, _, Nat.lt_succ_of_lt hlt, rfl, rfl⟩
  intro id h
  obtain ⟨level, other, hlt, rfl, hother⟩ := hup h
  exact absurd (name_injective hother) (Nat.ne_of_lt hlt)

/-- The last level has no reference, and all others refer to a level that there is. -/
theorem isComplete (height : Nat) : (program height).IsComplete := by
  constructor
  · intro t ht
    obtain ⟨level, -, rfl⟩ := mem_declarations.mp ht
    exact List.cons_ne_nil _ _
  · intro owner t ht r hr item hitem
    obtain ⟨level, hlevel, rfl, rfl⟩ := lastDeclaration_iff.mp ht
    obtain rfl := List.mem_singleton.mp hr
    obtain rfl := List.mem_singleton.mp hitem
    by_cases hnext : level < height
    · rw [if_pos hnext]
      exact mem_tableIds hnext
    · rw [if_neg hnext]
      trivial

theorem dice_eq_nil (height : Nat) : (program height).dice = [] := by
  rw [Program.dice, List.flatMap_eq_nil_iff]
  intro t ht
  obtain ⟨level, -, rfl⟩ := mem_declarations.mp ht
  by_cases hlevel : level < height <;> simp [table, hlevel]

/-- Generating from a level of a tower has no end for as long as there is a further level. -/
theorem endless_generateNested {height : Nat} {c : Collection}
    (h : (Collection.load (program height)).outcome = .ok c) (attempts depth : Nat) {level : Nat}
    (hlevel : level + depth ≤ height) :
    Ensures (c.generateNested attempts depth (name level) : Generation σ String) (fun _ => False)
      (· = .endless) := by
  induction depth generalizing level with
  | zero => exact ensures_throw rfl
  | succ depth ih =>
    have ht := lastDeclaration_iff.mpr ⟨level, (by omega : level ≤ height), rfl, rfl⟩
    refine Collection.ensures_generateNested_succ h ht fun r hr => ?_
    obtain rfl := List.mem_singleton.mp hr
    -- The rule stands below the top, so that its only item refers to the next level.
    have hnext : level < height := by omega
    have hreference := ih (by omega : level + 1 + depth ≤ height)
    have hitem : Ensures ((Item.table (name (level + 1)) []).generate attempts
        (c.generateNested attempts depth) (name level) : Generation σ String) (fun _ => False)
        (· = .endless) :=
      ensures_bind hreference fun _ => False.elim
    rw [if_pos hnext]
    exact fails_rule rfl hitem

/-- However much room there is for nested generations, some tables without circles need more. -/
theorem endless_generate {height : Nat} {c : Collection}
    (h : (Collection.load (program height)).outcome = .ok c) (attempts : Nat) (s : σ) :
    ((c.generate attempts height (name 0) 1).run s).1 = .error .endless := by
  have hlevels : 0 + height ≤ height := by omega
  exact Collection.fails_generate (endless_generateNested h attempts height hlevels) s

end Tower

end RandomTables
