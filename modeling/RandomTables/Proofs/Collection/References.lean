import Mathlib.Data.List.Chain
import Mathlib.Logic.Relation
import RandomTables.Proofs.Collection.Loading

/-! The graph of the references between the tables of a program. Where it has no cycle, no chain of
references visits a table twice, so that none is longer than there are tables. -/
namespace RandomTables

def Rule.references (r : Rule) : List String :=
  r.content.filterMap fun
    | .table id _ => some id
    | _ => none

def Table.references (t : Table) : List String :=
  t.rules.flatMap (·.value.references)

namespace Program

def Refers (p : Program) (owner id : String) : Prop :=
  ∃ t, p.lastDeclaration? owner = some t ∧ id ∈ t.references

def IsAcyclic (p : Program) : Prop :=
  ∀ id, ¬Relation.TransGen p.Refers id id

/-- The references lead on from a table for the given number of steps. -/
def Nests (p : Program) (steps : Nat) (id : String) : Prop :=
  ∃ chain, chain.length = steps ∧ (id :: chain).IsChain p.Refers

theorem nests_zero (p : Program) (id : String) : p.Nests 0 id :=
  ⟨[], rfl, .singleton id⟩

/-- A reference puts one step in front. -/
theorem nests_succ {p : Program} {owner id : String} {steps : Nat} (hrefers : p.Refers owner id)
    (h : p.Nests steps id) : p.Nests (steps + 1) owner := by
  obtain ⟨chain, rfl, hchain⟩ := h
  exact ⟨id :: chain, rfl, List.isChain_cons_cons.mpr ⟨hrefers, hchain⟩⟩

theorem refers_of_mem {p : Program} {owner id : String} {t : Table} {r : Located Rule}
    (ht : p.lastDeclaration? owner = some t) (hr : r ∈ t.rules)
    (hid : id ∈ r.value.references) : p.Refers owner id :=
  ⟨t, ht, List.mem_flatMap.mpr ⟨r, hr, hid⟩⟩

/-- In a complete program references lead to ids that are declared. -/
theorem mem_tableIds_of_refers {p : Program} (hp : p.IsComplete) {owner id : String}
    (h : p.Refers owner id) : id ∈ p.tableIds := by
  obtain ⟨t, ht, hid⟩ := h
  obtain ⟨r, hr, hid⟩ := List.mem_flatMap.mp hid
  obtain ⟨item, hitem, hreference⟩ := List.mem_filterMap.mp hid
  have hresolves := hp.resolves owner t ht r hr item hitem
  cases item with
  | table id' modifiers =>
    cases hreference
    exact hresolves
  | _ => cases hreference

/-- Without a cycle, what is further on in a chain of references was not met before. -/
theorem nodup_of_isChain {p : Program} (hp : p.IsAcyclic) {chain : List String}
    (h : chain.IsChain p.Refers) : chain.Nodup := by
  -- Paths compose, so that each table of the chain has a path to every later one.
  have hpaths : chain.IsChain (Relation.TransGen p.Refers) := h.imp fun _ _ => .single
  refine (List.isChain_iff_pairwise.mp hpaths).imp ?_
  rintro owner id hpath rfl
  exact hp owner hpath

/-- All ids of a chain are declared if the first one is. -/
theorem mem_tableIds_of_isChain {p : Program} (hp : p.IsComplete) {id : String}
    {chain : List String} (hid : id ∈ p.tableIds) (h : (id :: chain).IsChain p.Refers) :
    ∀ other ∈ id :: chain, other ∈ p.tableIds := by
  induction chain generalizing id with
  | nil => simpa using hid
  | cons next chain ih =>
    obtain ⟨hrefers, hrest⟩ := List.isChain_cons_cons.mp h
    exact List.forall_mem_cons.mpr ⟨hid, ih (mem_tableIds_of_refers hp hrefers) hrest⟩

end Program

/-- Without a cycle, the references of a collection lead on for fewer steps than it has tables. -/
theorem Collection.lt_size_of_nests {p : Program} {c : Collection}
    (h : (load p).outcome = .ok c) (hp : p.IsAcyclic) {id : String} (hid : c.hasTable id = true)
    {steps : Nat} (hnests : p.Nests steps id) : steps < c.size := by
  obtain ⟨chain, rfl, hchain⟩ := hnests
  have hknown := Program.mem_tableIds_of_isChain (isComplete_of_load h)
    ((hasTable_of_load h id).mp hid) hchain
  have hsubset : id :: chain ⊆ p.tableIds.eraseDups :=
    fun other hother => List.mem_eraseDups.mpr (hknown other hother)
  have hlength := (Program.nodup_of_isChain hp hchain).length_le_of_subset hsubset
  rw [← size_of_load h, List.length_cons] at hlength
  exact hlength

end RandomTables
