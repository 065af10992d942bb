import Mathlib.Data.Set.Insert
import RandomTables.Proofs.Collection.Answers

namespace RandomTables

theorem mapM_congr {σ α β : Type} {l : List α} {f g : α → Generation σ β}
    (h : ∀ a ∈ l, f a = g a) : l.mapM f = l.mapM g := by
  induction l with
  | nil => rfl
  | cons a l ih =>
    obtain ⟨ha, hl⟩ := List.forall_mem_cons.mp h
    rw [List.mapM_cons, List.mapM_cons, ha, ih hl]

variable {σ : Type} [WordSource σ] {attempts : Nat}

/-- A rule looks only at the tables that it refers to. -/
theorem Rule.generate_congr {r : Rule} {single single' : String → Generation σ String}
    (owner : String) (h : ∀ id ∈ r.references, single id = single' id) :
    r.generate attempts single owner = r.generate attempts single' owner := by
  have hitem : ∀ item ∈ r.content,
      item.generate attempts single owner = item.generate attempts single' owner := by
    intro item hitem
    cases item with
    | table id modifiers =>
      rw [Item.generate, h id (List.mem_filterMap.mpr ⟨_, hitem, rfl⟩)]
      rfl
    | _ => rfl
  rw [Rule.generate, mapM_congr hitem]
  rfl

theorem PreparedTable.table_ofTable (t : Table) : (ofTable t).table = t :=
  rfl

/-- Tables with the same rules are made ready alike, wherever they stand. -/
theorem PreparedTable.sums_congr {t u : Table}
    (h : t.rules.map (·.value) = u.rules.map (·.value)) :
    (ofTable t).sums = (ofTable u).sums := by
  have hweights (v : Table) :
      v.rules.map (·.value.weight) = (v.rules.map (·.value)).map (·.weight) := by simp
  rw [ofTable, ofTable]
  simp only [hweights, h]

namespace Collection
variable {c d : Collection}

/-- Two tables with the same rules generate alike, if the tables do that they refer to. -/
theorem generateNested_succ_congr {id : String} {t u : Table}
    (ht : c.tables.find? id = some (.ofTable t)) (hu : d.tables.find? id = some (.ofTable u))
    (hrules : t.rules.map (·.value) = u.rules.map (·.value)) {m n : Nat}
    (hreferences : ∀ other ∈ t.references,
      (c.generateNested attempts m other : Generation σ String) =
        d.generateNested attempts n other) :
    (c.generateNested attempts (m + 1) id : Generation σ String) =
      d.generateNested attempts (n + 1) id := by
  have hsums := PreparedTable.sums_congr hrules
  have htotal : (PreparedTable.ofTable t).total = (PreparedTable.ofTable u).total :=
    congrArg (·.getLastD 0) hsums
  -- The rules may stand at other places of the source, so that only what they hold is the same.
  have hrule (i : Nat) : (t.rules[i]?).map (·.value) = (u.rules[i]?).map (·.value) := by
    rw [← List.getElem?_map, hrules, List.getElem?_map]
  rw [generateNested, generateNested, table, table, ht, hu]
  dsimp only
  congr 1
  funext fraction
  rw [PreparedTable.select, PreparedTable.select, hsums, htotal]
  generalize selectIndex (PreparedTable.ofTable u).sums _ = index
  rw [PreparedTable.table_ofTable, PreparedTable.table_ofTable]
  by_cases hindex : index < 0
  · rw [if_pos hindex, if_pos hindex]
  · rw [if_neg hindex, if_neg hindex]
    have hselected := hrule index.toNat
    cases hr : t.rules[index.toNat]? with
    | none =>
      rw [hr] at hselected
      rw [Option.map_eq_none_iff.mp hselected.symm]
    | some r =>
      rw [hr] at hselected
      obtain ⟨r', hr', hvalue⟩ := Option.map_eq_some_iff.mp hselected.symm
      rw [hr']
      dsimp only
      rw [hvalue]
      refine Rule.generate_congr id fun other hother => hreferences other ?_
      exact List.mem_flatMap.mpr ⟨r, List.mem_of_getElem? hr, hother⟩

/-- Any number of texts is generated alike if one is. -/
theorem generate_congr {id : String} {m n : Nat}
    (h : (c.generateNested attempts m id : Generation σ String) = d.generateNested attempts n id)
    (count : Int) :
    (c.generate attempts m id count : Generation σ String) = d.generate attempts n id count := by
  have hmany : (c.generateMany attempts m id count.toNat : Generation σ (List String)) =
      d.generateMany attempts n id count.toNat := by
    refine mapM_congr fun other hother => ?_
    rw [List.eq_of_mem_replicate hother]
    exact h
  rw [generate, generate, hmany]

/-- Two collections with the same rules in a set of tables that no reference leads out of: whatever
is called for in that set, both give the same answers and leave the same random state. -/
theorem answers_congr {p q : Program} (hc : (load p).outcome = .ok c)
    (hd : (load q).outcome = .ok d) (R : Set String)
    (hclosed : ∀ owner ∈ R, ∀ id, p.Refers owner id → id ∈ R)
    (hsame : ∀ id ∈ R, ∃ t u, p.lastDeclaration? id = some t ∧ q.lastDeclaration? id = some u ∧
      t.rules.map (·.value) = u.rules.map (·.value))
    (attempts depth : Nat) (calls : List (String × Int)) (hcalls : ∀ call ∈ calls, call.1 ∈ R)
    (s : σ) :
    (c.answers attempts depth calls).run s = (d.answers attempts depth calls).run s := by
  have hnested : ∀ n, ∀ id ∈ R,
      (c.generateNested attempts n id : Generation σ String) = d.generateNested attempts n id := by
    intro n
    induction n with
    | zero => exact fun _ _ => rfl
    | succ n ih =>
      intro id hid
      obtain ⟨t, u, ht, hu, hrules⟩ := hsame id hid
      refine generateNested_succ_congr (find?_of_declaration hc ht) (find?_of_declaration hd hu)
        hrules fun other hother => ih other ?_
      exact hclosed id hid other ⟨t, ht, hother⟩
  -- The first calls are one and the same computation, and leave the other calls one state.
  induction calls generalizing s with
  | nil => rfl
  | cons call calls ih =>
    obtain ⟨hcall, hrest⟩ := List.forall_mem_cons.mp hcalls
    have hgenerate := generate_congr (hnested depth call.1 hcall) call.2
    rw [answers_cons, answers_cons, hgenerate, ih hrest]

def twoTables : Program :=
  ⟨[⟨⟨"a", false, [⟨⟨1, [.table "b" ["uppercase"], .text "!"]⟩, .empty 0⟩]⟩, .empty 0⟩,
    ⟨⟨"b", false, [⟨⟨2, [.dice ⟨some 2, 6⟩]⟩, .empty 0⟩, ⟨⟨1, [.text "x"]⟩, .empty 0⟩]⟩,
      .empty 0⟩]⟩

theorem twoTables_refers {owner id : String} (h : twoTables.Refers owner id) :
    owner = "a" ∧ id = "b" := by
  obtain ⟨t, ht, hid⟩ := h
  have howner := Program.lastDeclaration_id ht
  have hmem := Program.lastDeclaration_mem ht
  simp only [Program.declarations, twoTables, List.map_cons, List.map_nil, List.mem_cons,
    List.not_mem_nil, or_false] at hmem
  rcases hmem with rfl | rfl
  · exact ⟨howner.symm, by simpa [Table.references, Rule.references] using hid⟩
  · simp [Table.references, Rule.references] at hid

/-- The same two tables the other way around and with others: the second one had another rule
before, the first one is exported, and a third one refers to it. -/
def twoTablesAmongOthers : Program :=
  ⟨[⟨⟨"b", false, [⟨⟨1, [.text "y"]⟩, .empty 0⟩]⟩, .empty 0⟩,
    ⟨⟨"c", false, [⟨⟨3, [.table "a" []]⟩, .empty 0⟩]⟩, .empty 0⟩,
    ⟨⟨"b", false, [⟨⟨2, [.dice ⟨some 2, 6⟩]⟩, .empty 5⟩, ⟨⟨1, [.text "x"]⟩, .empty 6⟩]⟩,
      .empty 4⟩,
    ⟨⟨"a", true, [⟨⟨1, [.table "b" ["uppercase"], .text "!"]⟩, .empty 9⟩]⟩, .empty 8⟩]⟩

/-- The collections differ in a declaration that does not count, in an export, and in a table that
refers to the two from outside. -/
theorem answers_congr_twoTables :
    ∃ c d, (load twoTables).outcome = .ok c ∧ (load twoTablesAmongOthers).outcome = .ok d ∧
      (∀ owner ∈ ({"a", "b"} : Set String), ∀ id, twoTables.Refers owner id →
        id ∈ ({"a", "b"} : Set String)) ∧
      (∀ id ∈ ({"a", "b"} : Set String), ∃ t u, twoTables.lastDeclaration? id = some t ∧
        twoTablesAmongOthers.lastDeclaration? id = some u ∧
        t.rules.map (·.value) = u.rules.map (·.value)) ∧
      (∀ call ∈ [("a", 3), ("b", -1)], call.1 ∈ ({"a", "b"} : Set String)) ∧
      (c.answers usualAttempts usualDepth [("a", 3), ("b", -1)]).run (Twister.State.ofSeed 7) =
        (d.answers usualAttempts usualDepth [("a", 3), ("b", -1)]).run
          (Twister.State.ofSeed 7) := by
  have hc := (load_eq_ok_iff twoTables _).mpr ⟨(Program.fault?_eq_none_iff _).mp rfl, rfl⟩
  have hd := (load_eq_ok_iff twoTablesAmongOthers _).mpr
    ⟨(Program.fault?_eq_none_iff _).mp rfl, rfl⟩
  have hclosed : ∀ owner ∈ ({"a", "b"} : Set String), ∀ id, twoTables.Refers owner id →
      id ∈ ({"a", "b"} : Set String) := by
    intro owner _ id h
    exact .inr (twoTables_refers h).2
  have hsame : ∀ id ∈ ({"a", "b"} : Set String), ∃ t u, twoTables.lastDeclaration? id = some t ∧
      twoTablesAmongOthers.lastDeclaration? id = some u ∧
      t.rules.map (·.value) = u.rules.map (·.value) := by
    rintro id (rfl | rfl) <;> exact ⟨_, _, rfl, rfl, rfl⟩
  have hcalls : ∀ call ∈ [("a", (3 : Int)), ("b", -1)], call.1 ∈ ({"a", "b"} : Set String) := by
    simp
  exact ⟨_, _, hc, hd, hclosed, hsame, hcalls,
    answers_congr hc hd _ hclosed hsame usualAttempts usualDepth _ hcalls _⟩

end Collection

end RandomTables
