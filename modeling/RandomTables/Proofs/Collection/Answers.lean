import RandomTables.Proofs.Collection.Generation
import RandomTables.Proofs.Program.RoundTrip

namespace RandomTables
open Generation

variable {σ : Type} [WordSource σ]

/-- The dice of a source can be rolled. -/
theorem Program.dice_inBounds {source : String} {p : Program} (h : parse source = .ok p) :
    ∀ d ∈ p.dice, d.InBounds := by
  intro d hd
  obtain ⟨t, ht, hd⟩ := List.mem_flatMap.mp hd
  obtain ⟨r, hr, hd⟩ := List.mem_flatMap.mp hd
  obtain ⟨item, hitem, hdice⟩ := List.mem_filterMap.mp hd
  obtain ⟨table, htable, rfl⟩ := List.mem_map.mp ht
  have hwritable := (wellFormed_of_parse source p h table htable r hr).writable item hitem
  cases hwritable with
  | dice hbounds =>
    cases hdice
    exact hbounds
  | _ => cases hdice

theorem Dice.InBounds.rolls {d : Dice} (h : d.InBounds) : 1 ≤ d.rolls ∧ d.rolls ≤ maxDice := by
  obtain ⟨count, sides⟩ := d
  cases count with
  | none => exact ⟨Int.le_refl 1, (by decide : (1 : Int) ≤ maxDice)⟩
  | some n => exact h.count n rfl

/-- The sums of dice in bounds are never too long to be written out: they have twenty digits. -/
theorem Dice.InBounds.not_isOverlong {d : Dice} (h : d.InBounds) : ¬d.IsOverlong := by
  have hsum : d.rolls * d.sides ≤ maxDice * maxDice :=
    Int.mul_le_mul h.rolls.2 h.sides.2 (by have := h.sides.1; omega) (by decide)
  have hmax : maxDice * maxDice < Nat.pow 10 20 := by decide
  have hdigits : Nat.pow 10 20 ≤ leastUnwritable := pow_le_leastUnwritable (by decide)
  rw [Dice.IsOverlong]
  omega

namespace Collection

/-- The outcomes of calls that are made one after the other on one random state, each with the id of
a table and a count. A call that fails leaves behind the draws that it made. -/
def answers (c : Collection) (attempts depth : Nat) (calls : List (String × Int)) :
    StateM σ (List (Except GenerateFailure String)) :=
  calls.mapM fun (id, count) => (c.generate attempts depth id count).run

/-- The first call leaves its random state to the others, whether it fails or not. -/
theorem answers_cons (c : Collection) (attempts depth : Nat) (id : String) (count : Int)
    (calls : List (String × Int)) (s : σ) :
    (c.answers attempts depth ((id, count) :: calls)).run s =
      (((c.generate attempts depth id count).run s).1 ::
        ((c.answers attempts depth calls).run ((c.generate attempts depth id count).run s).2).1,
        ((c.answers attempts depth calls).run
          ((c.generate attempts depth id count).run s).2).2) := by
  rw [answers, List.mapM_cons]
  rfl

/-- What holds of each call from every random state holds of the answers, one by one. -/
theorem answers_forall₂ {c : Collection} {attempts depth : Nat}
    {R : String × Int → Except GenerateFailure String → Prop} {calls : List (String × Int)}
    (h : ∀ call ∈ calls, ∀ s : σ, R call ((c.generate attempts depth call.1 call.2).run s).1)
    (s : σ) : List.Forall₂ R calls ((c.answers attempts depth calls).run s).1 := by
  induction calls generalizing s with
  | nil => exact .nil
  | cons call calls ih =>
    obtain ⟨hcall, hcalls⟩ := List.forall_mem_cons.mp h
    rw [answers_cons]
    exact .cons (hcall s) (ih hcalls _)

/-- The collection of a source is that of the program of the source. -/
theorem ofSource_eq_ok {source : String} {loading : Loading} {c : Collection}
    (h : ofSource source = .ok loading) (hc : loading.outcome = .ok c) :
    ∃ p, Program.parse source = .ok p ∧ (load p).outcome = .ok c := by
  rw [ofSource] at h
  split at h
  · rename_i p hparse
    cases h
    exact ⟨p, hparse, hc⟩
  · cases h
    cases hc
  · cases h

/-- A collection that was made of a source selects a rule by any number, and answers every call that
names one of its tables and no negative count. The answer is a text, unless the references lead on
for more steps than are allowed, or a die is not decided within the attempts that it has. -/
theorem answers_of_source {source : String} {loading : Loading} {c : Collection}
    (h : ofSource source = .ok loading) (hc : loading.outcome = .ok c) :
    ∃ p, Program.parse source = .ok p ∧
      (∀ id t, c.table id = .ok t → ∀ drawn,
        0 ≤ t.select drawn ∧ t.select drawn < t.table.rules.length) ∧
      ∀ (attempts depth : Nat) (calls : List (String × Int)),
        (∀ call ∈ calls, c.hasTable call.1 = true ∧ 0 ≤ call.2) → ∀ s : σ,
        List.Forall₂ (fun call answer => (∃ text, answer = .ok text) ∨
          ∃ failure, answer = .error failure ∧ p.RunsOn σ attempts depth call.1 failure)
          calls ((c.answers attempts depth calls).run s).1 := by
  obtain ⟨p, hparse, hload⟩ := ofSource_eq_ok h hc
  have hdice : ∀ d ∈ p.dice, 1 ≤ d.sides :=
    fun d hd => (Program.dice_inBounds hparse d hd).sides.1
  refine ⟨p, hparse, ?_, ?_⟩
  · intro id t ht drawn
    rw [table, find?_of_load hload] at ht
    cases hlast : p.lastDeclaration? id with
    | none => simp [hlast] at ht
    | some declared =>
      obtain rfl : PreparedTable.ofTable declared = t := by simpa [hlast] using ht
      exact PreparedTable.select_bounds declared (rules_of_load hload hlast) drawn
  · intro attempts depth calls hcalls s
    refine answers_forall₂ (fun call hcall s => ?_) s
    obtain ⟨hid, hcount⟩ := hcalls call hcall
    have hanswer := failsOnly_generate hload hdice attempts depth hid hcount s
    generalize ((c.generate attempts depth call.1 call.2).run s).1 = answer at hanswer
    cases answer with
    | ok text => exact .inl ⟨text, rfl⟩
    | error failure =>
      rcases hanswer with hruns | ⟨-, d, hd, hlong⟩
      · exact .inr ⟨failure, rfl, hruns⟩
      · exact absurd hlong (Program.dice_inBounds hparse d hd).not_isOverlong

def selfReference : List Item :=
  [.table "t" [], .dice ⟨some 2, 6⟩]

def twoCalls : List (String × Int) :=
  [("t", 2), ("t", 0)]

/-- A table that refers to itself has no text at any depth, but no texts are still an answer. -/
theorem answers_of_source_selfReference :
    ∃ loading c p, ofSource (ruleSource selfReference) = .ok loading ∧ loading.outcome = .ok c ∧
      Program.parse (ruleSource selfReference) = .ok p ∧
      (∀ call ∈ twoCalls, c.hasTable call.1 = true ∧ 0 ≤ call.2) ∧
      List.Forall₂ (fun call answer => (∃ text, answer = .ok text) ∨ ∃ failure,
        answer = .error failure ∧
          p.RunsOn Twister.State usualAttempts usualDepth call.1 failure)
        twoCalls
          ((c.answers usualAttempts usualDepth twoCalls).run (Twister.State.ofSeed 7)).1 := by
  have hwell : WellFormed selfReference := by
    constructor
    · exact List.cons_ne_nil _ _
    · exact fun hall => absurd (hall (.dice ⟨some 2, 6⟩) (by simp [selfReference])) (by decide)
    · simp [selfReference, ItemsApart, Item.isExpression]
    · simp only [selfReference, List.forall_mem_cons]
      refine ⟨.table ((isName_cons _ _).mpr (by decide)) (by simp), .dice ⟨by decide, ?_⟩, by simp⟩
      intro n hn
      obtain rfl := Option.some.inj hn
      decide
  obtain ⟨ruleSpan, tableSpan, hparse⟩ := parse_ruleSource _ hwell
  generalize hp : Program.mk _ = p at hparse
  have hids : p.tableIds = ["t"] := by rw [← hp]; rfl
  have hcomplete : p.IsComplete := by
    rw [← Program.fault?_eq_none_iff, ← hp]
    rfl
  have hload := (load_eq_ok_iff p _).mpr ⟨hcomplete, rfl⟩
  have hsource : ofSource (ruleSource selfReference) = .ok (load p) := by
    rw [ofSource, hparse]
  have hcalls : ∀ call ∈ twoCalls, (ofDeclarations p).hasTable call.1 = true ∧ 0 ≤ call.2 := by
    simp [twoCalls, hasTable_of_load hload, hids]
  obtain ⟨p', hparse', -, hanswers⟩ := @answers_of_source Twister.State _ _ _ _ hsource hload
  exact ⟨_, _, p', hsource, hload, hparse', hcalls, hanswers usualAttempts usualDepth _ hcalls _⟩

end Collection

end RandomTables
