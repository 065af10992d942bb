import RandomTables.Proofs.Collection.GiantDie
import RandomTables.Proofs.Collection.Reachable
import RandomTables.Proofs.Collection.Settled
import RandomTables.Proofs.Collection.Tower

namespace RandomTables
open Generation

variable {σ : Type} [WordSource σ]

namespace Collection
variable {p : Program} {c : Collection}

/-- Room for more nested generations than there are references to follow changes nothing. -/
theorem generateNested_of_le (h : (load p).outcome = .ok c) {attempts depth more : Nat}
    (hle : depth ≤ more) {id : String} (hnests : ¬p.Nests depth id) :
    (c.generateNested attempts more id : Generation σ String) =
      c.generateNested attempts depth id := by
  -- Each reference that is followed takes one from the depth and one from what is left of a chain.
  induction depth generalizing more id with
  | zero => exact absurd (p.nests_zero id) hnests
  | succ depth ih =>
    obtain ⟨more, rfl⟩ : ∃ n, more = n + 1 := ⟨more - 1, by omega⟩
    cases ht : p.lastDeclaration? id with
    | none =>
      have hfind := find?_of_load h id
      rw [ht, Option.map_none] at hfind
      rw [generateNested, generateNested, table, hfind]
    | some t =>
      have hfind := find?_of_declaration h ht
      refine generateNested_succ_congr hfind hfind rfl fun other hother => ?_
      refine ih (Nat.le_of_succ_le_succ hle) fun hrest => hnests ?_
      exact Program.nests_succ ⟨t, ht, hother⟩ hrest

/-- Where there is room for all references and each die is decided in the end, a call gives a text,
or comes to a sum that is too long to be written out. -/
theorem exists_answer_of_room (h : (load p).outcome = .ok c) (hdice : ∀ d ∈ p.dice, 1 ≤ d.sides)
    {depth : Nat} {id : String} (hid : c.hasTable id = true) (hroom : ¬p.Nests depth id)
    {count : Int} (hcount : 0 ≤ count) {s : σ}
    (hreturns : ∀ attempts, DieReturns (c.generate attempts depth id count) s) :
    ∃ least answer s', (∀ attempts, least ≤ attempts →
        (c.generate attempts depth id count).run s = (answer, s')) ∧
      ((∃ text, answer = .ok text) ∨
        answer = .error .overlongSum ∧ ∃ d ∈ p.dice, d.IsOverlong) := by
  obtain ⟨least, ⟨answer, s'⟩, hdecided, hstable⟩ :=
    finishes_generate depth id count s 0 fun attempts _ => hreturns attempts
  refine ⟨least, answer, s', hstable, ?_⟩
  have hends := failsOnly_generate h hdice least depth hid hcount s
  rw [hstable least (Nat.le_refl least)] at hends
  cases answer with
  | ok text => exact .inl ⟨text, rfl⟩
  | error failure =>
    rcases hends with (hlong | _) | ⟨rfl, hlong⟩
    · exact absurd hlong hroom
    · exact absurd rfl (hdecided _ s')
    · exact .inr ⟨rfl, hlong⟩

/-- Without circles, no chain of references is longer than there are tables. Where there is room for
as many nested generations as the longest chain from its table has, a call comes to an end if each
die that it comes to is decided in the end, and more room changes nothing. The call gives a text, or
refuses a negative count, or fails at a sum that is too long to be written out, which no dice of a
source can show. -/
theorem generate_of_isAcyclic (h : (load p).outcome = .ok c)
    (hsides : (∃ source, Program.parse source = .ok p) ∨ ∀ d ∈ p.dice, 1 ≤ d.sides)
    (hacyclic : p.IsAcyclic) {id : String} (hid : c.hasTable id = true) :
    (∀ chain, (id :: chain).IsChain p.Refers → (id :: chain).length ≤ c.size) ∧
      ∀ depth, (∀ chain, (id :: chain).IsChain p.Refers → (id :: chain).length ≤ depth) →
        ∀ (count : Int) (s : σ),
        (∀ attempts, (c.generate attempts depth id count).run s =
          (c.generate attempts c.size id count).run s) ∧
        (0 ≤ count → (∀ attempts, DieReturns (c.generate attempts depth id count) s) →
          ∃ least answer s', (∀ attempts, least ≤ attempts →
              (c.generate attempts depth id count).run s = (answer, s')) ∧
            ((∃ text, answer = .ok text) ∨ answer = .error .overlongSum ∧
              (∃ d ∈ p.dice, d.IsOverlong) ∧ ¬∃ source, Program.parse source = .ok p)) ∧
        (count < 0 → ∀ attempts,
          (c.generate attempts depth id count).run s = (.error (.negativeCount count), s)) := by
  have hdice : ∀ d ∈ p.dice, 1 ≤ d.sides := by
    rcases hsides with ⟨source, hparse⟩ | hdice
    · exact fun d hd => (Program.dice_inBounds hparse d hd).sides.1
    · exact hdice
  have hsize : ∀ chain, (id :: chain).IsChain p.Refers → (id :: chain).length ≤ c.size :=
    fun chain hchain => lt_size_of_nests h hacyclic hid ⟨chain, rfl, hchain⟩
  have hroom (n : Nat) (hn : ∀ chain, (id :: chain).IsChain p.Refers → (id :: chain).length ≤ n) :
      ¬p.Nests n id := by
    rintro ⟨chain, rfl, hchain⟩
    exact Nat.not_succ_le_self _ (hn chain hchain)
  refine ⟨hsize, fun depth hdepth count s => ⟨fun attempts => ?_, ?_, ?_⟩⟩
  · rcases Nat.le_total depth c.size with hle | hle
    · rw [generate_congr (generateNested_of_le h hle (hroom depth hdepth)) count]
    · rw [generate_congr (generateNested_of_le h hle (hroom c.size hsize)) count]
  · intro hcount hreturns
    obtain ⟨least, answer, s', hstable, hanswer⟩ :=
      exists_answer_of_room h hdice hid (hroom depth hdepth) hcount hreturns
    refine ⟨least, answer, s', hstable, hanswer.imp_right ?_⟩
    rintro ⟨hlong, d, hd, hoverlong⟩
    refine ⟨hlong, ⟨d, hd, hoverlong⟩, fun ⟨source, hparse⟩ => ?_⟩
    exact (Program.dice_inBounds hparse d hd).not_isOverlong hoverlong
  · intro hcount attempts
    rw [generate, if_pos hcount]
    rfl

/-- The dice of a call are those of the program, and if some number of attempts decides each of them
from every random state, it does so here. -/
theorem dieReturns_generate (h : (load p).outcome = .ok c) (hdice : ∀ d ∈ p.dice, 1 ≤ d.sides)
    {enough : Nat} (hdecides : ∀ d ∈ p.dice, Decides σ enough d.sides) {id : String}
    (hid : c.hasTable id = true) {count : Int} (hcount : 0 ≤ count) (attempts depth : Nat) (s : σ) :
    DieReturns (c.generate attempts depth id count) s := by
  intro sides s' hrun
  have hends := failsOnly_generate h hdice attempts depth hid hcount s
  rw [hrun] at hends
  rcases hends with (_ | ⟨hd, -⟩) | ⟨heq, -⟩
  · obtain ⟨n, hn⟩ := Option.ne_none_iff_exists'.mp (hdecides _ hd s')
    exact ⟨enough, n, hn⟩
  · cases heq

/-- Tables without circles are not always generated. A tower, even without dice, is not if it is
higher than the usual depth, and dice are not if they come to a sum that is too long to be written
out. A negative count is refused in any case. -/
theorem not_generated_acyclic :
    (∃ c, (load (Tower.program 1000)).outcome = .ok c ∧
      (∀ d ∈ (Tower.program 1000).dice, 1 ≤ d.sides) ∧
      (Tower.program 1000).IsAcyclic ∧ c.hasTable (Tower.name 0) = true ∧
      ∀ (attempts : Nat) (s : Twister.State),
        DieReturns (c.generate attempts usualDepth (Tower.name 0) 1) s ∧
        ((c.generate attempts usualDepth (Tower.name 0) 1).run s).1 = .error .endless ∧
        ((c.generate attempts usualDepth (Tower.name 0) (-1)).run s).1 =
          .error (.negativeCount (-1))) ∧
    ∃ d c, (load (onlyDice d)).outcome = .ok c ∧ (∀ die ∈ (onlyDice d).dice, 1 ≤ die.sides) ∧
      (onlyDice d).IsAcyclic ∧ c.hasTable "t" = true ∧
      ∀ attempts, DieReturns (c.generate attempts usualDepth "t" 1) LowBits.lowBits ∧
        ((c.generate (attempts + 1) usualDepth "t" 1).run LowBits.lowBits).1 =
          .error .overlongSum := by
  refine ⟨?tower, ?dice⟩
  case tower =>
    have hload := (load_eq_ok_iff (Tower.program 1000) _).mpr ⟨Tower.isComplete 1000, rfl⟩
    refine ⟨_, hload, ?_, Tower.isAcyclic 1000, ?_, fun attempts s => ?_⟩
    · rw [Tower.dice_eq_nil]
      exact nofun
    · exact (hasTable_of_load hload _).mpr (Tower.mem_tableIds (Nat.zero_le 1000))
    · have hendless := Tower.endless_generate hload attempts s
      refine ⟨fun sides s' hrun => ?_, hendless, rfl⟩
      have hfailure := hendless.symm.trans (congrArg Prod.fst hrun)
      cases hfailure
  case dice =>
    obtain ⟨d, hsides, hdecides, hroll⟩ := GiantDie.exists_unwritable
    have hload := OnlyDice.load_eq d
    have hdice : ∀ die ∈ (onlyDice d).dice, 1 ≤ die.sides := by
      rw [OnlyDice.dice_eq]
      exact List.forall_mem_singleton.mpr hsides
    have hdecided : ∀ die ∈ (onlyDice d).dice, Decides LowBits 1 die.sides := by
      rw [OnlyDice.dice_eq]
      exact List.forall_mem_singleton.mpr hdecides
    refine ⟨d, _, hload, hdice, OnlyDice.isAcyclic d, rfl, fun attempts => ⟨?_, ?_⟩⟩
    · exact dieReturns_generate hload hdice hdecided rfl (by decide) attempts usualDepth _
    · obtain ⟨n, hn, hlong⟩ := hroll attempts
      exact OnlyDice.overlong_generate hn hlong 999 _

inductive Zeros where
  | zeros

instance : WordSource Zeros :=
  ⟨fun s => (0, s)⟩

theorem drawBits_zeros (count : Nat) : (drawBits count : StateM Zeros Nat) = pure 0 := by
  have hword : (drawWord : StateM Zeros UInt32) = pure 0 := rfl
  induction count using Nat.strongRecOn with
  | ind count ih =>
    rw [drawBits, hword, pure_bind]
    split
    · simp
    · rw [ih (count - 32) (by omega), pure_bind]
      simp

/-- Where all words are zero, one attempt decides every die, which shows one. -/
theorem drawDie_zeros {sides : Nat} (h : 0 < sides) (attempts : Nat) :
    (drawDie? (attempts + 1) sides : StateM Zeros (Option Nat)) = pure (some 1) := by
  rw [drawDie?, drawBelow?, drawBits_zeros, pure_bind, if_pos h, pure_bind]
  rfl

/-- Two tables with a reference and dice, from words that are all zero, which decide each die at
once. -/
theorem generate_of_isAcyclic_twoTables :
    ∃ c, (load twoTables).outcome = .ok c ∧ (∀ d ∈ twoTables.dice, 1 ≤ d.sides) ∧
      twoTables.IsAcyclic ∧ c.hasTable "a" = true ∧ c.size ≤ usualDepth ∧
      (∀ attempts, DieReturns (c.generate attempts usualDepth "a" 3) Zeros.zeros) ∧
      ∃ least text, ∀ attempts, least ≤ attempts →
        (c.generate attempts usualDepth "a" 3).run Zeros.zeros = (.ok text, .zeros) := by
  have hload := (load_eq_ok_iff twoTables _).mpr ⟨(Program.fault?_eq_none_iff _).mp rfl, rfl⟩
  have hdice : ∀ d ∈ twoTables.dice, d = ⟨some 2, 6⟩ := by
    intro d hd
    simpa [Program.dice, Program.declarations, twoTables] using hd
  have hsides : ∀ d ∈ twoTables.dice, 1 ≤ d.sides := by
    intro d hd
    rw [hdice d hd]
    decide
  have hacyclic : twoTables.IsAcyclic := by
    intro id h
    have hends (other : String) (hpath : Relation.TransGen twoTables.Refers id other) :
        other = "b" := by
      cases hpath with
      | single h => exact (twoTables_refers h).2
      | tail _ h => exact (twoTables_refers h).2
    have hstarts : id = "a" := by
      obtain ⟨other, h, -⟩ := Relation.TransGen.head'_iff.mp h
      exact (twoTables_refers h).1
    rw [hends id h] at hstarts
    exact absurd hstarts (by decide)
  have hknown : (ofDeclarations twoTables).hasTable "a" = true := rfl
  have hroom : (ofDeclarations twoTables).size ≤ usualDepth := by decide
  have hdecides : ∀ d ∈ twoTables.dice, Decides Zeros 1 d.sides := by
    intro d hd s hnone
    have hpos := hsides d hd
    rw [drawDie_zeros (by omega) 0] at hnone
    cases hnone
  have hreturns := fun attempts => dieReturns_generate hload hsides hdecides hknown
    (by decide : (0 : Int) ≤ 3) attempts usualDepth Zeros.zeros
  obtain ⟨hsize, hends⟩ := generate_of_isAcyclic (σ := Zeros) hload (.inr hsides) hacyclic hknown
  have hchains := fun chain hchain => Nat.le_trans (hsize chain hchain) hroom
  obtain ⟨-, hanswer, -⟩ := hends usualDepth hchains 3 Zeros.zeros
  obtain ⟨least, answer, s', hstable, htext | ⟨-, ⟨d, hd, hlong⟩, -⟩⟩ :=
    hanswer (by decide) hreturns
  · obtain ⟨text, rfl⟩ := htext
    exact ⟨_, hload, hsides, hacyclic, hknown, hroom, hreturns, least, text, hstable⟩
  · rw [hdice d hd] at hlong
    exact absurd hlong (Dice.InBounds.not_isOverlong (d := ⟨some 2, 6⟩)
      ⟨by decide, fun n hn => by cases hn; decide⟩)

end Collection

end RandomTables
