import RandomTables.Proofs.Collection.Generation

/-! Dice that are all decided in the end. The attempts that a die takes depend on what is drawn, so
that a run is followed with more and more of them. If each die that it comes to is decided by some
number of attempts, the run has one and the same outcome from some number on. -/
namespace RandomTables
namespace Generation

variable {σ α β : Type} [WordSource σ]

/-- If the run stops at a die, then some number of attempts decides that die. -/
def DieReturns (g : Generation σ α) (s : σ) : Prop :=
  ∀ sides s', g.run s = (.error (.undecided sides), s') →
    ∃ attempts n, ((drawDie? attempts sides).run s').1 = some n

/-- From some number of attempts on the outcome is one and the same, and all dice are decided. -/
def Settles (g : Nat → Generation σ α) (s : σ) : Prop :=
  ∃ least outcome, (∀ sides s', outcome ≠ (.error (.undecided sides), s')) ∧
    ∀ attempts, least ≤ attempts → (g attempts).run s = outcome

def Finishes (g : Nat → Generation σ α) : Prop :=
  ∀ s least, (∀ attempts, least ≤ attempts → DieReturns (g attempts) s) → Settles g s

/-- A number that is drawn is drawn in the same way with more attempts. -/
theorem drawBelow_of_le {bound attempts more : Nat} (hle : attempts ≤ more) {s s' : σ} {n : Nat}
    (h : (drawBelow? bound attempts).run s = (some n, s')) :
    (drawBelow? bound more).run s = (some n, s') := by
  induction attempts generalizing more s with
  | zero => cases h
  | succ attempts ih =>
    obtain ⟨more, rfl⟩ : ∃ m, more = m + 1 := ⟨more - 1, by omega⟩
    have hstep (k : Nat) : (drawBelow? bound (k + 1)).run s =
        if ((drawBits (bitLength bound)).run s).1 < bound then
          (some ((drawBits (bitLength bound)).run s).1, ((drawBits (bitLength bound)).run s).2)
        else (drawBelow? bound k).run ((drawBits (bitLength bound)).run s).2 := by
      rw [drawBelow?]
      change (if ((drawBits (bitLength bound)).run s).1 < bound then _ else _ :
        StateM σ (Option Nat)).run ((drawBits (bitLength bound)).run s).2 = _
      split <;> rfl
    rw [hstep] at h ⊢
    split at h
    · rename_i hlt
      rw [if_pos hlt, h]
    · rename_i hlt
      rw [if_neg hlt]
      exact ih (Nat.le_of_succ_le_succ hle) h

/-- A die that is decided shows the same with more attempts. -/
theorem drawDie_of_le {sides attempts more : Nat} (hle : attempts ≤ more) {s s' : σ} {n : Nat}
    (h : (drawDie? attempts sides).run s = (some n, s')) :
    (drawDie? more sides).run s = (some n, s') := by
  have hdie (k : Nat) : (drawDie? k sides).run s =
      (((drawBelow? sides k).run s).1.map (· + 1), ((drawBelow? sides k).run s).2) := rfl
  rw [hdie] at h ⊢
  obtain ⟨hshown, hstate⟩ := Prod.mk.inj h
  obtain ⟨m, hm, rfl⟩ := Option.map_eq_some_iff.mp hshown
  rw [drawBelow_of_le hle (Prod.ext hm hstate)]
  rfl

/-- A die is decided with the attempts there are or, as it returns, with some greater number of
them. -/
theorem finishes_rollDie (sides : Nat) :
    Finishes fun attempts => (rollDie attempts sides : Generation σ Nat) := by
  intro s least hreturns
  -- The die is decided with the attempts there are, or else with the attempts that decide it.
  obtain ⟨attempts, n, s', hdecided⟩ : ∃ attempts n s',
      (drawDie? attempts sides).run s = (some n, s') := by
    cases hdie : (drawDie? least sides).run s with
    | mk shown s' =>
      cases shown with
      | some n => exact ⟨least, n, s', hdie⟩
      | none =>
        have hrun : (rollDie least sides).run s = (.error (.undecided sides), s) := by
          rw [run_rollDie, hdie]
        obtain ⟨attempts, n, hn⟩ := hreturns least (Nat.le_refl least) sides s hrun
        exact ⟨attempts, n, _, Prod.ext hn rfl⟩
  refine ⟨attempts, (.ok n, s'), fun _ _ heq => ?_, fun more hle => ?_⟩
  · cases heq
  · rw [run_rollDie, drawDie_of_le hle hdecided]

/-- A computation without dice finishes. -/
theorem finishes_const {g : Generation σ α}
    (h : ∀ s sides s', g.run s ≠ (.error (.undecided sides), s')) : Finishes fun _ => g :=
  fun s _ _ => ⟨0, g.run s, h s, fun _ _ => rfl⟩

theorem finishes_pure (a : α) : Finishes fun _ => (pure a : Generation σ α) := by
  refine finishes_const fun s sides s' hrun => ?_
  cases hrun

theorem finishes_throw {failure : GenerateFailure} (h : ∀ sides, failure ≠ .undecided sides) :
    Finishes fun _ => (throw failure : Generation σ α) := by
  refine finishes_const fun s sides s' hrun => h sides ?_
  cases hrun
  rfl

/-- One part of a computation comes to its end first, and the other one goes on from there. -/
theorem finishes_bind {g : Nat → Generation σ α} {f : Nat → α → Generation σ β} (hg : Finishes g)
    (hf : ∀ a, Finishes fun attempts => f attempts a) :
    Finishes fun attempts => g attempts >>= f attempts := by
  intro s least hreturns
  have hfirst : ∀ attempts, least ≤ attempts → DieReturns (g attempts) s := by
    intro attempts hle sides s' hrun
    refine hreturns attempts hle sides s' ?_
    rw [run_bind, hrun]
  obtain ⟨enough, ⟨answer, s₁⟩, hdecided, hstable⟩ := hg s least hfirst
  cases answer with
  | error failure =>
    refine ⟨enough, (.error failure, s₁), fun sides s' heq => ?_, fun attempts hle => ?_⟩
    · cases heq
      exact hdecided _ _ rfl
    · rw [run_bind, hstable attempts hle]
  | ok a =>
    have hrest : ∀ attempts, max least enough ≤ attempts → DieReturns (f attempts a) s₁ := by
      intro attempts hle sides s' hrun
      refine hreturns attempts (by omega) sides s' ?_
      rw [run_bind, hstable attempts (by omega)]
      exact hrun
    obtain ⟨more, outcome, hdecided, hsettled⟩ := hf a s₁ _ hrest
    refine ⟨max enough more, outcome, hdecided, fun attempts hle => ?_⟩
    rw [run_bind, hstable attempts (by omega)]
    exact hsettled attempts (by omega)

/-- By induction on the list, whose computations are run one after the other. -/
theorem finishes_mapM {f : Nat → α → Generation σ β} {l : List α}
    (h : ∀ a ∈ l, Finishes fun attempts => f attempts a) :
    Finishes fun attempts => l.mapM (f attempts) := by
  induction l with
  | nil => exact finishes_pure []
  | cons a l ih =>
    obtain ⟨ha, hl⟩ := List.forall_mem_cons.mp h
    simp only [List.mapM_cons]
    exact finishes_bind ha fun b => finishes_bind (ih hl) fun bs => finishes_pure (b :: bs)

end Generation

open Generation

variable {σ : Type} [WordSource σ]

theorem finishes_rollFrom (sum : Int) (sides dice : Nat) :
    Finishes fun attempts => (rollFrom attempts sum sides dice : Generation σ Int) := by
  induction dice generalizing sum with
  | zero => exact finishes_pure sum
  | succ dice ih =>
    simp only [rollFrom]
    exact finishes_bind (finishes_rollDie sides) fun n => ih (sum + n)

theorem finishes_roll (d : Dice) :
    Finishes fun attempts => (d.roll attempts : Generation σ Int) := by
  by_cases hnone : d.rolls ≤ 0
  · simp only [Dice.roll, if_pos hnone]
    exact finishes_pure 0
  · by_cases hfew : d.sides < 1
    · simp only [Dice.roll, if_neg hnone, if_pos hfew]
      exact finishes_throw (by simp)
    · simp only [Dice.roll, if_neg hnone, if_neg hfew]
      exact finishes_rollFrom 0 d.sides.toNat d.rolls.toNat

/-- An item finishes if all tables do, whichever it refers to. -/
theorem finishes_item {single : Nat → String → Generation σ String} {owner : String}
    (hsingle : ∀ id, Finishes fun attempts => single attempts id) (item : Item) :
    Finishes fun attempts => item.generate attempts (single attempts) owner := by
  cases item with
  | text s => exact finishes_pure s
  | table id modifiers => exact finishes_bind (hsingle id) fun text => finishes_pure _
  | external => exact finishes_throw (by simp)
  | dice d =>
    refine finishes_bind (finishes_roll d) fun sum => ?_
    cases isWritable sum with
    | true => exact finishes_pure (toString sum)
    | false => exact finishes_throw (by simp)

theorem finishes_rule {single : Nat → String → Generation σ String} {owner : String}
    (hsingle : ∀ id, Finishes fun attempts => single attempts id) (r : Rule) :
    Finishes fun attempts => r.generate attempts (single attempts) owner :=
  finishes_bind (finishes_mapM fun item _ => finishes_item hsingle item) fun _ => finishes_pure _

namespace Collection
variable {c : Collection}

/-- By induction on the depth to which references are followed. -/
theorem finishes_generateNested (depth : Nat) (id : String) :
    Finishes fun attempts => (c.generateNested attempts depth id : Generation σ String) := by
  induction depth generalizing id with
  | zero => exact finishes_throw (by simp)
  | succ depth ih =>
    simp only [generateNested]
    cases c.table id with
    | error e => exact finishes_throw (by simp)
    | ok t =>
      have hdraw : Finishes fun _ =>
          (liftM (drawFraction : StateM σ Float) : Generation σ Float) := by
        refine finishes_const fun s sides s' hrun => ?_
        cases hrun
      refine finishes_bind hdraw fun fraction => ?_
      generalize (if t.select (fraction * t.total) < 0 then none
        else t.table.rules[(t.select (fraction * t.total)).toNat]?) = selected
      cases selected with
      | none => exact finishes_throw (by simp)
      | some r => exact finishes_rule ih r.value

/-- If each die that a call comes to is decided in the end, the call has an outcome that does not
depend on the attempts, from some number of them on. -/
theorem finishes_generate (depth : Nat) (id : String) (count : Int) :
    Finishes fun attempts => (c.generate attempts depth id count : Generation σ String) := by
  by_cases hcount : count < 0
  · simp only [generate, if_pos hcount]
    exact finishes_throw (by simp)
  · simp only [generate, if_neg hcount]
    exact finishes_bind (finishes_mapM fun other _ => finishes_generateNested depth other)
      fun texts => finishes_pure _

end Collection

end RandomTables
