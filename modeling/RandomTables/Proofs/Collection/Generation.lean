import Mathlib.Data.List.Forall2
import RandomTables.Collection.Generate
import RandomTables.Proofs.Collection.References

namespace RandomTables

namespace Generation
variable {σ α β : Type} {P P' : α → Prop} {Q : β → Prop} {F F' : GenerateFailure → Prop}

/-- From every random state, the computation gives a value of the one kind or fails in a way of the
other. -/
def Ensures (g : Generation σ α) (P : α → Prop) (F : GenerateFailure → Prop) : Prop :=
  ∀ s, match (g.run s).1 with
    | .ok a => P a
    | .error failure => F failure

/-- The second part goes on from the random state that the first one left, if there was no failure.
-/
theorem run_bind (g : Generation σ α) (f : α → Generation σ β) (s : σ) :
    (g >>= f).run s = match g.run s with
      | (.ok a, s') => (f a).run s'
      | (.error failure, s') => (.error failure, s') := by
  change (ExceptT.bindCont f (g.run s).1) (g.run s).2 = _
  rcases g.run s with ⟨_ | _, s'⟩ <;> rfl

theorem ensures_pure {a : α} (h : P a) : Ensures (pure a : Generation σ α) P F :=
  fun _ => h

theorem ensures_throw {failure : GenerateFailure} (h : F failure) :
    Ensures (throw failure : Generation σ α) P F :=
  fun _ => h

theorem ensures_lift {g : StateM σ α} (h : ∀ s, P (g.run s).1) :
    Ensures (liftM g : Generation σ α) P F :=
  fun s => h s

/-- The second part may rely on what the first one ensures of its value. -/
theorem ensures_bind {g : Generation σ α} {f : α → Generation σ β} (hg : Ensures g P F)
    (hf : ∀ a, P a → Ensures (f a) Q F) : Ensures (g >>= f) Q F := by
  intro s
  have hs := hg s
  rw [run_bind]
  generalize g.run s = outcome at hs
  obtain ⟨failure | a, s'⟩ := outcome
  · exact hs
  · exact hf a hs s'

theorem ensures_mono {g : Generation σ α} (hg : Ensures g P F) (hP : ∀ a, P a → P' a)
    (hF : ∀ failure, F failure → F' failure) : Ensures g P' F' := by
  intro s
  have hs := hg s
  generalize (g.run s).1 = outcome at hs
  cases outcome with
  | ok a => exact hP a hs
  | error failure => exact hF failure hs

theorem ensures_true (g : Generation σ α) : Ensures g (fun _ => True) fun _ => True := by
  intro s
  cases (g.run s).1 <;> trivial

/-- The values of a list of computations have each the property that its own computation ensures. -/
theorem ensures_mapM {f : α → Generation σ β} {R : α → β → Prop} {l : List α}
    (h : ∀ a ∈ l, Ensures (f a) (R a) F) : Ensures (l.mapM f) (List.Forall₂ R l) F := by
  induction l with
  | nil => exact ensures_pure .nil
  | cons a l ih =>
    obtain ⟨ha, hl⟩ := List.forall_mem_cons.mp h
    rw [List.mapM_cons]
    refine ensures_bind ha fun b hb => ?_
    refine ensures_bind (ih hl) fun bs hbs => ?_
    exact ensures_pure (.cons hb hbs)

abbrev FailsOnly (g : Generation σ α) (F : GenerateFailure → Prop) : Prop :=
  Ensures g (fun _ => True) F

theorem failsOnly_mapM {f : α → Generation σ β} {l : List α}
    (h : ∀ a ∈ l, FailsOnly (f a) F) : FailsOnly (l.mapM f) F :=
  ensures_mono (ensures_mapM h) (fun _ _ => trivial) fun _ hF => hF

end Generation

open Generation

namespace PreparedTable

/-- Whatever number is drawn, also one that compares with none, it selects a rule of the table. -/
theorem select_bounds (t : Table) (h : t.rules ≠ []) (drawn : Float) :
    0 ≤ (ofTable t).select drawn ∧ (ofTable t).select drawn < t.rules.length := by
  have hlength : (ofTable t).sums.length = t.rules.length := by simp [ofTable]
  have hsums : (ofTable t).sums ≠ [] := by
    rw [← List.length_pos_iff, hlength]
    exact List.length_pos_iff.mpr h
  rw [← hlength]
  exact selectIndex_bounds hsums drawn

/-- Whatever number is drawn, a table with rules has the rule that is selected. -/
theorem exists_selected (t : Table) (h : t.rules ≠ []) (drawn : Float) :
    ∃ r ∈ t.rules, (if (ofTable t).select drawn < 0 then none
      else (ofTable t).table.rules[((ofTable t).select drawn).toNat]?) = some r := by
  obtain ⟨hlow, hhigh⟩ := select_bounds t h drawn
  have hindex : ((ofTable t).select drawn).toNat < t.rules.length := by omega
  rw [if_neg (Int.not_lt.mpr hlow)]
  exact ⟨_, List.getElem_mem hindex, List.getElem?_eq_getElem hindex⟩

end PreparedTable

variable {σ : Type} [WordSource σ] {attempts : Nat} {F : GenerateFailure → Prop}

section Dice

def Decides (σ : Type) [WordSource σ] (attempts : Nat) (sides : Int) : Prop :=
  ∀ s : σ, ((drawDie? attempts sides.toNat).run s).1 ≠ none

/-- By induction on the attempts, the last of which was below the bound. -/
theorem lt_of_drawBelow (bound attempts : Nat) (s : σ) :
    ∀ n ∈ ((drawBelow? bound attempts).run s).1, n < bound := by
  induction attempts generalizing s with
  | zero => exact nofun
  | succ attempts ih =>
    intro n hn
    rw [drawBelow?] at hn
    change n ∈ ((if ((drawBits (bitLength bound)).run s).1 < bound then _ else _ :
      StateM σ (Option Nat)).run ((drawBits (bitLength bound)).run s).2).1 at hn
    split at hn
    · rename_i hlt
      cases hn
      exact hlt
    · exact ih _ n hn

/-- A die shows a number from one up to its sides. -/
theorem die_bounds (attempts sides : Nat) (s : σ) :
    ∀ n ∈ ((drawDie? attempts sides).run s).1, 1 ≤ n ∧ n ≤ sides := by
  intro n hn
  change n ∈ ((drawBelow? sides attempts).run s).1.map (· + 1) at hn
  obtain ⟨m, hm, rfl⟩ := Option.map_eq_some_iff.mp hn
  have hlt := lt_of_drawBelow sides attempts s m hm
  omega

theorem run_rollDie (attempts sides : Nat) (s : σ) :
    (rollDie attempts sides : Generation σ Nat).run s =
      match (drawDie? attempts sides).run s with
      | (some n, s') => (.ok n, s')
      | (none, _) => (.error (.undecided sides), s) :=
  rfl

/-- A die shows one of its sides, if it is decided. -/
theorem ensures_rollDie (sides : Int)
    (hF : ¬Decides σ attempts sides → F (.undecided sides.toNat)) :
    Ensures (rollDie attempts sides.toNat : Generation σ Nat)
      (fun n => 1 ≤ n ∧ n ≤ sides.toNat) F := by
  intro s
  have hbounds := die_bounds attempts sides.toNat s
  rw [run_rollDie]
  cases hdie : (drawDie? attempts sides.toNat).run s with
  | mk shown s' =>
    rw [hdie] at hbounds
    cases shown with
    | none => exact hF fun hdecides => hdecides s (congrArg Prod.fst hdie)
    | some n => exact hbounds n rfl

/-- Every further die adds at least one to the sum, and at most its sides. -/
theorem ensures_rollFrom (sum sides : Int) (dice : Nat)
    (hF : ¬Decides σ attempts sides → F (.undecided sides.toNat)) :
    Ensures (rollFrom attempts sum sides.toNat dice : Generation σ Int)
      (fun n => sum + dice ≤ n ∧ n ≤ sum + dice * sides.toNat) F := by
  induction dice generalizing sum with
  | zero => exact ensures_pure (by simp)
  | succ dice ih =>
    rw [rollFrom]
    refine ensures_bind (ensures_rollDie sides hF) fun n hn => ?_
    obtain ⟨hlow, hhigh⟩ := hn
    have hmul : ((dice + 1 : Nat) : Int) * sides.toNat = dice * sides.toNat + sides.toNat := by
      rw [Int.natCast_succ, Int.add_mul, Int.one_mul]
    refine ensures_mono (ih (sum + n)) (fun total htotal => ?_) fun _ h => h
    omega

/-- What a roll can come to: nothing without dice, and else between one and the sides for each. -/
structure Dice.CanShow (d : Dice) (n : Int) : Prop where
  none : d.rolls ≤ 0 → n = 0
  low : 0 ≤ d.rolls → d.rolls ≤ n
  high : 0 ≤ d.rolls → n ≤ d.rolls * d.sides

/-- A roll comes to a sum between the least and the greatest of its dice. -/
theorem ensures_roll (d : Dice) (hsides : d.sides < 1 → F .noSides)
    (hF : ¬Decides σ attempts d.sides → F (.undecided d.sides.toNat)) :
    Ensures (d.roll attempts : Generation σ Int) d.CanShow F := by
  rw [Dice.roll]
  split
  · rename_i hnone
    refine ensures_pure ⟨fun _ => rfl, fun hrolls => hnone, fun hrolls => ?_⟩
    have hzero : d.rolls = 0 := by omega
    simp [hzero]
  · rename_i hsome
    split
    · rename_i hfew
      exact ensures_throw (hsides hfew)
    · have hrolls : (d.rolls.toNat : Int) = d.rolls := by omega
      have htoNat : (d.sides.toNat : Int) = d.sides := by omega
      refine ensures_mono (ensures_rollFrom 0 d.sides d.rolls.toNat hF) ?_ fun _ h => h
      intro n hn
      rw [hrolls, htoNat, Int.zero_add, Int.zero_add] at hn
      exact ⟨fun hno => absurd hno hsome, fun _ => hn.1, fun _ => hn.2⟩

def Dice.IsOverlong (d : Dice) : Prop :=
  leastUnwritable ≤ d.rolls * d.sides

theorem pow_le_leastUnwritable {digits : Nat} (h : digits ≤ maxDiceDigits) :
    Nat.pow 10 digits ≤ leastUnwritable := by
  unfold leastUnwritable
  generalize maxDiceDigits = most at h
  exact Nat.pow_le_pow_right (Nat.succ_pos 9) h

theorem Dice.CanShow.isOverlong {d : Dice} {n : Int} (h : d.CanShow n)
    (hn : isWritable n = false) : d.IsOverlong := by
  have hlarge : leastUnwritable ≤ n.natAbs := by simpa [isWritable] using hn
  have hpos : 1 ≤ leastUnwritable := pow_le_leastUnwritable (Nat.zero_le _)
  have hrolls : 0 ≤ d.rolls := by
    by_contra hneg
    have hzero := h.none (by omega)
    omega
  have hlow := h.low hrolls
  have hhigh := h.high hrolls
  rw [Dice.IsOverlong]
  omega

end Dice

def Program.dice (p : Program) : List Dice :=
  p.declarations.flatMap fun t => t.rules.flatMap fun r => r.value.content.filterMap fun
    | .dice d => some d
    | _ => none

theorem Program.mem_dice {p : Program} {t : Table} {r : Located Rule} {d : Dice}
    (ht : t ∈ p.declarations) (hr : r ∈ t.rules) (hd : .dice d ∈ r.value.content) :
    d ∈ p.dice :=
  List.mem_flatMap.mpr ⟨t, ht, List.mem_flatMap.mpr ⟨r, hr, List.mem_filterMap.mpr ⟨_, hd, rfl⟩⟩⟩

/-- How generating from a table of a program may have no end: its references lead on for the given
number of steps, or one of the dice in the program is not decided from some random state. -/
inductive Program.RunsOn (σ : Type) [WordSource σ] (p : Program) (attempts steps : Nat)
    (id : String) : GenerateFailure → Prop
  | endless (h : p.Nests steps id) : RunsOn σ p attempts steps id .endless
  | undecided {d : Dice} (hd : d ∈ p.dice) (h : ¬Decides σ attempts d.sides) :
    RunsOn σ p attempts steps id (.undecided d.sides.toNat)

theorem Program.RunsOn.step {p : Program} {steps : Nat} {owner id : String}
    {failure : GenerateFailure} (hrefers : p.Refers owner id)
    (h : p.RunsOn σ attempts steps id failure) : p.RunsOn σ attempts (steps + 1) owner failure := by
  cases h with
  | endless hnests => exact .endless (Program.nests_succ hrefers hnests)
  | undecided hd hno => exact .undecided hd hno

def Program.FailsWith (σ : Type) [WordSource σ] (p : Program) (attempts steps : Nat) (id : String)
    (failure : GenerateFailure) : Prop :=
  p.RunsOn σ attempts steps id failure ∨ failure = .overlongSum ∧ ∃ d ∈ p.dice, d.IsOverlong

section Rules
variable {p : Program} {owner : String} {t : Table} {r : Located Rule}
  {single : String → Generation σ String}

/-- An item whose reference leads somewhere fails only as that table does, or as dice do. -/
theorem failsOnly_item {item : Item} (hresolves : p.Resolves item)
    (hsingle : ∀ id modifiers, item = .table id modifiers → FailsOnly (single id) F)
    (hdice : ∀ d, item = .dice d → FailsOnly ((Item.dice d).generate attempts single owner) F) :
    FailsOnly (item.generate attempts single owner) F := by
  cases item with
  | text s => exact ensures_pure trivial
  | table id modifiers =>
    exact ensures_bind (hsingle id modifiers rfl) fun _ _ => ensures_pure trivial
  | external => exact hresolves.elim
  | dice d => exact hdice d rfl

/-- A roll of dice that have sides is written out, unless it is not decided or too long. -/
theorem failsOnly_dice (d : Dice) (hsides : 1 ≤ d.sides)
    (hF : ¬Decides σ attempts d.sides → F (.undecided d.sides.toNat))
    (hlong : d.IsOverlong → F .overlongSum) :
    FailsOnly ((Item.dice d).generate attempts single owner) F := by
  refine ensures_bind (ensures_roll d (fun hfew => by omega) hF) fun n hn => ?_
  cases hwritable : isWritable n with
  | true => exact ensures_pure trivial
  | false => exact ensures_throw (hlong (hn.isOverlong hwritable))

/-- A rule of a complete program fails only as its references and dice do. -/
theorem failsOnly_rule (hp : p.IsComplete) (ht : p.lastDeclaration? owner = some t)
    (hr : r ∈ t.rules) (hsingle : ∀ id, p.Refers owner id → FailsOnly (single id) F)
    (hdice : ∀ d ∈ p.dice, FailsOnly ((Item.dice d).generate attempts single owner) F) :
    FailsOnly (r.value.generate attempts single owner) F := by
  have hitems : FailsOnly (r.value.content.mapM (Item.generate attempts single owner)) F := by
    refine failsOnly_mapM fun item hitem => ?_
    refine failsOnly_item (hp.resolves owner t ht r hr item hitem) ?_ ?_
    · rintro id modifiers rfl
      exact hsingle id (Program.refers_of_mem ht hr (List.mem_filterMap.mpr ⟨_, hitem, rfl⟩))
    · rintro d rfl
      exact hdice d (Program.mem_dice (Program.lastDeclaration_mem ht) hr hitem)
  exact ensures_bind hitems fun _ _ => ensures_pure trivial

/-- A rule fails as the first of its items does. -/
theorem fails_rule {r : Rule} {item : Item} {rest : List Item} (hcontent : r.content = item :: rest)
    (hitem : Ensures (item.generate attempts single owner) (fun _ => False) F) :
    Ensures (r.generate attempts single owner) (fun _ => False) F := by
  rw [Rule.generate, hcontent, List.mapM_cons]
  exact ensures_bind (ensures_bind hitem fun _ => False.elim) fun _ => False.elim

end Rules

namespace Collection
variable {p : Program} {c : Collection}

/-- What all rules of a table ensure, the table ensures. -/
theorem ensures_generateNested_succ (h : (load p).outcome = .ok c) {id : String} {t : Table}
    (ht : p.lastDeclaration? id = some t) {depth : Nat} {P : String → Prop}
    (hrules : ∀ r ∈ t.rules, Ensures
      (r.value.generate attempts (c.generateNested attempts depth) id : Generation σ String) P F) :
    Ensures (c.generateNested attempts (depth + 1) id : Generation σ String) P F := by
  rw [generateNested, table, find?_of_declaration h ht]
  have hdraw : FailsOnly (liftM (drawFraction : StateM σ Float) : Generation σ Float) F :=
    ensures_lift fun _ => trivial
  refine ensures_bind hdraw fun fraction _ => ?_
  obtain ⟨r, hr, hselected⟩ := PreparedTable.exists_selected t (rules_of_load h ht)
    (fraction * (PreparedTable.ofTable t).total)
  dsimp only
  rw [hselected]
  exact hrules r hr

/-- A text is generated unless the references lead on for more steps than are allowed, a die is not
decided or a sum is too long. -/
theorem failsOnly_generateNested (h : (load p).outcome = .ok c)
    (hdice : ∀ d ∈ p.dice, 1 ≤ d.sides) (attempts depth : Nat) {id : String}
    (hid : c.hasTable id = true) :
    FailsOnly (c.generateNested attempts depth id : Generation σ String)
      (p.FailsWith σ attempts depth id) := by
  have hp := isComplete_of_load h
  -- A failure further down comes with a chain of references there, which is one longer from here.
  induction depth generalizing id with
  | zero => exact ensures_throw (.inl (.endless (p.nests_zero id)))
  | succ depth ih =>
    obtain ⟨t, ht⟩ := declaration_of_load h hid
    refine ensures_generateNested_succ h ht fun r hr => failsOnly_rule hp ht hr ?_ ?_
    · intro other hrefers
      have hother := (hasTable_of_load h other).mpr (Program.mem_tableIds_of_refers hp hrefers)
      refine ensures_mono (ih hother) (fun _ _ => trivial) fun failure hfailure => ?_
      exact hfailure.imp_left (Program.RunsOn.step hrefers)
    · intro d hd
      exact failsOnly_dice d (hdice d hd) (fun hno => .inl (.undecided hd hno))
        fun hlong => .inr ⟨rfl, d, hd, hlong⟩

/-- Any number of texts fails only as one of them does. -/
theorem failsOnly_generate (h : (load p).outcome = .ok c) (hdice : ∀ d ∈ p.dice, 1 ≤ d.sides)
    (attempts depth : Nat) {id : String} (hid : c.hasTable id = true) {count : Int}
    (hcount : 0 ≤ count) :
    FailsOnly (c.generate attempts depth id count : Generation σ String)
      (p.FailsWith σ attempts depth id) := by
  rw [generate, if_neg (Int.not_lt.mpr hcount)]
  have hmany : FailsOnly (c.generateMany attempts depth id count.toNat : Generation σ _)
      (p.FailsWith σ attempts depth id) := by
    refine failsOnly_mapM fun other hother => ?_
    rw [List.eq_of_mem_replicate hother]
    exact failsOnly_generateNested h hdice attempts depth hid
  exact ensures_bind hmany fun _ _ => ensures_pure trivial

/-- A call for one text fails as that text does. -/
theorem fails_generate {depth : Nat} {id : String} {failure : GenerateFailure}
    (hsingle : Ensures (c.generateNested attempts depth id : Generation σ String)
      (fun _ => False) (· = failure)) (s : σ) :
    ((c.generate attempts depth id 1).run s).1 = .error failure := by
  have hmany : Ensures (c.generateMany attempts depth id 1 : Generation σ _)
      (fun _ => False) (· = failure) := by
    rw [generateMany, List.replicate_one, List.mapM_cons]
    exact ensures_bind hsingle fun _ => False.elim
  have hcall : Ensures (c.generate attempts depth id 1 : Generation σ String)
      (fun _ => False) (· = failure) := by
    rw [generate, if_neg (by decide)]
    exact ensures_bind hmany fun _ => False.elim
  have hs := hcall s
  generalize ((c.generate attempts depth id 1).run s).1 = answer at hs
  cases answer with
  | ok => exact hs.elim
  | error _ => exact congrArg Except.error hs

end Collection

end RandomTables
