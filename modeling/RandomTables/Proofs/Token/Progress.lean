import RandomTables.Proofs.Token.Stride

namespace RandomTables
namespace Scanner

def ofScan : Except ScanFault Scan → Scanning Scan
  | .ok scan => return scan
  | .error fault => throw (.stopped fault)

section Runs
variable {source rest : List Char} {c : Char} {limit : Nat} {s : Scanner}

theorem pure_inj {α : Type} {a b : α} (h : (pure a : Scanning α) = pure b) : a = b :=
  Except.ok.inj (Option.some.inj h)

/-- At a position within the source there is a character ahead. -/
theorem exists_ahead {position : Nat} (h : position < source.length) :
    ∃ c rest, source.drop position = c :: rest ∧ source.length = position + (rest.length + 1) := by
  have hlength : (source.drop (position + 1)).length = source.length - (position + 1) :=
    List.length_drop
  refine ⟨_, _, List.drop_eq_getElem_cons h, ?_⟩
  omega

/-- A step fails with a fault of the source, or moves on within the source. -/
theorem step_progress (hlimit : source.length < limit) (h : s.position < source.length) :
    (∃ fault, step source limit s = throw (.stopped fault)) ∨
      ∃ stride, step source limit s = pure stride ∧ s.position < stride.position ∧
        stride.position ≤ source.length := by
  obtain ⟨c, rest, hahead, hlength⟩ := exists_ahead h
  rw [step_eq hlimit hahead]
  cases hstep : RandomTables.step s.mode s.last c rest with
  | error halt => exact .inl ⟨_, rfl⟩
  | ok bite =>
    -- What a step takes is a part of the text ahead, so it does not lead out of the source.
    obtain ⟨tail, after, rfl, hmore, -⟩ := lexes_of_step hstep
    rw [List.length_append] at hlength
    refine .inr ⟨_, rfl, ?_, ?_⟩
    · show s.position < s.position + (bite.more + 1)
      omega
    · show s.position + (bite.more + 1) ≤ source.length
      omega

/-- With every step a scanner moves on, so there are no more steps than characters behind it. -/
theorem reaches_bounds (hlimit : source.length < limit) {steps : Nat}
    (h : Reaches source limit steps s) : steps ≤ s.position ∧ s.position ≤ source.length := by
  induction h with
  | start => exact ⟨Nat.le_refl 0, Nat.zero_le _⟩
  | @step steps s stride _ hinside hstep ih =>
    have hlt : s.position < source.length := by simpa [isAtEnd] using hinside
    rcases step_progress hlimit hlt with ⟨fault, hfault⟩ | ⟨stride', hstride, hmore, hle⟩
    · -- A step that fails leads nowhere.
      rw [hstep] at hfault
      cases hfault
    · rw [hstep] at hstride
      obtain rfl := pure_inj hstride
      exact ⟨Nat.succ_le_of_lt (Nat.lt_of_le_of_lt ih.1 hmore), hle⟩

/-- Reading a text is a step and reading what is ahead of the scanner after it. -/
theorem ofScan_cons (h : source.drop s.position = c :: rest) :
    ofScan (scanFrom s.mode s.last s.position (c :: rest)) = (do
      let stride ← ofStep s.position c rest (RandomTables.step s.mode s.last c rest)
      let next := s.after stride
      let scan ← ofScan (scanFrom next.mode next.last next.position (source.drop next.position))
      return ⟨stride.token.toList ++ scan.tokens, scan.mode⟩) := by
  rw [scanFrom]
  cases RandomTables.step s.mode s.last c rest with
  | error halt => rfl
  | ok bite =>
    obtain ⟨kind, value, more, mode⟩ := bite
    rw [ofStep, pure_bind]
    dsimp only [after]
    rw [drop_add h]
    -- A blank or comment adds no token, and leaves the kind of the last one as it was.
    cases kind with
    | none =>
      dsimp only [Option.map_none, Option.none_or]
      cases scanFrom mode s.last (s.position + (more + 1)) (rest.drop more) <;> rfl
    | some kind =>
      dsimp only [Option.map_some, Option.some_or, Token.ofBite]
      cases scanFrom mode (some kind) (s.position + (more + 1)) (rest.drop more) <;> rfl

/-- A run with a step for every character ahead has the outcome of reading these characters. -/
theorem run_eq (hlimit : source.length < limit) (steps : Nat)
    (hsteps : (source.drop s.position).length ≤ steps) : run source limit steps s =
      ofScan (scanFrom s.mode s.last s.position (source.drop s.position)) := by
  induction steps generalizing s with
  | zero =>
    -- Without a step left there is nothing ahead.
    have hnil := List.length_eq_zero_iff.mp (Nat.le_zero.mp hsteps)
    rw [run, isAtEnd_eq, hnil, scanFrom]
    rfl
  | succ steps ih =>
    rw [run, isAtEnd_eq]
    cases hahead : source.drop s.position with
    | nil =>
      rw [scanFrom]
      rfl
    | cons c rest =>
      rw [hahead, List.length_cons] at hsteps
      rw [List.isEmpty_cons, if_neg Bool.false_ne_true, step_eq hlimit hahead, ofScan_cons hahead]
      cases RandomTables.step s.mode s.last c rest with
      | error halt => rfl
      | ok bite =>
        rw [ofStep, pure_bind, pure_bind]
        dsimp only
        rw [ih]
        change (source.drop (s.position + (bite.more + 1))).length ≤ steps
        rw [drop_add hahead, List.length_drop]
        omega

end Runs

/-- How a source is scanned by position, if every loop of a step has so many rounds. -/
structure ScansForward (source : List Char) (limit : Nat) : Prop where
  /-- In every mode a step comes to an end. It fails with a fault of the source, and not with a look
  before a run of text, or it moves on and stays within the source. -/
  progress : ∀ s : Scanner, s.position < source.length →
    (∃ fault, step source limit s = throw (.stopped fault)) ∨
      ∃ stride, step source limit s = pure stride ∧ s.position < stride.position ∧
        stride.position ≤ source.length
  /-- With the sentinel a step has the outcome that it has where the end of a text is told from all
  characters. -/
  sentinel : ∀ (s : Scanner) (c : Char) (rest : List Char), source.drop s.position = c :: rest →
    step source limit s = ofStep s.position c rest (RandomTables.step s.mode s.last c rest)
  /-- There is a character for each step. -/
  bounds : ∀ (steps : Nat) (s : Scanner), Reaches source limit steps s →
    steps ≤ s.position ∧ s.position ≤ source.length
  /-- With so many steps a run comes to an end, with the outcome of reading the source. -/
  run : ∀ steps, source.length ≤ steps → run source limit steps .start = ofScan (scan source)

/-- Every source is scanned by position, in as many steps as it has characters at most. -/
theorem scansForward (source : List Char) {limit : Nat} (hlimit : source.length < limit) :
    ScansForward source limit := by
  constructor
  case progress => exact fun s h => step_progress hlimit h
  case sentinel => exact fun s c rest h => step_eq hlimit h
  case bounds => exact fun steps s h => reaches_bounds hlimit h
  case run => exact fun steps hsteps => run_eq hlimit steps hsteps

def nulls : List Char :=
  "#t\n1:\x00 \x7bd6\x7d\x00".toList

/-- A sentinel in the text does not end the scan. -/
theorem scansForward_nulls : nulls.length < 20 ∧ ScansForward nulls 20 :=
  ⟨by decide, scansForward nulls (by decide)⟩

end Scanner

end RandomTables
