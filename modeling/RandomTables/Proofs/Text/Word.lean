import RandomTables.Text.Word

namespace RandomTables.Text

def Stops (p : Char → Bool) : List Char → Prop
  | [] => True
  | c :: _ => p c = false

@[simp] theorem stops_nil (p : Char → Bool) : Stops p [] := trivial

@[simp] theorem stops_cons (p : Char → Bool) (c : Char) (rest : List Char) :
    Stops p (c :: rest) ↔ p c = false := Iff.rfl

theorem stops_iff_head (p : Char → Bool) (rest : List Char) :
    Stops p rest ↔ rest.head?.any p = false := by
  cases rest <;> simp

/-- What does not go on with more characters does not go on with fewer. -/
theorem stops_mono (p q : Char → Bool) (rest : List Char) (hpq : ∀ c, q c = true → p c = true)
    (h : Stops p rest) : Stops q rest := by
  cases rest with
  | nil => trivial
  | cons c rest =>
    rw [stops_cons] at h ⊢
    cases hq : q c with
    | false => rfl
    | true =>
      rw [hpq c hq] at h
      exact h

/-- A run is all that is taken when what follows does not go on with it. -/
theorem takeWhile_append_of_stops (p : Char → Bool) (run rest : List Char)
    (hrun : ∀ c ∈ run, p c = true) (hrest : Stops p rest) :
    (run ++ rest).takeWhile p = run := by
  rw [List.takeWhile_append_of_pos hrun]
  cases rest with
  | nil => simp
  | cons c rest =>
    rw [List.takeWhile_cons_of_neg (by simpa using hrest), List.append_nil]

/-- Two runs, neither of which goes on, are the same where the texts that they begin are. -/
theorem run_append_inj {p : Char → Bool} {run run' rest rest' : List Char}
    (hrun : ∀ c ∈ run, p c = true) (hrun' : ∀ c ∈ run', p c = true) (hrest : Stops p rest)
    (hrest' : Stops p rest') (h : run ++ rest = run' ++ rest') : run = run' ∧ rest = rest' := by
  have htake := congrArg (List.takeWhile p) h
  rw [takeWhile_append_of_stops p run rest hrun hrest,
    takeWhile_append_of_stops p run' rest' hrun' hrest'] at htake
  rw [htake] at h
  exact ⟨htake, List.append_cancel_left h⟩

/-- Every text falls apart into its longest run and what does not go on with it. -/
theorem exists_run (p : Char → Bool) (s : List Char) :
    ∃ run rest, s = run ++ rest ∧ (∀ c ∈ run, p c = true) ∧ Stops p rest := by
  induction s with
  | nil => exact ⟨[], [], rfl, by simp, trivial⟩
  | cons c s ih =>
    cases hc : p c with
    | false => exact ⟨[], c :: s, rfl, by simp, hc⟩
    | true =>
      obtain ⟨run, rest, rfl, hrun, hrest⟩ := ih
      refine ⟨c :: run, rest, rfl, ?_, hrest⟩
      simpa [hc] using hrun

/-- The ten digits are next to each other. -/
theorem isDigit_iff (c : Char) : isDigit c = true ↔ 0x30 ≤ c.toNat ∧ c.toNat ≤ 0x39 := by
  simp only [isDigit, Bool.and_eq_true, decide_eq_true_eq, Char.le_def, UInt32.le_iff_toNat_le]
  exact Iff.rfl

theorem isNumeral_of_isDigit (c : Char) (h : isDigit c = true) : isNumeral c = true := by
  obtain ⟨hlow, hhigh⟩ := (isDigit_iff c).mp h
  rw [isNumeral, numeralRanges, CodeRanges.contains, if_neg (by omega), if_pos hhigh]

theorem continuesWord_of_isDigit (c : Char) (h : isDigit c = true) : continuesWord c = true := by
  simp [continuesWord, isAlphanumeric, isNumeral_of_isDigit c h]

theorem continuesName_of_continuesWord (c : Char) (h : continuesWord c = true) :
    continuesName c = true := by
  simp [continuesName, h]

theorem continuesWord_of_isLetter (c : Char) (h : isLetter c = true) : continuesWord c = true := by
  simp [continuesWord, isAlphanumeric, h]

/-- No letter comes before the capital A. -/
theorem not_isLetter_of_lt (c : Char) (h : c.toNat < 0x41) : isLetter c = false := by
  rw [isLetter, letterRanges, CodeRanges.contains, if_pos h]

/-- Letters begin behind the digits. -/
theorem not_isDigit_of_isLetter (c : Char) (h : isLetter c = true) : isDigit c = false := by
  cases hd : isDigit c with
  | false => rfl
  | true =>
    have hlt := ((isDigit_iff c).mp hd).2
    rw [not_isLetter_of_lt c (by omega)] at h
    exact h.symm

theorem ne_of_property (p : Char → Bool) (c d : Char) (hc : p c = true) (hd : p d = false) :
    c ≠ d := by
  intro h
  rw [h, hd] at hc
  exact Bool.false_ne_true hc

end RandomTables.Text
