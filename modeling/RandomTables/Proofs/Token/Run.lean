import RandomTables.Proofs.Text.Word
import RandomTables.Token.Step

namespace RandomTables
open Text (Stops)

def IsCommentBody (body : List Char) : Prop :=
  ∀ before after, body ++ ['*', '/'] = before ++ '*' :: '/' :: after → after = []

def isLineBlank (c : Char) : Bool :=
  c == ' ' || c == '\t' || c == '\r'

/-- A run of blanks in a declaration. A carriage return in it is no part of a line end. -/
structure IsBlankRun (run rest : List Char) : Prop where
  blank : ∀ c ∈ run, isLineBlank c = true
  returnAlone : run.getLast? = some '\r' → rest.head? ≠ some '\n'
  ended : Stops isLineBlank rest ∨ startsLineEnd rest = true

def IsFraction (fraction : List Char) : Prop :=
  fraction = [] ∨ ∃ digits, fraction = '.' :: digits ∧ digits ≠ [] ∧ ∀ c ∈ digits, Text.isDigit c

structure IsRoll (count sides rest : List Char) : Prop where
  count_isDigit : ∀ c ∈ count, Text.isDigit c = true
  sides_isDigit : ∀ c ∈ sides, Text.isDigit c = true
  sides_ne_nil : sides ≠ []
  ended : Stops Text.continuesWord rest

structure IsWordRun (run rest : List Char) : Prop where
  word : ∀ c ∈ run, Text.continuesWord c = true
  ended : Stops Text.continuesWord rest

theorem IsRoll.isWordRun {count sides rest : List Char} (h : IsRoll count sides rest) :
    IsWordRun (count ++ 'd' :: sides) rest := by
  refine ⟨?_, h.ended⟩
  rw [List.forall_mem_append, List.forall_mem_cons]
  exact ⟨fun c hc => Text.continuesWord_of_isDigit c (h.count_isDigit c hc), by decide,
    fun c hc => Text.continuesWord_of_isDigit c (h.sides_isDigit c hc)⟩

@[simp] theorem startsLineEnd_cons (c : Char) (rest : List Char) :
    startsLineEnd (c :: rest) = true ↔ c = '\n' ∨ c = '\r' ∧ rest.head? = some '\n' := by
  simp [startsLineEnd]

@[simp] theorem startsComment_cons (c : Char) (rest : List Char) :
    startsComment (c :: rest) = true ↔
      c = '/' ∧ (rest.head? = some '/' ∨ rest.head? = some '*') := by
  simp [startsComment]

theorem ne_of_startsLineEnd (c : Char) (rest : List Char)
    (h : startsLineEnd (c :: rest) = false) : c ≠ '\n' := by
  rintro rfl
  exact absurd h (by simp)

theorem returnAlone_cons (c : Char) (run rest : List Char)
    (hline : startsLineEnd (c :: (run ++ rest)) = false)
    (h : run.getLast? = some '\r' → rest.head? ≠ some '\n') :
    (c :: run).getLast? = some '\r' → rest.head? ≠ some '\n' := by
  intro hlast
  cases run with
  | nil =>
    rw [← Bool.not_eq_true, List.nil_append, startsLineEnd_cons, not_or, not_and] at hline
    exact hline.2 (by simpa using hlast)
  | cons d run => exact h (by rwa [List.getLast?_cons_cons] at hlast)

theorem startsComment_append (s rest : List Char) (h : startsComment s = true) :
    startsComment (s ++ rest) = true := by
  rcases s with _ | ⟨c, _ | ⟨d, s⟩⟩
  · exact absurd h (by decide)
  · simp at h
  · simpa using h

/-- A comment that opens with two or more characters of a text opens there without the rest. -/
theorem startsComment_of_append (c d : Char) (s rest : List Char)
    (h : startsComment (c :: d :: s ++ rest) = true) : startsComment (c :: d :: s) = true := by
  simpa using h

theorem isCommentBody_nil : IsCommentBody [] := by
  intro before after h
  have hlength := congrArg List.length h
  simp only [List.length_append, List.length_cons, List.length_nil] at hlength
  exact List.length_eq_zero_iff.mp (by omega)

/-- The mark does not begin at the first character, nor later. -/
theorem isCommentBody_cons (c : Char) (body : List Char) :
    IsCommentBody (c :: body) ↔
      ¬(c = '*' ∧ (body ++ ['*', '/']).head? = some '/') ∧ IsCommentBody body := by
  constructor
  · intro h
    constructor
    · rintro ⟨rfl, hhead⟩
      -- The closing mark at the very front would leave nothing after it.
      cases body with
      | nil => simp at hhead
      | cons d body =>
        have hd : d = '/' := by simpa using hhead
        have := h [] (body ++ ['*', '/']) (by simp [hd])
        simp at this
    · intro before after hbody
      exact h (c :: before) after (by rw [List.cons_append, hbody, List.cons_append])
  · rintro ⟨hfront, h⟩ before after hbody
    cases before with
    | nil =>
      obtain ⟨rfl, htail⟩ := List.cons_eq_cons.mp hbody
      exact absurd ⟨rfl, congrArg List.head? htail⟩ hfront
    | cons d before =>
      obtain ⟨rfl, htail⟩ := List.cons_eq_cons.mp hbody
      exact h before after htail

/-- A comment is closed by the first mark. -/
theorem closedComment_append (body rest : List Char) (h : IsCommentBody body) :
    closedComment? (body ++ '*' :: '/' :: rest) = some (body ++ ['*', '/']) := by
  induction body with
  | nil => simp [closedComment?]
  | cons c body ih =>
    obtain ⟨hfront, hbody⟩ := (isCommentBody_cons c body).mp h
    -- A star at the end of the body is followed by the star of the closing mark.
    have hhead : (body ++ '*' :: '/' :: rest).head? = (body ++ ['*', '/']).head? := by
      cases body <;> rfl
    rw [List.cons_append, closedComment?, hhead, if_neg hfront, ih hbody]
    rfl

/-- What was taken is a body up to its first mark. -/
theorem exists_of_closedComment (s comment : List Char) (h : closedComment? s = some comment) :
    ∃ body rest, s = body ++ '*' :: '/' :: rest ∧ comment = body ++ ['*', '/'] ∧
      IsCommentBody body := by
  induction s generalizing comment with
  | nil => simp [closedComment?] at h
  | cons c s ih =>
    rw [closedComment?] at h
    split at h
    · next hclose =>
      obtain ⟨rfl, hhead⟩ := hclose
      obtain ⟨rest, rfl⟩ : ∃ rest, s = '/' :: rest := by
        cases s <;> simp_all
      exact ⟨[], rest, rfl, (Option.some.inj h).symm, isCommentBody_nil⟩
    · next hclose =>
      obtain ⟨tail, htail, rfl⟩ := Option.map_eq_some_iff.mp h
      obtain ⟨body, rest, rfl, rfl, hbody⟩ := ih tail htail
      have hhead : (body ++ '*' :: '/' :: rest).head? = (body ++ ['*', '/']).head? := by
        cases body <;> rfl
      rw [hhead] at hclose
      exact ⟨c :: body, rest, rfl, rfl, (isCommentBody_cons c body).mpr ⟨hclose, hbody⟩⟩

theorem isLineBlank_iff (c : Char) : isLineBlank c = true ↔ c = ' ' ∨ c = '\t' ∨ c = '\r' := by
  simp [isLineBlank, or_assoc]

theorem lineBlanks_of_ended (rest : List Char)
    (h : Stops isLineBlank rest ∨ startsLineEnd rest = true) : lineBlanks rest = [] := by
  cases rest with
  | nil => rfl
  | cons c rest =>
    rw [lineBlanks, if_neg]
    rintro (rfl | rfl | ⟨rfl, hnext⟩)
    · simp [isLineBlank] at h
    · simp [isLineBlank] at h
    · simp [isLineBlank, hnext] at h

/-- A run of blanks is taken whole. -/
theorem lineBlanks_append (run rest : List Char) (h : IsBlankRun run rest) :
    lineBlanks (run ++ rest) = run := by
  induction run with
  | nil => exact lineBlanks_of_ended rest h.ended
  | cons c run ih =>
    have hrun : IsBlankRun run rest :=
      ⟨fun d hd => h.blank d (List.mem_cons_of_mem c hd), fun hlast => h.returnAlone (by
        cases run with
        | nil => simp at hlast
        | cons d run => rwa [List.getLast?_cons_cons]), h.ended⟩
    rw [List.cons_append, lineBlanks, ih hrun, if_pos]
    rcases (isLineBlank_iff c).mp (h.blank c List.mem_cons_self) with hc | hc | hc
    · exact Or.inl hc
    · exact Or.inr (Or.inl hc)
    · refine Or.inr (Or.inr ⟨hc, ?_⟩)
      -- After a return within the run comes a blank, after the last one what follows the run.
      cases run with
      | nil => exact h.returnAlone (by simp [hc])
      | cons d run =>
        have hd := h.blank d (by simp)
        intro hline
        simp only [List.cons_append, List.head?_cons, Option.some.injEq] at hline
        rw [hline] at hd
        exact absurd hd (by decide)

/-- What is taken is a run of blanks, up to a line end. -/
theorem exists_lineBlanks (s : List Char) :
    ∃ rest, s = lineBlanks s ++ rest ∧ IsBlankRun (lineBlanks s) rest := by
  induction s with
  | nil => exact ⟨[], rfl, fun d hd => absurd hd List.not_mem_nil, nofun, Or.inl trivial⟩
  | cons c s ih =>
    by_cases hc : c = ' ' ∨ c = '\t' ∨ c = '\r' ∧ s.head? ≠ some '\n'
    · obtain ⟨rest, hs, hrun⟩ := ih
      rw [lineBlanks, if_pos hc]
      refine ⟨rest, by rw [List.cons_append, ← hs], ?_, ?_, hrun.ended⟩
      · intro d hd
        rcases List.mem_cons.mp hd with rfl | hd
        · rw [isLineBlank_iff]
          rcases hc with hc | hc | hc
          · exact Or.inl hc
          · exact Or.inr (Or.inl hc)
          · exact Or.inr (Or.inr hc.1)
        · exact hrun.blank d hd
      · have hline : startsLineEnd (c :: (lineBlanks s ++ rest)) = false := by
          rw [← Bool.not_eq_true, startsLineEnd_cons, ← hs]
          rintro (rfl | ⟨rfl, hnext⟩)
          · simp at hc
          · simp [hnext] at hc
        exact returnAlone_cons c _ rest hline hrun.returnAlone
    · rw [lineBlanks, if_neg hc]
      refine ⟨c :: s, rfl, fun d hd => absurd hd List.not_mem_nil, nofun, ?_⟩
      by_cases hblank : isLineBlank c = true
      · right
        rcases (isLineBlank_iff c).mp hblank with rfl | rfl | rfl
        · simp at hc
        · simp at hc
        · simpa using hc
      · left
        simpa using hblank

/-- A fraction is taken whole, if no digit follows. -/
theorem fractionPart_append (fraction rest : List Char) (h : IsFraction fraction)
    (hrest : Stops (fun d => Text.continuesWord d || d == '.') rest) :
    fractionPart (fraction ++ rest) = fraction := by
  rcases h with rfl | ⟨digits, rfl, hne, hdigits⟩
  · cases rest with
    | nil => rfl
    | cons c rest =>
      rw [Text.stops_cons, Bool.or_eq_false_iff] at hrest
      rw [List.nil_append, fractionPart, if_neg]
      rintro ⟨rfl, -⟩
      exact absurd hrest.2 (by decide)
  · have hstops : Stops Text.isDigit rest :=
      Text.stops_mono _ _ rest (fun c hc => by simp [Text.continuesWord_of_isDigit c hc]) hrest
    rw [List.cons_append, fractionPart,
      Text.takeWhile_append_of_stops _ digits rest hdigits hstops, if_pos ⟨rfl, hne⟩]

theorem isFraction_fractionPart (s : List Char) : IsFraction (fractionPart s) := by
  cases s with
  | nil => exact Or.inl rfl
  | cons c s =>
    rw [fractionPart]
    split
    · next h =>
      obtain ⟨rfl, hne⟩ := h
      exact Or.inr ⟨_, rfl, hne, fun c hc => List.all_eq_true.mp List.all_takeWhile c hc⟩
    · exact Or.inl rfl

theorem exists_fractionPart (s : List Char) : ∃ rest, s = fractionPart s ++ rest := by
  cases s with
  | nil => exact ⟨[], rfl⟩
  | cons c s =>
    -- A point without a digit after it is left where it is.
    obtain ⟨digits, rest, rfl, hdigits, hrest⟩ := Text.exists_run Text.isDigit s
    rw [fractionPart, Text.takeWhile_append_of_stops _ digits rest hdigits hrest]
    split
    · exact ⟨rest, rfl⟩
    · exact ⟨c :: (digits ++ rest), rfl⟩

end RandomTables
