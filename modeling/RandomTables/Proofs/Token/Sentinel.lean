import RandomTables.Proofs.Token.Lexeme
import RandomTables.Proofs.Token.Scanner

/-! What a scanner reads at a position is told by the text ahead of it. A check that does not hold
of the sentinel holds at no end of the source, so a loop moves on by what is taken of the text
ahead, and with more rounds than the source has characters every loop comes to an end. -/
namespace RandomTables
namespace Scanner

section Characters
variable {source rest : List Char} {c d : Char} {position : Nat}

/-- The text ahead of the next position. -/
theorem drop_succ (h : source.drop position = c :: rest) : source.drop (position + 1) = rest := by
  rw [← List.drop_drop, h, List.drop_succ_cons, List.drop_zero]

theorem drop_add (h : source.drop position = c :: rest) (more : Nat) :
    source.drop (position + (more + 1)) = rest.drop more := by
  rw [← List.drop_drop, h, List.drop_succ_cons]

theorem drop_append {front : List Char} (h : source.drop position = front ++ rest) :
    source.drop (position + front.length) = rest := by
  rw [← List.drop_drop, h, List.drop_left]

theorem charAt_of_cons (h : source.drop position = c :: rest) : charAt source position = c := by
  have hget : source[position]? = some c := by
    rw [← List.head?_drop, h, List.head?_cons]
  rw [charAt, List.getD_eq_getElem?_getD, hget, Option.getD_some]

/-- Behind the end there is the sentinel. -/
theorem charAt_of_nil (h : source.drop position = []) : charAt source position = sentinel := by
  have hget : source[position]? = none := by
    rw [← List.head?_drop, h, List.head?_nil]
  rw [charAt, List.getD_eq_getElem?_getD, hget, Option.getD_none]

theorem isAtEnd_eq (source : List Char) (position : Nat) :
    isAtEnd source position = (source.drop position).isEmpty := by
  rw [isAtEnd, Bool.eq_iff_iff, decide_eq_true_iff, List.isEmpty_iff, List.drop_eq_nil_iff]

/-- A check that does not hold of the sentinel is one of the character ahead, if there is any. -/
theorem check_charAt (p : Char → Bool) (hp : p sentinel = false) (position : Nat) :
    p (charAt source position) = (source.drop position).head?.any p := by
  cases h : source.drop position with
  | nil =>
    rw [charAt_of_nil h, hp]
    rfl
  | cons c rest =>
    rw [charAt_of_cons h]
    rfl

theorem charAt_eq_iff (hd : d ≠ sentinel) (position : Nat) :
    charAt source position = d ↔ (source.drop position).head? = some d := by
  cases h : source.drop position with
  | nil =>
    rw [charAt_of_nil h, List.head?_nil]
    exact ⟨fun heq => absurd heq.symm hd, nofun⟩
  | cons c rest => rw [charAt_of_cons h, List.head?_cons, Option.some.injEq]

/-- A character other than the sentinel is found in the text ahead or not at all. -/
theorem beq_charAt (hd : d ≠ sentinel) (position : Nat) :
    (charAt source position == d) = ((source.drop position).head? == some d) := by
  rw [Bool.eq_iff_iff, beq_iff_eq, beq_iff_eq, charAt_eq_iff hd]

/-- A line end is two characters at most, neither of them the sentinel. -/
theorem isAtLineEnd_eq (source : List Char) (position : Nat) :
    isAtLineEnd source position = startsLineEnd (source.drop position) := by
  rw [isAtLineEnd]
  cases h : source.drop position with
  | nil =>
    rw [charAt_of_nil h]
    rfl
  | cons c rest =>
    rw [charAt_of_cons h, beq_charAt (by decide) (position + 1), drop_succ h]
    rfl

theorem isAtComment_eq (source : List Char) (position : Nat) :
    isAtComment source position = startsComment (source.drop position) := by
  rw [isAtComment]
  cases h : source.drop position with
  | nil =>
    rw [charAt_of_nil h]
    rfl
  | cons c rest =>
    rw [charAt_of_cons h, beq_charAt (by decide) (position + 1),
      beq_charAt (by decide) (position + 1), drop_succ h]
    rfl

end Characters

section Lexemes
variable {source word rest : List Char} {c : Char} {first position : Nat}

/-- What stands between two positions is the word that was ahead of the first. -/
theorem lexeme_of_prefix (h : word <+: source.drop first) :
    lexeme source first (first + word.length) = word := by
  rw [lexeme, List.extract_eq_take_drop, Nat.add_sub_cancel_left]
  exact (List.prefix_iff_eq_take.mp h).symm

theorem lexeme_append (hle : first ≤ position) (h : word <+: source.drop position) :
    lexeme source first (position + word.length) = lexeme source first position ++ word := by
  have hsum : position + word.length - first = (position - first) + word.length := by omega
  rw [lexeme, lexeme, List.extract_eq_take_drop, List.extract_eq_take_drop, hsum, List.take_add,
    List.drop_drop, Nat.add_sub_cancel' hle, ← List.prefix_iff_eq_take.mp h]

end Lexemes

section Loops
variable {source : List Char} {goesOn : Nat → Bool}

/-- A loop moves on by as many characters as are taken from the text ahead, if these are taken one
by one where the loop goes on. -/
theorem passWhile_eq (taken : List Char → List Char)
    (hends : ∀ position, goesOn position = false → taken (source.drop position) = [])
    (hgoes : ∀ position, goesOn position = true → ∃ c rest, source.drop position = c :: rest ∧
      taken (c :: rest) = c :: taken rest)
    (rounds position : Nat) (hrounds : (source.drop position).length < rounds) :
    passWhile goesOn rounds position =
      pure (position + (taken (source.drop position)).length) := by
  induction rounds generalizing position with
  | zero => exact absurd hrounds (Nat.not_lt_zero _)
  | succ rounds ih =>
    rw [passWhile]
    cases hgo : goesOn position with
    | false =>
      rw [if_neg Bool.false_ne_true, hends position hgo, List.length_nil, Nat.add_zero]
    | true =>
      obtain ⟨c, rest, hahead, htaken⟩ := hgoes position hgo
      -- A round takes one character, so there are still more rounds than characters ahead.
      rw [hahead, List.length_cons] at hrounds
      have hnext := ih (position + 1) (by rw [drop_succ hahead]; omega)
      rw [if_pos rfl, hnext, drop_succ hahead, hahead, htaken, List.length_cons]
      congr 1
      omega

/-- By induction on the rounds, each of which takes one character off the text ahead. -/
theorem passWhile_takeWhile (p : Char → Bool)
    (h : ∀ position, goesOn position = (source.drop position).head?.any p)
    (rounds position : Nat) (hrounds : (source.drop position).length < rounds) :
    passWhile goesOn rounds position =
      pure (position + ((source.drop position).takeWhile p).length) := by
  apply passWhile_eq (List.takeWhile p) _ _ rounds position hrounds
  · intro position hends
    rw [h] at hends
    cases hahead : source.drop position with
    | nil => rfl
    | cons c rest =>
      rw [hahead] at hends
      exact List.takeWhile_cons_of_neg (by simpa using hends)
  · intro position hgoes
    rw [h] at hgoes
    cases hahead : source.drop position with
    | nil =>
      rw [hahead] at hgoes
      cases hgoes
    | cons c rest =>
      rw [hahead] at hgoes
      exact ⟨c, rest, rfl, List.takeWhile_cons_of_pos hgoes⟩

end Loops

section Passing
variable {source rest : List Char} {c : Char} {first limit : Nat}

theorem length_drop_lt (hlimit : source.length < limit) (position : Nat) :
    (source.drop position).length < limit := by
  rw [List.length_drop]
  omega

/-- A run ends at the sentinel, which has not the property. -/
theorem passRun_eq (hlimit : source.length < limit) (p : Char → Bool) (hp : p sentinel = false)
    (position : Nat) : passRun source limit p position =
      pure (position + ((source.drop position).takeWhile p).length) :=
  passWhile_takeWhile p (check_charAt p hp) limit position (length_drop_lt hlimit position)

/-- A loop that looks for the end of the source first may take the sentinel for a character. -/
theorem passInside_eq (hlimit : source.length < limit) (p : Char → Bool) (position : Nat) :
    passInside source limit p position =
      pure (position + ((source.drop position).takeWhile p).length) := by
  apply passWhile_takeWhile p _ limit position (length_drop_lt hlimit position)
  intro position
  rw [isAtEnd_eq]
  cases h : source.drop position with
  | nil => rfl
  | cons c rest =>
    rw [charAt_of_cons h]
    rfl

/-- Blanks are passed up to a line end. -/
theorem passBlanks_eq (hlimit : source.length < limit) (isBlank : Char → Bool)
    (taken : List Char → List Char) (hnil : taken [] = [])
    (htaken : ∀ c rest, taken (c :: rest) =
      if isBlank c ∧ startsLineEnd (c :: rest) = false then c :: taken rest else [])
    (position : Nat) : passBlanks source limit isBlank position =
      pure (position + (taken (source.drop position)).length) := by
  apply passWhile_eq taken _ _ limit position (length_drop_lt hlimit position)
  · intro position hends
    rw [isAtEnd_eq, isAtLineEnd_eq] at hends
    cases hahead : source.drop position with
    | nil => exact hnil
    | cons c rest =>
      rw [charAt_of_cons hahead, hahead] at hends
      rw [htaken, if_neg]
      rintro ⟨hblank, hline⟩
      simp [hblank, hline] at hends
  · intro position hgoes
    rw [isAtEnd_eq, isAtLineEnd_eq] at hgoes
    cases hahead : source.drop position with
    | nil => simp [hahead] at hgoes
    | cons c rest =>
      rw [charAt_of_cons hahead, hahead] at hgoes
      refine ⟨c, rest, rfl, ?_⟩
      rw [htaken, if_pos]
      simpa using hgoes

theorem passBlanks_declaration (hlimit : source.length < limit) (position : Nat) :
    passBlanks source limit isLineBlank position =
      pure (position + (lineBlanks (source.drop position)).length) := by
  apply passBlanks_eq hlimit isLineBlank lineBlanks rfl
  intro c rest
  have hcond : (c = ' ' ∨ c = '\t' ∨ (c = '\r' ∧ rest.head? ≠ some '\n')) ↔
      isLineBlank c = true ∧ startsLineEnd (c :: rest) = false := by
    rw [isLineBlank_iff, ← Bool.not_eq_true, startsLineEnd_cons]
    constructor
    · rintro (rfl | rfl | ⟨rfl, hnext⟩)
      · simp
      · simp
      · simpa using hnext
    · rintro ⟨rfl | rfl | rfl, hline⟩
      · exact .inl rfl
      · exact .inr (.inl rfl)
      · exact .inr (.inr ⟨rfl, fun hnext => hline (.inr ⟨rfl, hnext⟩)⟩)
  rw [lineBlanks]
  simp only [hcond]

theorem passBlanks_expression (hlimit : source.length < limit) (position : Nat) :
    passBlanks source limit isInlineBlank position =
      pure (position + ((source.drop position).takeWhile isInlineBlank).length) := by
  apply passBlanks_eq hlimit isInlineBlank (List.takeWhile isInlineBlank) rfl
  intro c rest
  rw [List.takeWhile_cons]
  -- Neither a space nor a tab begins a line end.
  by_cases hblank : isInlineBlank c = true
  · have hfeed : c ≠ '\n' := Text.ne_of_property isInlineBlank c _ hblank (by decide)
    have hreturn : c ≠ '\r' := Text.ne_of_property isInlineBlank c _ hblank (by decide)
    rw [if_pos hblank, if_pos ⟨hblank, startsLineEnd_of_ne c rest hfeed hreturn⟩]
  · rw [if_neg hblank, if_neg fun h => hblank h.1]

theorem modeAfter_cons (mode : Mode) (c : Char) (s : List Char) :
    modeAfter mode (c :: s) = modeAfter (if c = '\n' then .declaration else mode) s := by
  by_cases hc : c = '\n'
  · simp [modeAfter, hc]
  · simp [modeAfter, hc, Ne.symm hc]

/-- The rest of a block comment ends with its closing, or with the source. -/
theorem passComment_eq (first rounds position : Nat) (mode : Mode)
    (hrounds : (source.drop position).length < rounds) :
    passComment source first rounds position mode =
      match closedComment? (source.drop position) with
      | some comment => pure ⟨none, position + comment.length, modeAfter mode comment⟩
      | none => stop (.reported .unterminatedComment) first
          (position + (source.drop position).length) (modeAfter mode (source.drop position)) := by
  induction rounds generalizing position mode with
  | zero => exact absurd hrounds (Nat.not_lt_zero _)
  | succ rounds ih =>
    rw [passComment, isAtEnd_eq]
    cases hahead : source.drop position with
    | nil => rfl
    | cons c rest =>
      rw [hahead, List.length_cons] at hrounds
      rw [List.isEmpty_cons, if_neg Bool.false_ne_true, charAt_of_cons hahead,
        closedComment?]
      have hslash : charAt source (position + 1) = '/' ↔ rest.head? = some '/' := by
        rw [charAt_eq_iff (by decide), drop_succ hahead]
      by_cases hclose : c = '*' ∧ rest.head? = some '/'
      · rw [if_pos ⟨hclose.1, hslash.mpr hclose.2⟩, if_pos hclose]
        rfl
      · have hnext := ih (position + 1) (if c = '\n' then .declaration else mode)
          (by rw [drop_succ hahead]; omega)
        rw [if_neg fun h => hclose ⟨h.1, hslash.mp h.2⟩, if_neg hclose, hnext, drop_succ hahead]
        -- What is taken of the rest is taken one character further back.
        cases closedComment? rest with
        | none =>
          dsimp only [Option.map_none]
          rw [modeAfter_cons, List.length_cons]
          congr 1
          omega
        | some comment =>
          dsimp only [Option.map_some]
          rw [modeAfter_cons, List.length_cons]
          congr 2
          omega

theorem passFraction_eq (hlimit : source.length < limit) (position : Nat) :
    passFraction source limit position =
      pure (position + (fractionPart (source.drop position)).length) := by
  rw [passFraction]
  cases h : source.drop position with
  | nil =>
    rw [charAt_of_nil h, if_neg fun hpoint => absurd hpoint.1 (by decide)]
    rfl
  | cons c rest =>
    have hdigits : Text.isDigit (charAt source (position + 1)) = true ↔
        rest.takeWhile Text.isDigit ≠ [] := by
      rw [check_charAt Text.isDigit (by decide), drop_succ h]
      cases rest with
      | nil => simp
      | cons d rest => by_cases hd : Text.isDigit d = true <;> simp [hd]
    rw [charAt_of_cons h, fractionPart]
    by_cases hpoint : c = '.' ∧ rest.takeWhile Text.isDigit ≠ []
    · rw [if_pos ⟨hpoint.1, hdigits.mpr hpoint.2⟩, if_pos hpoint,
        passRun_eq hlimit Text.isDigit (by decide), drop_succ h, List.length_cons]
      congr 1
      omega
    · rw [if_neg fun h => hpoint ⟨h.1, hdigits.mp h.2⟩, if_neg hpoint]
      rfl

/-- Behind the first character of a run, the character before a position is one of the run. -/
theorem textEnds_eq {before : Char} {position : Nat} (h : source.drop position = c :: rest)
    (hfirst : first < position) (hbefore : charAt source (position - 1) = before) :
    textEnds source first position = pure (decide (c = '\x7b' ∨ c = '\x7d' ∨
      startsLineEnd (c :: rest) ∨ (startsComment (c :: rest) ∧ isInlineBlank before))) := by
  rw [textEnds, charAt_of_cons h, isAtLineEnd_eq, isAtComment_eq, h]
  by_cases hends : c = '\x7b' ∨ c = '\x7d' ∨ startsLineEnd (c :: rest) = true
  · rw [if_pos hends, decide_eq_true]
    rcases hends with hends | hends | hends
    · exact .inl hends
    · exact .inr (.inl hends)
    · exact .inr (.inr (.inl hends))
  · rw [if_neg hends]
    simp only [not_or] at hends
    by_cases hcomment : startsComment (c :: rest) = true
    · rw [if_pos hcomment, charBefore, if_pos hfirst, hbefore, pure_bind]
      simp [hends, hcomment]
    · rw [if_neg hcomment]
      simp [hends, hcomment]

/-- Inside a run of text each character is the one before the next. -/
theorem passText_eq (before : Char) (rounds position : Nat)
    (hrounds : (source.drop position).length < rounds) (hfirst : first < position)
    (hbefore : charAt source (position - 1) = before) :
    passText source first rounds position =
      pure (position + (textRun before (source.drop position)).length) := by
  induction rounds generalizing position before with
  | zero => exact absurd hrounds (Nat.not_lt_zero _)
  | succ rounds ih =>
    rw [passText, isAtEnd_eq]
    cases hahead : source.drop position with
    | nil => rfl
    | cons c rest =>
      rw [hahead, List.length_cons] at hrounds
      rw [List.isEmpty_cons, if_neg Bool.false_ne_true, textEnds_eq hahead hfirst hbefore,
        pure_bind, textRun]
      by_cases hends : c = '\x7b' ∨ c = '\x7d' ∨ startsLineEnd (c :: rest) = true ∨
          (startsComment (c :: rest) = true ∧ isInlineBlank before = true)
      · rw [if_pos (decide_eq_true hends), if_pos hends]
        rfl
      · have hnext := ih c (position + 1) (by rw [drop_succ hahead]; omega)
          (Nat.lt_succ_of_lt hfirst) (charAt_of_cons hahead)
        rw [if_neg (by simpa using hends), if_neg hends, hnext, drop_succ hahead, List.length_cons]
        congr 1
        omega

/-- The first character of a run is no comment, so that nothing before it is looked at. -/
theorem passText_first (hlimit : source.length < limit) (h : source.drop first = c :: rest)
    (hbrace : c ≠ '\x7b' ∧ c ≠ '\x7d') (hline : startsLineEnd (c :: rest) = false)
    (hcomment : startsComment (c :: rest) = false) :
    passText source first limit first = pure (first + ((textRun c rest).length + 1)) := by
  obtain ⟨limit, rfl⟩ : ∃ n, limit = n + 1 := ⟨limit - 1, by omega⟩
  -- A comment there would have been taken by the step before it came to the text.
  have hends : textEnds source first first = pure false := by
    rw [textEnds, charAt_of_cons h, isAtLineEnd_eq, isAtComment_eq, h, if_neg, hcomment]
    · rfl
    · rw [hline]
      simpa using hbrace
  have hlength := length_drop_lt hlimit first
  rw [h, List.length_cons] at hlength
  rw [passText, isAtEnd_eq, h, List.isEmpty_cons, if_neg Bool.false_ne_true, hends, pure_bind,
    if_neg Bool.false_ne_true, passText_eq c limit (first + 1) (by rw [drop_succ h]; omega)
      (Nat.lt_succ_self first) (charAt_of_cons h), drop_succ h]
  congr 1
  omega

end Passing

end Scanner

end RandomTables
