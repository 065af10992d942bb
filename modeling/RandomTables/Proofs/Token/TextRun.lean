import RandomTables.Proofs.Token.Run

namespace RandomTables

/-- Text that can stand in a rule in one piece: some characters of one line without braces, where no
comment opens at the first of them or after a space or tab. -/
structure IsPlain (text : List Char) : Prop where
  nonempty : text ≠ []
  unopened : '\x7b' ∉ text
  unclosed : '\x7d' ∉ text
  oneLine : '\n' ∉ text
  noComment : ∀ before after, text = before ++ after → startsComment after = true →
    ∃ c, before.getLast? = some c ∧ isInlineBlank c = false

def EndsBlank (s : List Char) : Prop :=
  ∃ c, s.getLast? = some c ∧ isInlineBlank c = true

/-- What follows rule text: the end of input, a brace, a line end or, after a space or tab, a
comment. -/
structure EndsText (text rest : List Char) : Prop where
  returnAlone : text.getLast? = some '\r' → rest.head? ≠ some '\n'
  ended : rest = [] ∨ rest.head? = some '\x7b' ∨ rest.head? = some '\x7d' ∨
    startsLineEnd rest = true ∨ startsComment rest = true ∧ EndsBlank text

theorem endsBlank_concat (s : List Char) (c : Char) :
    EndsBlank (s ++ [c]) ↔ isInlineBlank c = true := by
  simp [EndsBlank]

/-- A run goes on with a character that ends no text. -/
theorem textRun_cons_append (before c : Char) (run rest : List Char) :
    textRun before (c :: run ++ rest) = c :: run ↔
      (c ≠ '\x7b' ∧ c ≠ '\x7d' ∧ startsLineEnd (c :: run ++ rest) = false ∧
        (startsComment (c :: run ++ rest) = true → isInlineBlank before = false)) ∧
      textRun c (run ++ rest) = run := by
  rw [List.cons_append, textRun]
  -- Whatever stops the run at `c` contradicts one of the four conditions on it.
  split
  · next hstop =>
    constructor
    · intro h
      simp at h
    · rintro ⟨⟨hopen, hclose, hline, hcomment⟩, -⟩
      rcases hstop with hstop | hstop | hstop | ⟨hstop, hblank⟩
      · exact absurd hstop hopen
      · exact absurd hstop hclose
      · rw [hstop] at hline
        exact absurd hline (by decide)
      · rw [hcomment hstop] at hblank
        exact absurd hblank (by decide)
  · next hgo =>
    simp only [not_or, not_and, Bool.not_eq_true] at hgo
    constructor
    · intro h
      exact ⟨hgo, (List.cons_eq_cons.mp h).2⟩
    · rintro ⟨-, h⟩
      rw [h]

/-- A run ends at a brace, at a line end or, after a blank, at a comment. -/
theorem textRun_eq_nil (before : Char) (rest : List Char) :
    textRun before rest = [] ↔
      rest = [] ∨ rest.head? = some '\x7b' ∨ rest.head? = some '\x7d' ∨
        startsLineEnd rest = true ∨ startsComment rest = true ∧ isInlineBlank before = true := by
  cases rest with
  | nil => simp [textRun]
  | cons c rest =>
    rw [textRun]
    split
    · next h => simpa using h
    · next h => simpa using h

theorem exists_textRun (before : Char) (s : List Char) :
    ∃ rest, s = textRun before s ++ rest := by
  induction s generalizing before with
  | nil => exact ⟨[], rfl⟩
  | cons c s ih =>
    rw [textRun]
    split
    · exact ⟨c :: s, rfl⟩
    · obtain ⟨rest, hs⟩ := ih c
      exact ⟨rest, congrArg (c :: ·) hs⟩

theorem head_of_endsText (pre rest : List Char) (h : EndsText (pre ++ ['/']) rest) :
    ¬(rest.head? = some '/' ∨ rest.head? = some '*') := by
  intro hnext
  rcases h.ended with hend | hend | hend | hend | ⟨-, c, hlast, hblank⟩
  · simp [hend] at hnext
  · simp [hend] at hnext
  · simp [hend] at hnext
  · cases rest with
    | nil => simp at hnext
    | cons c rest =>
      rcases (startsLineEnd_cons c rest).mp hend with rfl | ⟨rfl, -⟩ <;> simp at hnext
  · obtain rfl : '/' = c := by simpa using hlast
    exact absurd hblank (by decide)

/-- No character of plain text ends it, whatever may follow the text. -/
theorem plain_goes_on (pre : List Char) (c : Char) (run rest : List Char)
    (h : IsPlain (pre ++ c :: run)) (hrest : EndsText (pre ++ c :: run) rest) :
    c ≠ '\x7b' ∧ c ≠ '\x7d' ∧ startsLineEnd (c :: run ++ rest) = false ∧
      (startsComment (c :: run ++ rest) = true →
        ∃ b, pre.getLast? = some b ∧ isInlineBlank b = false) := by
  refine ⟨?_, ?_, ?_, ?_⟩
  · rintro rfl
    exact h.unopened (by simp)
  · rintro rfl
    exact h.unclosed (by simp)
  · rw [← Bool.not_eq_true, List.cons_append, startsLineEnd_cons]
    rintro (rfl | ⟨rfl, hnext⟩)
    · exact h.oneLine (by simp)
    · cases run with
      | nil => exact hrest.returnAlone (by simp) hnext
      | cons e run => exact h.oneLine (by simp_all)
  · intro hcomment
    cases run with
    | nil =>
      -- The last slash of the text cannot open a comment with what ends the text.
      obtain ⟨rfl, hnext⟩ := (startsComment_cons c rest).mp hcomment
      exact absurd hnext (head_of_endsText pre rest hrest)
    | cons e run =>
      exact h.noComment pre (c :: e :: run) rfl (startsComment_of_append c e run rest hcomment)

/-- Plain text is one run as long as it is followed by something that ends text. -/
theorem textRun_of_plain (pre : List Char) (c : Char) (run rest : List Char)
    (h : IsPlain (pre ++ c :: run)) (hrest : EndsText (pre ++ c :: run) rest) :
    textRun c (run ++ rest) = run := by
  induction run generalizing pre c with
  | nil =>
    rw [List.nil_append, textRun_eq_nil, ← endsBlank_concat pre c]
    exact hrest.ended
  | cons d run ih =>
    -- One character on, `c` is the last of what was passed, which decides on comments.
    have hassoc : pre ++ c :: d :: run = (pre ++ [c]) ++ d :: run := by simp
    rw [hassoc] at h hrest
    obtain ⟨hopen, hclose, hline, hcomment⟩ := plain_goes_on (pre ++ [c]) d run rest h hrest
    rw [textRun_cons_append]
    refine ⟨⟨hopen, hclose, hline, ?_⟩, ih (pre ++ [c]) d h hrest⟩
    intro hstart
    obtain ⟨b, hlast, hb⟩ := hcomment hstart
    obtain rfl : c = b := by simpa using hlast
    exact hb

/-- By induction on the run, with the character before it. -/
theorem facts_of_textRun (before : Char) (run rest : List Char)
    (h : textRun before (run ++ rest) = run) :
    ('\x7b' ∉ run ∧ '\x7d' ∉ run ∧ '\n' ∉ run) ∧
    (∀ pre post, run = pre ++ post → startsComment post = true →
      ∃ c, (before :: pre).getLast? = some c ∧ isInlineBlank c = false) ∧
    (run.getLast? = some '\r' → rest.head? ≠ some '\n') ∧
    (rest = [] ∨ rest.head? = some '\x7b' ∨ rest.head? = some '\x7d' ∨
      startsLineEnd rest = true ∨
      startsComment rest = true ∧
        ∃ c, (before :: run).getLast? = some c ∧ isInlineBlank c = true) := by
  -- The character before the run moves along with it.
  induction run generalizing before with
  | nil =>
    refine ⟨by simp, ?_, nofun, ?_⟩
    · intro pre post hsplit hcomment
      obtain ⟨rfl, rfl⟩ := List.append_eq_nil_iff.mp hsplit.symm
      exact absurd hcomment (by decide)
    · simpa using (textRun_eq_nil before rest).mp h
  | cons c run ih =>
    obtain ⟨⟨hopen, hclose, hline, hcomment⟩, htail⟩ := (textRun_cons_append before c run rest).mp h
    obtain ⟨⟨hopened, hclosed, hlined⟩, hplain, hreturn, hended⟩ := ih c htail
    have hfeed : c ≠ '\n' := ne_of_startsLineEnd c (run ++ rest) hline
    refine ⟨⟨?_, ?_, ?_⟩, ?_, ?_, ?_⟩
    · simp [hopened, Ne.symm hopen]
    · simp [hclosed, Ne.symm hclose]
    · simp [hlined, Ne.symm hfeed]
    · intro pre post hsplit hpost
      cases pre with
      | nil =>
        obtain rfl : c :: run = post := hsplit
        exact ⟨before, rfl, hcomment (startsComment_append (c :: run) rest hpost)⟩
      | cons d pre =>
        obtain ⟨rfl, hrun⟩ := List.cons_eq_cons.mp hsplit
        rw [List.getLast?_cons_cons]
        exact hplain pre post hrun hpost
    · exact returnAlone_cons c run rest hline hreturn
    · rw [List.getLast?_cons_cons]
      exact hended

/-- A run of rule text with its first character, where neither a brace, a line end nor a comment
begins, is plain. -/
theorem plain_of_textRun (c : Char) (run rest : List Char) (hopen : c ≠ '\x7b')
    (hclose : c ≠ '\x7d') (hline : startsLineEnd (c :: run ++ rest) = false)
    (hcomment : startsComment (c :: run ++ rest) = false) (h : textRun c (run ++ rest) = run) :
    IsPlain (c :: run) ∧ EndsText (c :: run) rest := by
  obtain ⟨⟨hopened, hclosed, hlined⟩, hplain, hreturn, hended⟩ := facts_of_textRun c run rest h
  have hfeed : c ≠ '\n' := ne_of_startsLineEnd c (run ++ rest) hline
  refine ⟨⟨List.cons_ne_nil c run, ?_, ?_, ?_, ?_⟩, ?_, hended⟩
  · simp [hopened, Ne.symm hopen]
  · simp [hclosed, Ne.symm hclose]
  · simp [hlined, Ne.symm hfeed]
  · intro pre post hsplit hpost
    cases pre with
    | nil =>
      obtain rfl : c :: run = post := hsplit
      rw [startsComment_append (c :: run) rest hpost] at hcomment
      exact absurd hcomment (by decide)
    | cons d pre =>
      obtain ⟨rfl, hrun⟩ := List.cons_eq_cons.mp hsplit
      exact hplain pre post hrun hpost
  · exact returnAlone_cons c run rest hline hreturn

end RandomTables
