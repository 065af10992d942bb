import RandomTables.Proofs.Token.Taking

namespace RandomTables
open Text (Stops)

def LexesBite (mode : Mode) (last : Option TokenKind) (c : Char) (rest : List Char)
    (bite : Bite) : Prop :=
  ∃ tail after, rest = tail ++ after ∧ bite.more = tail.length ∧
    Lexes mode last ⟨bite.kind, bite.value, c :: tail⟩ bite.mode after

section Backwards
variable {mode : Mode} {last : Option TokenKind} {c : Char} {rest : List Char} {bite : Bite}

/-- A comment is one up to the end of the line or one that is closed. -/
theorem lexes_of_stepComment (hstart : rest.head? = some '/' ∨ rest.head? = some '*')
    (h : stepComment mode rest = .ok bite) : LexesBite mode last '/' rest bite := by
  rw [stepComment] at h
  split at h
  · next hslash =>
    obtain ⟨body, rfl⟩ : ∃ body, rest = '/' :: body := by
      cases rest <;> simp_all
    obtain ⟨run, after, rfl, hrun, hafter⟩ := Text.exists_run (· ≠ '\n') body
    -- The second slash belongs to the run up to the line feed.
    have htake : ('/' :: (run ++ after)).takeWhile (· ≠ '\n') = '/' :: run :=
      Text.takeWhile_append_of_stops _ ('/' :: run) after (by simpa using hrun) hafter
    obtain rfl := Except.ok.inj h
    refine ⟨'/' :: run, after, rfl, ?_, ?_⟩
    · rw [htake]
      rfl
    · refine Lexes.lineComment (fun hfeed => ?_) hafter
      exact absurd (hrun _ hfeed) (by decide)
  · next hslash =>
    obtain ⟨body, rfl⟩ : ∃ body, rest = '*' :: body := by
      cases rest <;> simp_all
    rw [List.tail_cons] at h
    split at h
    · next comment hclosed =>
      obtain ⟨body, after, rfl, rfl, hbody⟩ := exists_of_closedComment body comment hclosed
      obtain rfl := Except.ok.inj h
      refine ⟨'*' :: (body ++ ['*', '/']), after, by simp, ?_, ?_⟩
      · simp only [Bite.trivia, List.length_cons, Nat.add_comm]
      · simp only [Bite.trivia, modeAfter_append]
        exact Lexes.blockComment hbody
    · exact absurd h (by simp)

theorem stepNumber_append (c : Char) {digits fraction after : List Char}
    (hdigits : ∀ d ∈ digits, Text.isDigit d = true)
    (hstops : Stops Text.isDigit (fraction ++ after))
    (hpart : fractionPart (fraction ++ after) = fraction) :
    stepNumber c (digits ++ fraction ++ after) =
      if after.head?.any clingsToNumber then
        let lexeme := c :: digits ++ fraction ++ after.takeWhile continuesNumber
        .error (.reported (.invalidNumber (String.ofList lexeme)) lexeme.length .declaration)
      else if Decimal.floatOfLiteral (c :: digits ++ fraction) ≤ 0 then
        .error (.reported .zeroWeight (c :: digits ++ fraction).length .declaration)
      else .ok ⟨some .number, some (.weight (Decimal.floatOfLiteral (c :: digits ++ fraction))),
        (digits ++ fraction).length, .declaration⟩ := by
  have hrun : (digits ++ (fraction ++ after)).takeWhile Text.isDigit = digits :=
    Text.takeWhile_append_of_stops _ digits _ hdigits hstops
  have hdrop : (digits ++ (fraction ++ after)).drop (digits.length + fraction.length) = after := by
    rw [← List.append_assoc, ← List.length_append, List.drop_left]
  rw [List.append_assoc]
  simp only [stepNumber, hrun, List.drop_left, hpart, hdrop, List.length_append]
  rfl

/-- A weight is read from digits and a fraction, by what comes after them. -/
theorem stepNumber_split (c : Char) (rest : List Char) :
    ∃ digits fraction after, rest = digits ++ fraction ++ after ∧
      (∀ d ∈ digits, Text.isDigit d = true) ∧ IsFraction fraction ∧
      stepNumber c rest =
        if after.head?.any clingsToNumber then
          let lexeme := c :: digits ++ fraction ++ after.takeWhile continuesNumber
          .error (.reported (.invalidNumber (String.ofList lexeme)) lexeme.length .declaration)
        else if Decimal.floatOfLiteral (c :: digits ++ fraction) ≤ 0 then
          .error (.reported .zeroWeight (c :: digits ++ fraction).length .declaration)
        else .ok ⟨some .number, some (.weight (Decimal.floatOfLiteral (c :: digits ++ fraction))),
          (digits ++ fraction).length, .declaration⟩ := by
  obtain ⟨digits, tail, rfl, hdigits, htail⟩ := Text.exists_run Text.isDigit rest
  obtain ⟨after, hafter⟩ := exists_fractionPart tail
  have hfraction := isFraction_fractionPart tail
  -- The text is digits, fraction and what is after them, by name from here on.
  generalize hpart : fractionPart tail = fraction at hafter hfraction
  subst hafter
  rw [← List.append_assoc]
  exact ⟨digits, fraction, after, rfl, hdigits, hfraction, stepNumber_append c hdigits htail hpart⟩

/-- A number was taken with its fraction, and is not rounded to zero. -/
theorem lexes_of_stepNumber (hc : Text.isDigit c = true) (h : stepNumber c rest = .ok bite) :
    LexesBite .declaration last c rest bite := by
  obtain ⟨digits, fraction, after, rfl, hdigits, hfraction, hstep⟩ := stepNumber_split c rest
  rw [hstep] at h
  split at h
  · cases h
  · next hstop =>
    split at h
    · cases h
    · next hweight =>
      obtain rfl := Except.ok.inj h
      have hstops : Stops clingsToNumber after :=
        (Text.stops_iff_head _ _).mpr (Bool.not_eq_true _ ▸ hstop)
      exact ⟨digits ++ fraction, after, rfl, rfl,
        Lexes.number hc hdigits hfraction hstops hweight⟩

theorem lexes_of_stepDeclaration (hline : startsLineEnd (c :: rest) = false)
    (h : stepDeclaration c rest = .ok bite) : LexesBite .declaration last c rest bite := by
  rw [stepDeclaration] at h
  split at h
  · next hblank =>
    obtain ⟨after, hrest, hrun⟩ := exists_lineBlanks rest
    obtain rfl := Except.ok.inj h
    refine ⟨lineBlanks rest, after, hrest, rfl, Lexes.blanks (List.cons_ne_nil c _) ?_⟩
    -- The first blank was taken before the run, and is no line end.
    refine ⟨?_, ?_, hrun.ended⟩
    · intro d hd
      rcases List.mem_cons.mp hd with rfl | hd
      · exact (isLineBlank_iff d).mpr hblank
      · exact hrun.blank d hd
    · rw [hrest] at hline
      exact returnAlone_cons c _ after hline hrun.returnAlone
  · split at h
    · next kind hmark =>
      obtain rfl := Except.ok.inj h
      exact ⟨[], rest, rfl, rfl, Lexes.mark hmark⟩
    · split at h
      · next hcolon =>
        obtain rfl := Except.ok.inj h
        subst hcolon
        exact ⟨[], rest, rfl, rfl, Lexes.colon⟩
      · split at h
        · next hdigit => exact lexes_of_stepNumber hdigit h
        · split at h
          · next hletter =>
            obtain ⟨tail, after, rfl, htail, hafter⟩ := Text.exists_run Text.continuesName rest
            obtain rfl := Except.ok.inj h
            rw [Text.takeWhile_append_of_stops _ tail after htail hafter]
            exact ⟨tail, after, rfl, rfl, Lexes.word hletter htail hafter⟩
          · exact absurd h (by simp)

/-- What is no brace and ends no line is text. -/
theorem lexes_of_stepContent (hline : startsLineEnd (c :: rest) = false)
    (hcomment : startsComment (c :: rest) = false) (h : stepContent c rest = .ok bite) :
    LexesBite .ruleContent last c rest bite := by
  rw [stepContent] at h
  split at h
  · next hopen =>
    obtain rfl := Except.ok.inj h
    subst hopen
    exact ⟨[], rest, rfl, rfl, Lexes.openBrace⟩
  · next hopen =>
    split at h
    · exact absurd h (by simp)
    · next hclose =>
      obtain ⟨after, hrest⟩ := exists_textRun c rest
      obtain rfl := Except.ok.inj h
      refine ⟨textRun c rest, after, hrest, rfl, ?_⟩
      generalize hrun : textRun c rest = run at hrest
      subst hrest
      obtain ⟨hplain, hends⟩ := plain_of_textRun c run after hopen hclose hline hcomment hrun
      exact Lexes.text hplain hends

/-- Dice are read from a well-formed roll, and anything else is reported, up to where no word could
go on. -/
theorem roll_or_reported (input : List Char) :
    (∃ count sides after, input = count ++ 'd' :: sides ++ after ∧ IsRoll count sides after) ∨
      ∃ fault literal after, input = literal ++ after ∧ IsWordRun literal after ∧
        stepDice input = .error (.reported (.invalidDice (String.ofList literal) fault)
          literal.length .expression) := by
  obtain ⟨count, tail, rfl, hcount, htail⟩ := Text.exists_run Text.isDigit input
  have hcountWord : ∀ c ∈ count, Text.continuesWord c = true :=
    fun c hc => Text.continuesWord_of_isDigit c (hcount c hc)
  unfold stepDice
  simp only [Text.takeWhile_append_of_stops _ count tail hcount htail, List.drop_left]
  split
  · next hletter =>
    obtain ⟨tail, rfl⟩ : ∃ t, tail = 'd' :: t := by
      cases tail <;> simp_all
    obtain ⟨sides, after, rfl, hsides, hafter⟩ := Text.exists_run Text.isDigit tail
    have hsplit : count ++ 'd' :: (sides ++ after) = count ++ 'd' :: sides ++ after := by
      rw [List.append_assoc, List.cons_append]
    simp only [List.tail_cons, Text.takeWhile_append_of_stops _ sides after hsides hafter]
    rw [hsplit, List.drop_left]
    split
    · obtain ⟨run, after, rfl, hrun, hstops⟩ := Text.exists_run Text.continuesWord after
      rw [Text.takeWhile_append_of_stops _ run after hrun hstops]
      refine .inr ⟨_, _, after, (List.append_assoc _ _ _).symm, ⟨?_, hstops⟩, rfl⟩
      rw [List.forall_mem_append, List.forall_mem_append, List.forall_mem_cons]
      exact ⟨⟨hcountWord, by decide,
        fun c hc => Text.continuesWord_of_isDigit c (hsides c hc)⟩, hrun⟩
    · next hword =>
      rw [not_or] at hword
      have hstops : Stops Text.continuesWord after :=
        (Text.stops_iff_head _ _).mpr (Bool.not_eq_true _ ▸ hword.2)
      exact .inl ⟨count, sides, after, rfl, hcount, hsides, hword.1, hstops⟩
  · obtain ⟨run, after, rfl, hrun, hstops⟩ := Text.exists_run Text.continuesWord tail
    rw [Text.takeWhile_append_of_stops _ run after hrun hstops]
    exact .inr ⟨_, _, after, (List.append_assoc _ _ _).symm,
      ⟨List.forall_mem_append.mpr ⟨hcountWord, hrun⟩, hstops⟩, rfl⟩

/-- A roll that begins with its letter has no count before it. -/
theorem unannounced_of_roll {count sides after : List Char}
    (hname : Text.isDigit c = false → announcesName last = false)
    (hsplit : c :: rest = count ++ 'd' :: sides ++ after) :
    count = [] → announcesName last = false := by
  rintro rfl
  obtain ⟨rfl, -⟩ := List.cons_eq_cons.mp hsplit
  exact hname (by decide)

/-- A roll was taken with all of its digits. -/
theorem lexes_of_stepDice (hname : Text.isDigit c = false → announcesName last = false)
    (h : stepDice (c :: rest) = .ok bite) : LexesBite .expression last c rest bite := by
  rcases roll_or_reported (c :: rest) with
    ⟨count, sides, after, hsplit, hroll⟩ | ⟨_, _, _, -, -, hfail⟩
  · have hlast := unannounced_of_roll hname hsplit
    rw [hsplit, stepDice_append count sides hroll] at h
    split at h
    · cases h
    · split at h
      · cases h
      · next hlength dice hdice =>
        obtain rfl := Except.ok.inj h
        have hlexes := Lexes.dice hroll.count_isDigit hroll.sides_isDigit hroll.sides_ne_nil
          hroll.ended hlast (by omega) (by omega) hdice
        -- The literal begins with the character of the step.
        cases count with
        | nil =>
          obtain ⟨rfl, rfl⟩ := List.cons_eq_cons.mp hsplit
          exact ⟨sides, after, rfl, rfl, hlexes⟩
        | cons d count =>
          obtain ⟨rfl, rfl⟩ := List.cons_eq_cons.mp hsplit
          exact ⟨count ++ 'd' :: sides, after, rfl, by simp, hlexes⟩
  · rw [hfail] at h
    cases h

theorem lexes_of_stepExpression (hcomment : startsComment (c :: rest) = false)
    (h : stepExpression last c rest = .ok bite) : LexesBite .expression last c rest bite := by
  rw [stepExpression] at h
  split at h
  · next hblank =>
    obtain ⟨run, after, rfl, hrun, hafter⟩ := Text.exists_run isInlineBlank rest
    obtain rfl := Except.ok.inj h
    rw [Text.takeWhile_append_of_stops _ run after hrun hafter]
    refine ⟨run, after, rfl, rfl, Lexes.spaces (List.cons_ne_nil c run) ?_ hafter⟩
    intro d hd
    rcases List.mem_cons.mp hd with rfl | hd
    · exact hblank
    · exact hrun d hd
  · split at h
    · next hclose =>
      obtain rfl := Except.ok.inj h
      subst hclose
      exact ⟨[], rest, rfl, rfl, Lexes.closeBrace⟩
    · split at h
      · next kind hmark =>
        obtain rfl := Except.ok.inj h
        exact ⟨[], rest, rfl, rfl, Lexes.sign hmark hcomment⟩
      · split at h
        · next hdigit => exact lexes_of_stepDice (fun hno => by simp [hdigit] at hno) h
        · next hdigit =>
          split at h
          · next hletter =>
            split at h
            · next hdice => exact lexes_of_stepDice (fun _ => by simpa using hdice.2.2) h
            · next hdice =>
              obtain ⟨tail, after, rfl, htail, hafter⟩ := Text.exists_run Text.continuesName rest
              obtain rfl := Except.ok.inj h
              rw [Text.takeWhile_append_of_stops _ tail after htail hafter]
              refine ⟨tail, after, rfl, rfl, Lexes.name hletter htail hafter ?_⟩
              -- A letter with a digit after it is a name only where names are announced.
              intro hd hnext
              by_cases hlast : announcesName last = true
              · exact hlast
              · cases tail with
                | nil => simp at hnext
                | cons d tail => exact absurd ⟨hd, hnext, hlast⟩ hdice
          · exact absurd h (by simp)

/-- What a step takes, it takes by a rule. -/
theorem lexes_of_step (h : step mode last c rest = .ok bite) :
    LexesBite mode last c rest bite := by
  -- The cases in the order of the step: line ends, comments, and then what the mode takes.
  by_cases hline : startsLineEnd (c :: rest) = true
  · rcases (startsLineEnd_cons c rest).mp hline with rfl | ⟨rfl, hnext⟩
    · obtain rfl := Except.ok.inj h
      exact ⟨[], rest, rfl, rfl, Lexes.lineFeed⟩
    · obtain ⟨tail, rfl⟩ : ∃ tail, rest = '\n' :: tail := by
        cases rest <;> simp_all
      obtain rfl := Except.ok.inj h
      exact ⟨['\n'], tail, rfl, rfl, Lexes.returnFeed⟩
  · by_cases hcomment : startsComment (c :: rest) = true
    · obtain ⟨rfl, hnext⟩ := (startsComment_cons c rest).mp hcomment
      rw [step_of_comment _ _ _ hnext] at h
      exact lexes_of_stepComment hnext h
    · rw [Bool.not_eq_true] at hline hcomment
      obtain ⟨hdeclaration, hcontent, hexpression⟩ := step_of_mode last c rest hline hcomment
      cases mode with
      | declaration => exact lexes_of_stepDeclaration hline (hdeclaration ▸ h)
      | ruleContent => exact lexes_of_stepContent hline hcomment (hcontent ▸ h)
      | expression => exact lexes_of_stepExpression hcomment (hexpression ▸ h)

end Backwards

/-- A step takes a piece if and only if the rule of the piece applies. -/
theorem takes_iff_lexes {mode : Mode} {last : Option TokenKind} {piece : Piece} {next : Mode}
    {rest : List Char} : Takes mode last piece next rest ↔ Lexes mode last piece next rest := by
  constructor
  · rintro ⟨c, tail, htext, hstep⟩
    obtain ⟨run, after, hrest, hlength, hlexes⟩ := lexes_of_step hstep
    obtain ⟨rfl, rfl⟩ := List.append_inj hrest hlength
    rw [← htext] at hlexes
    exact hlexes
  · exact takes_of_lexes

end RandomTables
