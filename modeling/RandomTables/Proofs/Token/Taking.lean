import RandomTables.Proofs.Token.Lexeme

namespace RandomTables
open Text (Stops)

section Forwards
variable {mode : Mode} {last : Option TokenKind} {rest : List Char}

/-- A line comment runs up to the line feed and leaves it. -/
theorem takes_lineComment (body : List Char) (hbody : '\n' ∉ body)
    (hrest : Stops (· ≠ '\n') rest) :
    Takes mode last (.trivia ('/' :: '/' :: body)) mode rest := by
  refine ⟨'/', '/' :: body, rfl, ?_⟩
  have hchars : ∀ c ∈ '/' :: body, (decide (c ≠ '\n')) = true := by
    intro c hc
    rw [decide_eq_true_iff]
    rintro rfl
    exact hbody (by simpa using hc)
  have hrun : (('/' :: body) ++ rest).takeWhile (· ≠ '\n') = '/' :: body :=
    Text.takeWhile_append_of_stops _ _ rest hchars hrest
  rw [step_of_comment _ _ _ (by simp), stepComment, if_pos (by simp), hrun]
  rfl

theorem takes_blockComment (body : List Char) (hbody : IsCommentBody body) :
    Takes mode last (.trivia ('/' :: '*' :: (body ++ ['*', '/']))) (modeAfter mode body) rest := by
  refine ⟨'/', '*' :: (body ++ ['*', '/']), rfl, ?_⟩
  have hclosed : closedComment? (body ++ ['*', '/'] ++ rest) = some (body ++ ['*', '/']) := by
    rw [List.append_assoc]
    exact closedComment_append body rest hbody
  rw [step_of_comment _ _ _ (by simp), stepComment, if_neg (by simp), List.cons_append,
    List.tail_cons, hclosed]
  simp only [Piece.trivia, Bite.trivia, modeAfter_append, List.length_cons, Nat.add_comm]

/-- Blanks end before a line end. -/
theorem takes_blanks (run : List Char) (hne : run ≠ []) (h : IsBlankRun run rest) :
    Takes .declaration last (.trivia run) .declaration rest := by
  have hrun := lineBlanks_append run rest h
  obtain ⟨c, run, rfl⟩ := List.exists_cons_of_ne_nil hne
  refine ⟨c, run, rfl, ?_⟩
  rw [List.cons_append, lineBlanks] at hrun
  split at hrun
  · next hc =>
    have hline : startsLineEnd (c :: (run ++ rest)) = false := by
      rw [← Bool.not_eq_true, startsLineEnd_cons]
      rintro (rfl | ⟨rfl, hnext⟩)
      · simp at hc
      · simp [hnext] at hc
    have hcomment : startsComment (c :: (run ++ rest)) = false := by
      apply startsComment_of_ne
      rintro rfl
      simp at hc
    have hblank := (isLineBlank_iff c).mp (h.blank c List.mem_cons_self)
    rw [(step_of_mode _ _ _ hline hcomment).1, stepDeclaration, if_pos hblank,
      (List.cons_eq_cons.mp hrun).2]
    rfl
  · next hc => exact absurd hrun (List.cons_ne_nil c run).symm

theorem mark_cases (c : Char) (kind : TokenKind) (h : declarationMark? c = some kind) :
    c = '#' ∨ c = '[' ∨ c = ']' ∨ c = ',' := by
  by_cases h₁ : c = '#' ∨ c = '[' ∨ c = ']' ∨ c = ','
  · exact h₁
  · simp only [not_or] at h₁
    simp [declarationMark?, h₁] at h

theorem kind_of_mark {c : Char} {kind : TokenKind} (h : declarationMark? c = some kind) :
    kind ∈ [TokenKind.hash, .leftBracket, .rightBracket, .comma] := by
  rcases mark_cases c kind h with rfl | rfl | rfl | rfl <;> cases h <;> decide

theorem takes_mark (c : Char) (kind : TokenKind) (h : declarationMark? c = some kind) :
    Takes .declaration last (.token kind [c]) .declaration rest := by
  refine ⟨c, [], rfl, ?_⟩
  rcases mark_cases c kind h with rfl | rfl | rfl | rfl
  all_goals
    rw [(step_of_mode _ _ _ (startsLineEnd_of_ne _ _ (by decide) (by decide))
      (startsComment_of_ne _ _ (by decide))).1, stepDeclaration, if_neg (by decide), h]
    rfl

theorem takes_colon : Takes .declaration last (.token .colon [':']) .ruleContent rest := by
  refine ⟨':', [], rfl, ?_⟩
  rw [(step_of_mode _ _ _ (startsLineEnd_of_ne _ _ (by decide) (by decide))
    (startsComment_of_ne _ _ (by decide))).1]
  rfl

theorem step_of_word (c : Char) (hc : Text.continuesName c = true) :
    step .declaration last c rest = stepDeclaration c rest ∧
    step .ruleContent last c rest = stepContent c rest ∧
    step .expression last c rest = stepExpression last c rest := by
  have hne (d : Char) (hd : Text.continuesName d = false) : c ≠ d :=
    Text.ne_of_property Text.continuesName c d hc hd
  exact step_of_mode last c rest
    (startsLineEnd_of_ne c rest (hne _ (by decide)) (hne _ (by decide)))
    (startsComment_of_ne c rest (hne _ (by decide)))

theorem stepDeclaration_of_word (c : Char) (hc : Text.continuesWord c = true) :
    stepDeclaration c rest =
      if Text.isDigit c then stepNumber c rest
      else if Text.isLetter c then
        .ok (.token (declaredKind (c :: rest.takeWhile Text.continuesName))
          (rest.takeWhile Text.continuesName).length .declaration)
      else .error (.reported (.invalidCharacter .declaration c) 0 .declaration) := by
  have hne (d : Char) (hd : Text.continuesWord d = false) : c ≠ d :=
    Text.ne_of_property Text.continuesWord c d hc hd
  have hmark : declarationMark? c = none := by
    simp [declarationMark?, hne '#' (by decide), hne '[' (by decide), hne ']' (by decide),
      hne ',' (by decide)]
  rw [stepDeclaration, if_neg, hmark]
  · dsimp only
    rw [if_neg (hne ':' (by decide))]
    rfl
  · rintro (h | h | h)
    · exact hne ' ' (by decide) h
    · exact hne '\t' (by decide) h
    · exact hne '\r' (by decide) h

/-- A number is taken with all of its digits, if nothing clings to it. -/
theorem takes_number (c : Char) (digits fraction : List Char) (hc : Text.isDigit c = true)
    (hdigits : ∀ d ∈ digits, Text.isDigit d = true) (hfraction : IsFraction fraction)
    (hrest : Stops clingsToNumber rest)
    (hweight : ¬Decimal.floatOfLiteral (c :: digits ++ fraction) ≤ 0) :
    Takes .declaration last
      ⟨some .number, some (.weight (Decimal.floatOfLiteral (c :: digits ++ fraction))),
        c :: (digits ++ fraction)⟩ .declaration rest := by
  refine ⟨c, digits ++ fraction, rfl, ?_⟩
  have hword := Text.continuesWord_of_isDigit c hc
  -- The digits end at the point of the fraction or, without one, where the number ends.
  have hafter : Stops Text.isDigit (fraction ++ rest) := by
    rcases hfraction with rfl | ⟨ds, rfl, -, -⟩
    · exact Text.stops_mono _ _ rest
        (fun d hd => by simp [clingsToNumber, Text.continuesWord_of_isDigit d hd]) hrest
    · exact (by decide : Text.isDigit '.' = false)
  have hrun : (digits ++ fraction ++ rest).takeWhile Text.isDigit = digits := by
    rw [List.append_assoc]
    exact Text.takeWhile_append_of_stops _ digits _ hdigits hafter
  have hpart : fractionPart ((digits ++ fraction ++ rest).drop digits.length) = fraction := by
    rw [List.append_assoc, List.drop_left]
    exact fractionPart_append fraction rest hfraction hrest
  have hdrop : (digits ++ fraction ++ rest).drop (digits.length + fraction.length) = rest := by
    rw [← List.length_append, List.drop_left]
  have hstop := (Text.stops_iff_head clingsToNumber rest).mp hrest
  rw [(step_of_word c (Text.continuesName_of_continuesWord c hword)).1,
    stepDeclaration_of_word c hword, if_pos hc, stepNumber]
  simp only [hrun, hpart, hdrop]
  rw [if_neg, if_neg hweight, List.length_append]
  change ¬rest.head?.any clingsToNumber = true
  rw [hstop]
  decide

theorem takes_word (c : Char) (tail : List Char) (hc : Text.isLetter c = true)
    (htail : ∀ d ∈ tail, Text.continuesName d = true) (hrest : Stops Text.continuesName rest) :
    Takes .declaration last (.token (declaredKind (c :: tail)) (c :: tail)) .declaration rest := by
  refine ⟨c, tail, rfl, ?_⟩
  have hword := Text.continuesWord_of_isLetter c hc
  have hdigit : ¬Text.isDigit c = true := by simp [Text.not_isDigit_of_isLetter c hc]
  rw [(step_of_word c (Text.continuesName_of_continuesWord c hword)).1,
    stepDeclaration_of_word c hword, if_neg hdigit, if_pos hc,
    Text.takeWhile_append_of_stops _ tail rest htail hrest]
  rfl

theorem takes_openBrace :
    Takes .ruleContent last (.token .leftBrace ['\x7b']) .expression rest := by
  refine ⟨'\x7b', [], rfl, ?_⟩
  rw [(step_of_mode _ _ _ (startsLineEnd_of_ne _ _ (by decide) (by decide))
    (startsComment_of_ne _ _ (by decide))).2.1]
  rfl

/-- Plain text is taken whole, if something ends it. -/
theorem takes_text (s : List Char) (hs : IsPlain s) (hrest : EndsText s rest) :
    Takes .ruleContent last (.token .text s) .ruleContent rest := by
  obtain ⟨c, tail, rfl⟩ := List.exists_cons_of_ne_nil hs.nonempty
  refine ⟨c, tail, rfl, ?_⟩
  obtain ⟨hopen, hclose, hline, hopener⟩ := plain_goes_on [] c tail rest hs hrest
  rw [List.cons_append] at hline
  -- Nothing comes before the first character, so no comment may open there.
  have hcomment : startsComment (c :: (tail ++ rest)) = false := by
    rw [← Bool.not_eq_true]
    intro hstart
    obtain ⟨b, hb, -⟩ := hopener hstart
    simp at hb
  rw [(step_of_mode _ _ _ hline hcomment).2.1]
  rw [stepContent, if_neg hopen, if_neg hclose, textRun_of_plain [] c tail rest hs hrest]
  rfl

theorem stepExpression_of_ne (c : Char) (hblank : isInlineBlank c = false) (hclose : c ≠ '\x7d')
    (hmark : expressionMark? c = none) :
    stepExpression last c rest =
      if Text.isDigit c then stepDice (c :: rest)
      else if Text.isLetter c then
        if c = 'd' ∧ rest.head?.any Text.isDigit ∧ ¬announcesName last then stepDice (c :: rest)
        else
          .ok (.token (namedKind last (c :: rest.takeWhile Text.continuesName))
            (rest.takeWhile Text.continuesName).length .expression)
      else .error (.reported (.invalidCharacter .expression c) 0 .expression) := by
  rw [stepExpression, if_neg (by simp [hblank]), if_neg hclose, hmark]
  rfl

theorem stepExpression_of_word (c : Char) (hc : Text.continuesWord c = true) :
    stepExpression last c rest =
      if Text.isDigit c then stepDice (c :: rest)
      else if Text.isLetter c then
        if c = 'd' ∧ rest.head?.any Text.isDigit ∧ ¬announcesName last then stepDice (c :: rest)
        else
          .ok (.token (namedKind last (c :: rest.takeWhile Text.continuesName))
            (rest.takeWhile Text.continuesName).length .expression)
      else .error (.reported (.invalidCharacter .expression c) 0 .expression) := by
  have hne (d : Char) (hd : Text.continuesWord d = false) : c ≠ d :=
    Text.ne_of_property Text.continuesWord c d hc hd
  apply stepExpression_of_ne
  · simp [isInlineBlank, hne ' ' (by decide), hne '\t' (by decide)]
  · exact hne '\x7d' (by decide)
  · simp [expressionMark?, hne '#' (by decide), hne '@' (by decide), hne '/' (by decide),
      hne '|' (by decide)]

theorem takes_spaces (run : List Char) (hne : run ≠ [])
    (hrun : ∀ c ∈ run, isInlineBlank c = true) (hrest : Stops isInlineBlank rest) :
    Takes .expression last (.trivia run) .expression rest := by
  obtain ⟨c, run, rfl⟩ := List.exists_cons_of_ne_nil hne
  refine ⟨c, run, rfl, ?_⟩
  have hc := hrun c List.mem_cons_self
  have hchar (d : Char) (hd : isInlineBlank d = false) : c ≠ d :=
    Text.ne_of_property isInlineBlank c d hc hd
  have htail : (run ++ rest).takeWhile isInlineBlank = run :=
    Text.takeWhile_append_of_stops _ run rest (fun d hd => hrun d (List.mem_cons_of_mem c hd)) hrest
  rw [(step_of_mode _ _ _
    (startsLineEnd_of_ne _ _ (hchar _ (by decide)) (hchar _ (by decide)))
    (startsComment_of_ne _ _ (hchar _ (by decide)))).2.2]
  rw [stepExpression, if_pos hc, htail]
  rfl

theorem takes_closeBrace :
    Takes .expression last (.token .rightBrace ['\x7d']) .ruleContent rest := by
  refine ⟨'\x7d', [], rfl, ?_⟩
  rw [(step_of_mode _ _ _ (startsLineEnd_of_ne _ _ (by decide) (by decide))
    (startsComment_of_ne _ _ (by decide))).2.2]
  rfl

theorem sign_cases (c : Char) (kind : TokenKind) (h : expressionMark? c = some kind) :
    c = '#' ∨ c = '@' ∨ c = '/' ∨ c = '|' := by
  by_cases h₁ : c = '#' ∨ c = '@' ∨ c = '/' ∨ c = '|'
  · exact h₁
  · simp only [not_or] at h₁
    simp [expressionMark?, h₁] at h

theorem kind_of_sign {c : Char} {kind : TokenKind} (h : expressionMark? c = some kind) :
    kind ∈ [TokenKind.hash, .atSign, .slash, .pipe] := by
  rcases sign_cases c kind h with rfl | rfl | rfl | rfl <;> cases h <;> decide

theorem takes_sign (c : Char) (kind : TokenKind) (h : expressionMark? c = some kind)
    (hcomment : startsComment (c :: rest) = false) :
    Takes .expression last (.token kind [c]) .expression rest := by
  refine ⟨c, [], rfl, ?_⟩
  have hcases := sign_cases c kind h
  have hline : startsLineEnd (c :: rest) = false := by
    rcases hcases with rfl | rfl | rfl | rfl <;>
      exact startsLineEnd_of_ne _ _ (by decide) (by decide)
  rw [List.nil_append, (step_of_mode _ _ _ hline hcomment).2.2]
  rcases hcases with rfl | rfl | rfl | rfl
  all_goals
    rw [stepExpression, if_neg (by decide), if_neg (by decide), h]
    rfl

/-- What becomes of a well-formed roll depends on its numbers alone. -/
theorem stepDice_append (count sides : List Char) (h : IsRoll count sides rest) :
    stepDice (count ++ 'd' :: sides ++ rest) =
      if maxDiceDigits < count.length ∨ maxDiceDigits < sides.length then
        .error ⟨.overlongDice, (count ++ 'd' :: sides).length, .expression⟩
      else
        match readDice count sides with
        | .error fault =>
          .error (.reported (.invalidDice (String.ofList (count ++ 'd' :: sides)) fault)
            (count ++ 'd' :: sides).length .expression)
        | .ok dice =>
          .ok ⟨some .diceRoll, some (.dice dice), (count ++ 'd' :: sides).length - 1,
            .expression⟩ := by
  have hletter : Stops Text.isDigit ('d' :: (sides ++ rest)) :=
    (by decide : Text.isDigit 'd' = false)
  have hrun : (count ++ 'd' :: sides ++ rest).takeWhile Text.isDigit = count := by
    rw [List.append_assoc]
    exact Text.takeWhile_append_of_stops _ count _ h.count_isDigit hletter
  have hdrop : (count ++ 'd' :: sides ++ rest).drop count.length = 'd' :: (sides ++ rest) := by
    rw [List.append_assoc, List.drop_left]
    rfl
  have hstops : Stops Text.isDigit rest :=
    Text.stops_mono _ _ rest Text.continuesWord_of_isDigit h.ended
  have htail : (sides ++ rest).takeWhile Text.isDigit = sides :=
    Text.takeWhile_append_of_stops _ sides rest h.sides_isDigit hstops
  have hafter : (count ++ 'd' :: sides ++ rest).drop (count ++ 'd' :: sides).length = rest :=
    List.drop_left
  have hstop := (Text.stops_iff_head Text.continuesWord rest).mp h.ended
  unfold stepDice
  simp only [hrun, hdrop, List.head?_cons, List.tail_cons, htail, hafter]
  rw [if_pos trivial]
  exact if_neg (by simp [h.sides_ne_nil, hstop])

/-- Where a roll begins, a step in an expression reads dice. -/
theorem step_of_roll (count sides : List Char) (h : IsRoll count sides rest)
    (hname : count = [] → announcesName last = false) (c : Char) (tail : List Char)
    (hsplit : count ++ 'd' :: sides ++ rest = c :: tail) :
    step .expression last c tail = stepDice (c :: tail) := by
  -- Without a count the roll begins with its letter, else with a digit.
  cases count with
  | nil =>
    obtain ⟨rfl, rfl⟩ := List.cons_eq_cons.mp hsplit
    obtain ⟨s, ss, rfl⟩ := List.exists_cons_of_ne_nil h.sides_ne_nil
    have hs := h.sides_isDigit s List.mem_cons_self
    rw [(step_of_word _ (by decide)).2.2]
    rw [stepExpression_of_word _ (by decide), if_neg (by decide), if_pos (by decide),
      if_pos ⟨rfl, by simpa using hs, by simp [hname rfl]⟩]
  | cons d count =>
    obtain ⟨rfl, rfl⟩ := List.cons_eq_cons.mp hsplit
    have hd := h.count_isDigit d List.mem_cons_self
    have hword := Text.continuesWord_of_isDigit d hd
    rw [(step_of_word d (Text.continuesName_of_continuesWord d hword)).2.2]
    rw [stepExpression_of_word d hword, if_pos hd]

/-- A roll is taken with all of its digits, where no name is announced. -/
theorem takes_dice (count sides : List Char) (dice : Dice)
    (hcount : ∀ c ∈ count, Text.isDigit c = true) (hsides : ∀ c ∈ sides, Text.isDigit c = true)
    (hne : sides ≠ []) (hrest : Stops Text.continuesWord rest)
    (hname : count = [] → announcesName last = false)
    (hcountLength : count.length ≤ maxDiceDigits) (hsidesLength : sides.length ≤ maxDiceDigits)
    (hdice : readDice count sides = .ok dice) :
    Takes .expression last ⟨some .diceRoll, some (.dice dice), count ++ 'd' :: sides⟩
      .expression rest := by
  have hroll : IsRoll count sides rest := ⟨hcount, hsides, hne, hrest⟩
  have hstep : stepDice (count ++ 'd' :: sides ++ rest) = .ok
      ⟨some .diceRoll, some (.dice dice), (count ++ 'd' :: sides).length - 1, .expression⟩ := by
    rw [stepDice_append count sides hroll, if_neg (by omega), hdice]
  obtain ⟨c, tail, hsplit⟩ := List.exists_cons_of_ne_nil
    (List.append_ne_nil_of_right_ne_nil count (List.cons_ne_nil 'd' sides))
  have hall : count ++ 'd' :: sides ++ rest = c :: (tail ++ rest) := by
    rw [hsplit, List.cons_append]
  refine ⟨c, tail, hsplit, ?_⟩
  rw [step_of_roll count sides hroll hname c _ hall, ← hall, hstep, hsplit]
  rfl

/-- A name is taken whole, unless it could be a roll. -/
theorem takes_name (c : Char) (tail : List Char) (hc : Text.isLetter c = true)
    (htail : ∀ d ∈ tail, Text.continuesName d = true) (hrest : Stops Text.continuesName rest)
    (hname : c = 'd' → tail.head?.any Text.isDigit = true → announcesName last = true) :
    Takes .expression last (.token (namedKind last (c :: tail)) (c :: tail)) .expression rest := by
  refine ⟨c, tail, rfl, ?_⟩
  have hword := Text.continuesWord_of_isLetter c hc
  have hdigit : ¬Text.isDigit c = true := by simp [Text.not_isDigit_of_isLetter c hc]
  have hnodice : ¬(c = 'd' ∧ (tail ++ rest).head?.any Text.isDigit = true ∧
      ¬announcesName last = true) := by
    rintro ⟨hd, hnext, hlast⟩
    cases tail with
    | nil =>
      -- After a lone letter comes nothing that could go on with a name, so no digit either.
      have hname (d : Char) (hd : Text.isDigit d = true) : Text.continuesName d = true :=
        Text.continuesName_of_continuesWord d (Text.continuesWord_of_isDigit d hd)
      have hstops : Stops Text.isDigit rest := Text.stops_mono _ _ rest hname hrest
      rw [List.nil_append, (Text.stops_iff_head _ _).mp hstops] at hnext
      exact absurd hnext (by decide)
    | cons d tail => exact hlast (hname hd hnext)
  rw [(step_of_word c (Text.continuesName_of_continuesWord c hword)).2.2]
  rw [stepExpression_of_word c hword, if_neg hdigit, if_pos hc, if_neg hnodice,
    Text.takeWhile_append_of_stops _ tail rest htail hrest]
  rfl

end Forwards

/-- Where a rule applies, the step takes its piece. -/
theorem takes_of_lexes {mode : Mode} {last : Option TokenKind} {piece : Piece} {next : Mode}
    {rest : List Char} (h : Lexes mode last piece next rest) : Takes mode last piece next rest := by
  cases h with
  | lineFeed => exact ⟨'\n', [], rfl, rfl⟩
  | returnFeed => exact ⟨'\r', ['\n'], rfl, rfl⟩
  | lineComment hbody hrest => exact takes_lineComment _ hbody hrest
  | blockComment hbody => exact takes_blockComment _ hbody
  | blanks hne hrun => exact takes_blanks _ hne hrun
  | mark hmark => exact takes_mark _ _ hmark
  | colon => exact takes_colon
  | number hc hdigits hfraction hrest hweight =>
    exact takes_number _ _ _ hc hdigits hfraction hrest hweight
  | word hc htail hrest => exact takes_word _ _ hc htail hrest
  | openBrace => exact takes_openBrace
  | text hs hrest => exact takes_text _ hs hrest
  | spaces hne hrun hrest => exact takes_spaces _ hne hrun hrest
  | closeBrace => exact takes_closeBrace
  | sign hmark hcomment => exact takes_sign _ _ hmark hcomment
  | dice hcount hsides hne hrest hname hcountLength hsidesLength hdice =>
    exact takes_dice _ _ _ hcount hsides hne hrest hname hcountLength hsidesLength hdice
  | name hc htail hrest hname => exact takes_name _ _ hc htail hrest hname

end RandomTables
