import RandomTables.Proofs.Token.Reading
import RandomTables.Proofs.Token.Sentinel

namespace RandomTables
namespace Scanner
open Text (Stops)

def ofStep (position : Nat) (c : Char) (rest : List Char) : Except Halt Bite → Scanning Stride
  | .ok bite =>
    return ⟨bite.kind.map fun kind => .ofBite kind bite position c rest,
      position + (bite.more + 1), bite.mode⟩
  | .error halt => throw (.stopped (halt.faultAt position))

section Strides
variable {source rest : List Char} {c : Char} {first limit : Nat} {mode : Mode}

theorem ofOffsets_add (first more : Nat) : Span.ofOffsets first (first + more : Nat) =
    .ok ⟨first, first + more, Nat.le_add_right _ _⟩ := by
  rw [Span.ofOffsets, if_neg (by omega), dif_pos (by omega)]
  rfl

/-- A token of the first character and `more` characters after it. -/
theorem token_eq (h : source.drop first = c :: rest) (kind : TokenKind) (more : Nat) (mode : Mode)
    (value : Option TokenValue) : token source kind first (first + (more + 1)) mode value =
      ofStep first c rest (.ok ⟨some kind, value, more, mode⟩) := by
  have hlexeme : lexeme source first (first + (more + 1)) = c :: rest.take more := by
    rw [lexeme, List.extract_eq_take_drop, Nat.add_sub_cancel_left, h, List.take_succ_cons]
  rw [token, ofOffsets_add, hlexeme]
  rfl

/-- Both kinds of comments are passed over up to where they end. -/
theorem comment_eq (hlimit : source.length < limit) (h : source.drop first = c :: rest)
    (hstart : startsComment (c :: rest) = true) (mode : Mode) :
    comment source limit first mode = ofStep first c rest (stepComment mode rest) := by
  obtain ⟨rfl, hnext⟩ := (startsComment_cons c rest).mp hstart
  have hiff : charAt source (first + 1) = '/' ↔ rest.head? = some '/' := by
    rw [charAt_eq_iff (by decide), drop_succ h]
  rw [comment, stepComment]
  by_cases hslash : rest.head? = some '/'
  · have hrun := passInside_eq hlimit (fun c => decide (c ≠ '\n')) first
    rw [if_pos (hiff.mpr hslash), if_pos hslash, hrun, pure_bind, h,
      List.takeWhile_cons_of_pos (by decide), List.length_cons]
    rfl
  · -- The star of the opening is passed over, so the two characters of it close no comment.
    obtain ⟨body, rfl⟩ := List.head?_eq_some_iff.mp (hnext.resolve_left hslash)
    have hbody : source.drop (first + 2) = body := drop_add h 1
    rw [if_neg (mt hiff.mp hslash), if_neg hslash, List.tail_cons,
      passComment_eq first limit (first + 2) mode (length_drop_lt hlimit _), hbody]
    cases closedComment? body with
    | none =>
      have hend : first + 2 + body.length = first + (1 + ('*' :: body).length) := by
        rw [List.length_cons]
        omega
      dsimp only
      rw [modeAfter_cons, if_neg (by decide), hend]
      rfl
    | some comment =>
      have hend : first + 2 + comment.length = first + (1 + comment.length + 1) := by omega
      dsimp only
      rw [hend]
      rfl

/-- A number is passed with its fraction. -/
theorem passNumber_eq {digits fraction after : List Char} (hlimit : source.length < limit)
    (h : source.drop first = c :: (digits ++ (fraction ++ after))) (hc : Text.isDigit c = true)
    (hdigits : ∀ d ∈ digits, Text.isDigit d = true)
    (hstops : Stops Text.isDigit (fraction ++ after))
    (hpart : fractionPart (fraction ++ after) = fraction) :
    (passRun source limit Text.isDigit first >>= passFraction source limit) =
      pure (first + (c :: digits ++ fraction).length) := by
  have hrun : (c :: (digits ++ (fraction ++ after))).takeWhile Text.isDigit = c :: digits := by
    rw [List.takeWhile_cons_of_pos hc, Text.takeWhile_append_of_stops _ digits _ hdigits hstops]
  have hbehind : source.drop (first + (c :: digits).length) = fraction ++ after := drop_append h
  rw [passRun_eq hlimit Text.isDigit (by decide), h, hrun, pure_bind, passFraction_eq hlimit,
    hbehind, hpart, List.length_append, Nat.add_assoc]

/-- A number is passed over with its fraction and what clings to it. -/
theorem number_eq (hlimit : source.length < limit) (h : source.drop first = c :: rest)
    (hc : Text.isDigit c = true) :
    number source limit first = ofStep first c rest (stepNumber c rest) := by
  obtain ⟨digits, tail, rfl, hdigits, htail⟩ := Text.exists_run Text.isDigit rest
  obtain ⟨after, hafter⟩ := exists_fractionPart tail
  generalize hpart : fractionPart tail = fraction at hafter
  subst hafter
  have hpass := passNumber_eq hlimit h hc hdigits htail hpart
  have hstep := stepNumber_append c hdigits htail hpart
  have hwhole : source.drop first = c :: digits ++ fraction ++ after := by
    rw [h, List.append_assoc, List.cons_append]
  rw [List.append_assoc] at hstep
  -- The number ends behind digits and fraction, and `after` says whether it may end there.
  generalize hlast : first + (c :: digits ++ fraction).length = last at hpass
  have hahead : source.drop last = after := hlast ▸ drop_append hwhole
  have hlexeme : lexeme source first last = c :: digits ++ fraction :=
    hlast ▸ lexeme_of_prefix (hwhole ▸ List.prefix_append _ _)
  have hclings : (Text.continuesWord (charAt source last) || charAt source last == '.') =
      after.head?.any clingsToNumber := by
    rw [← hahead]
    exact check_charAt clingsToNumber (by decide) last
  rw [number, ← bind_assoc, hpass, pure_bind, hclings, hlexeme, hstep]
  by_cases hcling : after.head?.any clingsToNumber = true
  · have hmore : lexeme source first (last + (after.takeWhile continuesNumber).length) =
        c :: digits ++ fraction ++ after.takeWhile continuesNumber := by
      rw [lexeme_append (by omega) (hahead ▸ List.takeWhile_prefix _), hlexeme]
    have hlength : last + (after.takeWhile continuesNumber).length =
        first + (c :: digits ++ fraction ++ after.takeWhile continuesNumber).length := by
      rw [List.length_append, ← Nat.add_assoc, hlast]
    rw [if_pos hcling, if_pos hcling, passInside_eq hlimit, pure_bind, hahead, hmore, hlength]
    rfl
  · rw [if_neg hcling, if_neg hcling]
    by_cases hzero : Decimal.floatOfLiteral (c :: digits ++ fraction) ≤ 0
    · rw [if_pos hzero, if_pos hzero, ← hlast]
      rfl
    · rw [if_neg hzero, if_neg hzero, ← hlast]
      exact token_eq h .number _ .declaration _

theorem stopDice_eq {word back : List Char} (h : source.drop first = c :: rest)
    (hword : c :: rest = word ++ back) (fault : DiceFault) :
    stopDice source fault first (first + word.length) = ofStep first c rest
      (.error (.reported (.invalidDice (String.ofList word) fault) word.length .expression)) := by
  have hlexeme : lexeme source first (first + word.length) = word :=
    lexeme_of_prefix (h ▸ hword ▸ List.prefix_append _ _)
  rw [stopDice, hlexeme]
  rfl

/-- Without its letter a roll is bad up to where the word ends. -/
theorem stepDice_noLetter {count back : List Char} (hsplit : c :: rest = count ++ back)
    (hcount : ∀ d ∈ count, Text.isDigit d = true) (hback : Stops Text.isDigit back)
    (hletter : back.head? ≠ some 'd') :
    let word := count ++ back.takeWhile Text.continuesWord
    stepDice (c :: rest) =
      .error (.reported (.invalidDice (String.ofList word) .noLetter) word.length .expression) := by
  intro word
  have hrun : (c :: rest).takeWhile Text.isDigit = count := by
    rw [hsplit]
    exact Text.takeWhile_append_of_stops _ count back hcount hback
  unfold stepDice
  simp only [hrun]
  rw [hsplit, List.drop_left]
  exact if_neg hletter

/-- Without sides, or with more of a word behind them, a roll is bad up to where the word ends. -/
theorem stepDice_noSides {count sides back : List Char}
    (hsplit : c :: rest = count ++ 'd' :: sides ++ back)
    (hcount : ∀ d ∈ count, Text.isDigit d = true) (hsides : ∀ d ∈ sides, Text.isDigit d = true)
    (hback : Stops Text.isDigit back)
    (hbad : sides = [] ∨ back.head?.any Text.continuesWord = true) :
    let word := count ++ 'd' :: sides ++ back.takeWhile Text.continuesWord
    stepDice (c :: rest) =
      .error (.reported (.invalidDice (String.ofList word) .noSides) word.length .expression) := by
  intro word
  have hletter : Stops Text.isDigit ('d' :: (sides ++ back)) :=
    (by decide : Text.isDigit 'd' = false)
  have hrun : (c :: rest).takeWhile Text.isDigit = count := by
    rw [hsplit, List.append_assoc]
    exact Text.takeWhile_append_of_stops _ count _ hcount hletter
  have hafter : (c :: rest).drop count.length = 'd' :: (sides ++ back) := by
    rw [hsplit, List.append_assoc, List.drop_left, List.cons_append]
  have hbehind : (c :: rest).drop (count ++ 'd' :: sides).length = back := by
    rw [hsplit, List.drop_left]
  unfold stepDice
  simp only [hrun, hafter, List.head?_cons, List.tail_cons,
    Text.takeWhile_append_of_stops _ sides back hsides hback, hbehind, if_true]
  exact if_pos hbad

/-- Count and sides are the digits on both sides of the letter. -/
theorem roll_eq {count sides back : List Char} (hlimit : source.length < limit)
    (h : source.drop first = c :: rest) (hsplit : c :: rest = count ++ 'd' :: sides ++ back)
    (hcount : ∀ d ∈ count, Text.isDigit d = true) (hsides : ∀ d ∈ sides, Text.isDigit d = true)
    (hback : Stops Text.isDigit back) :
    roll source limit first (first + count.length) =
      ofStep first c rest (stepDice (c :: rest)) := by
  have hletter : source.drop (first + count.length) = 'd' :: (sides ++ back) :=
    drop_append (h.trans (hsplit.trans (List.append_assoc _ _ _)))
  have hahead : source.drop (first + count.length + 1) = sides ++ back := drop_succ hletter
  -- The roll has its letter behind the count, and its sides between the letter and `last`.
  generalize hend : first + count.length + 1 + sides.length = last
  have hlast : first + (count ++ 'd' :: sides).length = last := by
    rw [List.length_append, List.length_cons]
    omega
  have hbehind : source.drop last = back := hend ▸ drop_append hahead
  have hcountLexeme : lexeme source first (first + count.length) = count := by
    apply lexeme_of_prefix
    rw [h, hsplit, List.append_assoc]
    exact List.prefix_append _ _
  have hsidesLexeme : lexeme source (first + count.length + 1) last = sides := by
    rw [← hend]
    exact lexeme_of_prefix (hahead ▸ List.prefix_append _ _)
  rw [roll, passRun_eq hlimit Text.isDigit (by decide), hahead,
    Text.takeWhile_append_of_stops _ sides back hsides hback, hend, pure_bind]
  dsimp only
  rw [hcountLexeme, hsidesLexeme, check_charAt Text.continuesWord (by decide), hbehind]
  by_cases hbad : sides = [] ∨ back.head?.any Text.continuesWord = true
  · have hstep := stepDice_noSides hsplit hcount hsides hback hbad
    obtain ⟨run, back, rfl, hword, hstops⟩ := Text.exists_run Text.continuesWord back
    rw [Text.takeWhile_append_of_stops _ run back hword hstops] at hstep
    rw [if_pos hbad, passRun_eq hlimit Text.continuesWord (by decide), hbehind, pure_bind, hstep,
      Text.takeWhile_append_of_stops _ run back hword hstops, ← hlast, Nat.add_assoc,
      ← List.length_append]
    exact stopDice_eq h (hsplit.trans (List.append_assoc _ _ _).symm) .noSides
  · rw [if_neg hbad]
    rw [not_or] at hbad
    have hroll : IsRoll count sides back := ⟨hcount, hsides, hbad.1,
      (Text.stops_iff_head _ _).mpr (Bool.not_eq_true _ ▸ hbad.2)⟩
    have hstep := stepDice_append count sides hroll
    rw [← hsplit] at hstep
    rw [hstep]
    by_cases hlong : maxDiceDigits < count.length ∨ maxDiceDigits < sides.length
    · rw [if_pos hlong, if_pos hlong, ← hlast]
      rfl
    · rw [if_neg hlong, if_neg hlong]
      cases readDice count sides with
      | error fault =>
        rw [← hlast]
        exact stopDice_eq h hsplit fault
      | ok dice =>
        have hmore : last = first + ((count ++ 'd' :: sides).length - 1 + 1) := by
          rw [← hlast, List.length_append, List.length_cons]
          omega
        dsimp only
        rw [hmore]
        exact token_eq h .diceRoll _ .expression _

theorem dice_eq (hlimit : source.length < limit) (h : source.drop first = c :: rest) :
    dice source limit first = ofStep first c rest (stepDice (c :: rest)) := by
  obtain ⟨count, tail, hsplit, hcount, htail⟩ := Text.exists_run Text.isDigit (c :: rest)
  have hrun : (c :: rest).takeWhile Text.isDigit = count := by
    rw [hsplit]
    exact Text.takeWhile_append_of_stops _ count tail hcount htail
  have hletter : source.drop (first + count.length) = tail := drop_append (h.trans hsplit)
  have hiff : charAt source (first + count.length) = 'd' ↔ tail.head? = some 'd' := by
    rw [charAt_eq_iff (by decide), hletter]
  rw [dice, passRun_eq hlimit Text.isDigit (by decide), h, hrun, pure_bind]
  by_cases hd : tail.head? = some 'd'
  · obtain ⟨tail, rfl⟩ := List.head?_eq_some_iff.mp hd
    obtain ⟨sides, back, rfl, hsides, hback⟩ := Text.exists_run Text.isDigit tail
    rw [if_pos (hiff.mpr hd)]
    rw [← List.cons_append, ← List.append_assoc] at hsplit
    exact roll_eq hlimit h hsplit hcount hsides hback
  · obtain ⟨run, back, rfl, hword, hback⟩ := Text.exists_run Text.continuesWord tail
    have hstep := stepDice_noLetter hsplit hcount htail hd
    rw [Text.takeWhile_append_of_stops _ run back hword hback] at hstep
    rw [if_neg (mt hiff.mp hd), passRun_eq hlimit Text.continuesWord (by decide), hletter,
      pure_bind, hstep, Text.takeWhile_append_of_stops _ run back hword hback, Nat.add_assoc,
      ← List.length_append]
    exact stopDice_eq h (hsplit.trans (List.append_assoc _ _ _).symm) .noLetter

/-- A run of text ends before the first position that ends it. -/
theorem contentStep_eq (hlimit : source.length < limit) (h : source.drop first = c :: rest)
    (hline : startsLineEnd (c :: rest) = false) (hcomment : startsComment (c :: rest) = false) :
    contentStep source limit first = ofStep first c rest (stepContent c rest) := by
  rw [contentStep, stepContent, charAt_of_cons h]
  by_cases hopen : c = '\x7b'
  · rw [if_pos hopen, if_pos hopen]
    exact token_eq h .leftBrace 0 .expression none
  · rw [if_neg hopen, if_neg hopen]
    by_cases hclose : c = '\x7d'
    · rw [if_pos hclose, if_pos hclose]
      rfl
    · rw [if_neg hclose, if_neg hclose, passText_first hlimit h ⟨hopen, hclose⟩ hline hcomment,
        pure_bind]
      exact token_eq h .text _ .ruleContent none

/-- A name goes on behind its first character. -/
theorem passName_first (hlimit : source.length < limit) (h : source.drop first = c :: rest) :
    passRun source limit Text.continuesName (first + 1) =
      pure (first + ((rest.takeWhile Text.continuesName).length + 1)) := by
  rw [passRun_eq hlimit Text.continuesName (by decide), drop_succ h]
  congr 1
  omega

theorem lexeme_first (h : source.drop first = c :: rest) (p : Char → Bool) :
    lexeme source first (first + ((rest.takeWhile p).length + 1)) = c :: rest.takeWhile p := by
  have hprefix : c :: rest.takeWhile p <+: source.drop first := by
    rw [h]
    exact List.cons_prefix_cons.mpr ⟨rfl, List.takeWhile_prefix p⟩
  exact lexeme_of_prefix hprefix

theorem declarationStep_eq (hlimit : source.length < limit) (h : source.drop first = c :: rest)
    (hline : startsLineEnd (c :: rest) = false) :
    declarationStep source limit first = ofStep first c rest (stepDeclaration c rest) := by
  rw [declarationStep, stepDeclaration, charAt_of_cons h]
  by_cases hblank : c = ' ' ∨ c = '\t' ∨ c = '\r'
  · -- No line end begins here, so the loop over blanks does not stop at the first of them.
    have hfirst : c = ' ' ∨ c = '\t' ∨ (c = '\r' ∧ rest.head? ≠ some '\n') := by
      rcases hblank with hc | hc | hc
      · exact .inl hc
      · exact .inr (.inl hc)
      · refine .inr (.inr ⟨hc, fun hnext => ?_⟩)
        rw [(startsLineEnd_cons c rest).mpr (.inr ⟨hc, hnext⟩)] at hline
        cases hline
    rw [if_pos hblank, if_pos hblank, passBlanks_declaration hlimit, pure_bind, h, lineBlanks,
      if_pos hfirst]
    rfl
  rw [if_neg hblank, if_neg hblank]
  cases hmark : declarationMark? c with
  | some kind => exact token_eq h kind 0 .declaration none
  | none =>
    dsimp only
    by_cases hcolon : c = ':'
    · rw [if_pos hcolon, if_pos hcolon]
      exact token_eq h .colon 0 .ruleContent none
    rw [if_neg hcolon, if_neg hcolon]
    by_cases hdigit : Text.isDigit c = true
    · rw [if_pos hdigit, if_pos hdigit]
      exact number_eq hlimit h hdigit
    rw [if_neg hdigit, if_neg hdigit]
    by_cases hletter : Text.isLetter c = true
    · rw [if_pos hletter, if_pos hletter, passName_first hlimit h, pure_bind, lexeme_first h]
      exact token_eq h _ _ .declaration none
    · rw [if_neg hletter, if_neg hletter]
      rfl

/-- By the first character, in the order in which the step looks at it. -/
theorem expressionStep_eq (hlimit : source.length < limit) (h : source.drop first = c :: rest)
    (last : Option TokenKind) :
    expressionStep source limit last first = ofStep first c rest (stepExpression last c rest) := by
  rw [expressionStep, stepExpression, charAt_of_cons h]
  by_cases hblank : isInlineBlank c = true
  · rw [if_pos hblank, if_pos hblank, passBlanks_expression hlimit, pure_bind, h,
      List.takeWhile_cons_of_pos hblank]
    rfl
  rw [if_neg hblank, if_neg hblank]
  by_cases hclose : c = '\x7d'
  · rw [if_pos hclose, if_pos hclose]
    exact token_eq h .rightBrace 0 .ruleContent none
  rw [if_neg hclose, if_neg hclose]
  cases hmark : expressionMark? c with
  | some kind => exact token_eq h kind 0 .expression none
  | none =>
    dsimp only
    by_cases hdigit : Text.isDigit c = true
    · rw [if_pos hdigit, if_pos hdigit]
      exact dice_eq hlimit h
    rw [if_neg hdigit, if_neg hdigit]
    by_cases hletter : Text.isLetter c = true
    · rw [if_pos hletter, if_pos hletter, check_charAt Text.isDigit (by decide), drop_succ h]
      by_cases hdice : c = 'd' ∧ rest.head?.any Text.isDigit = true ∧ ¬announcesName last = true
      · rw [if_pos hdice, if_pos hdice]
        exact dice_eq hlimit h
      · rw [if_neg hdice, if_neg hdice, passName_first hlimit h, pure_bind, lexeme_first h]
        exact token_eq h _ _ .expression none
    · rw [if_neg hletter, if_neg hletter]
      rfl

/-- By position, a step comes by what a step takes of the text ahead, and fails where that fails. -/
theorem step_eq (hlimit : source.length < limit) {s : Scanner}
    (h : source.drop s.position = c :: rest) : step source limit s =
      ofStep s.position c rest (RandomTables.step s.mode s.last c rest) := by
  rw [step, isAtLineEnd_eq, isAtComment_eq, charAt_of_cons h, h]
  by_cases hline : startsLineEnd (c :: rest) = true
  · rw [if_pos hline]
    rcases (startsLineEnd_cons c rest).mp hline with rfl | ⟨rfl, hnext⟩
    · exact token_eq h .newline 0 .declaration none
    · have hstep : RandomTables.step s.mode s.last '\r' rest =
          .ok (.token .newline 1 .declaration) := by
        rw [RandomTables.step.eq_def, if_neg (by decide), if_pos ⟨rfl, hnext⟩]
      rw [hstep]
      exact token_eq h .newline 1 .declaration none
  rw [if_neg hline]
  by_cases hcomment : startsComment (c :: rest) = true
  · obtain ⟨rfl, hnext⟩ := (startsComment_cons c rest).mp hcomment
    rw [if_pos hcomment, step_of_comment s.mode s.last rest hnext]
    exact comment_eq hlimit h hcomment s.mode
  rw [if_neg hcomment]
  rw [Bool.not_eq_true] at hline hcomment
  obtain ⟨hdeclaration, hcontent, hexpression⟩ := step_of_mode s.last c rest hline hcomment
  cases hmode : s.mode with
  | declaration => rw [hdeclaration, declarationStep_eq hlimit h hline]
  | ruleContent => rw [hcontent, contentStep_eq hlimit h hline hcomment]
  | expression => rw [hexpression, expressionStep_eq hlimit h]

end Strides

end Scanner

end RandomTables
