import Mathlib.Data.List.Basic
import RandomTables.Proofs.Token.Reading

namespace RandomTables
open Text (Stops)

def BeginsDice (literal : List Char) : Prop :=
  ∃ c tail, literal = c :: tail ∧
    (Text.isDigit c = true ∨ c = 'd' ∧ tail.head?.any Text.isDigit = true)

structure IsOverlongRoll (last : Option TokenKind) (count sides rest : List Char) : Prop
    extends IsRoll count sides rest where
  unannounced : count = [] → announcesName last = false
  overlong : maxDiceDigits < count.length ∨ maxDiceDigits < sides.length

inductive Misreads : Mode → Option TokenKind → StepFault → List Char → Prop
  | invalidCharacter {mode last c rest} :
      Misreads mode last (.reported (.invalidCharacter mode c)) (c :: rest)
  | unterminatedComment {mode last body} : ¬['*', '/'] <:+: body →
      Misreads mode last (.reported .unterminatedComment) ('/' :: '*' :: body)
  | invalidNumber {last c digits fraction d more rest} : Text.isDigit c = true →
      (∀ d ∈ digits, Text.isDigit d = true) → IsFraction fraction → clingsToNumber d = true →
      (∀ d ∈ more, continuesNumber d = true) → Stops continuesNumber rest →
      Misreads .declaration last
        (.reported (.invalidNumber (String.ofList (c :: digits ++ fraction ++ (d :: more)))))
        (c :: digits ++ fraction ++ (d :: more) ++ rest)
  | zeroWeight {last c digits fraction rest} : Text.isDigit c = true →
      (∀ d ∈ digits, Text.isDigit d = true) → IsFraction fraction → Stops clingsToNumber rest →
      Decimal.floatOfLiteral (c :: digits ++ fraction) ≤ 0 →
      Misreads .declaration last (.reported .zeroWeight) (c :: digits ++ fraction ++ rest)
  | invalidDice {last literal fault rest} : BeginsDice literal → IsWordRun literal rest →
      Misreads .expression last (.reported (.invalidDice (String.ofList literal) fault))
        (literal ++ rest)
  | overlongDice {last count sides rest} : IsOverlongRoll last count sides rest →
      Misreads .expression last .overlongDice (count ++ 'd' :: sides ++ rest)

/-- A comment is not closed if the mark does not come. -/
theorem closedComment_eq_none_iff (s : List Char) :
    closedComment? s = none ↔ ¬['*', '/'] <:+: s := by
  induction s with
  | nil => simp [closedComment?]
  | cons c rest ih =>
    have hfront : ['*', '/'] <+: c :: rest ↔ c = '*' ∧ rest.head? = some '/' := by
      cases rest <;> simp [eq_comm]
    rw [closedComment?, List.infix_cons_iff, hfront, not_or]
    split
    · next hcloses => simp [hcloses]
    · next hopen => rw [Option.map_eq_none_iff, ih, and_iff_right hopen]

/-- The first character goes on with a word, and so does a digit that stands after the letter. -/
theorem beginsDice {c : Char} {rest literal after : List Char}
    (hstart : Text.isDigit c = true ∨ c = 'd' ∧ rest.head?.any Text.isDigit = true)
    (hsplit : c :: rest = literal ++ after) (hrun : IsWordRun literal after) :
    BeginsDice literal := by
  have hc : Text.continuesWord c = true := by
    rcases hstart with hdigit | ⟨rfl, -⟩
    · exact Text.continuesWord_of_isDigit c hdigit
    · decide
  cases literal with
  | nil =>
    obtain rfl : c :: rest = after := hsplit
    exact absurd hrun.ended (by simp [hc])
  | cons d tail =>
    obtain ⟨rfl, rfl⟩ := List.cons_eq_cons.mp hsplit
    refine ⟨c, tail, rfl, hstart.imp_right fun ⟨hletter, hnext⟩ => ⟨hletter, ?_⟩⟩
    cases tail with
    | cons d tail => exact hnext
    | nil =>
      cases after with
      | nil => exact hnext
      | cons d after =>
        have hd : Text.continuesWord d = true := Text.continuesWord_of_isDigit d hnext
        exact absurd hrun.ended (by simp [hd])

section Steps
variable {mode : Mode} {last : Option TokenKind} {c : Char} {rest : List Char} {halt : Halt}

theorem misreads_of_reported {fault : LexFault} {seen : Nat} {next : Mode} {s : List Char}
    (hrule : Misreads mode last (.reported fault) s)
    (h : (.error (.reported fault seen next) : Except Halt Bite) = .error halt) :
    Misreads mode last halt.fault s := by
  cases h
  exact hrule

theorem misreads_of_stepComment (hstart : rest.head? = some '/' ∨ rest.head? = some '*')
    (h : stepComment mode rest = .error halt) : Misreads mode last halt.fault ('/' :: rest) := by
  rw [stepComment] at h
  split at h
  · cases h
  · next hslash =>
    obtain ⟨body, rfl⟩ := List.head?_eq_some_iff.mp (hstart.resolve_left hslash)
    rw [List.tail_cons] at h
    split at h
    · cases h
    · next hopen =>
      exact misreads_of_reported (.unterminatedComment ((closedComment_eq_none_iff _).mp hopen)) h

/-- A number goes on with what clings to it, or is rounded to zero. -/
theorem misreads_of_stepNumber (hc : Text.isDigit c = true)
    (h : stepNumber c rest = .error halt) : Misreads .declaration last halt.fault (c :: rest) := by
  obtain ⟨digits, fraction, after, rfl, hdigits, hfraction, hstep⟩ := stepNumber_split c rest
  rw [hstep] at h
  split at h
  · next hclings =>
    obtain ⟨d, more, rfl⟩ : ∃ d more, after = d :: more := by
      cases after <;> simp_all
    obtain ⟨run, after, rfl, hmore, hstops⟩ := Text.exists_run continuesNumber more
    have hd : continuesNumber d = true := by
      simp_all [continuesNumber, clingsToNumber]
    have htake : (d :: (run ++ after)).takeWhile continuesNumber = d :: run :=
      Text.takeWhile_append_of_stops _ (d :: run) after (by simpa [hd] using hmore) hstops
    have hrule : Misreads .declaration last _ _ :=
      .invalidNumber hc hdigits hfraction hclings hmore hstops
    rw [htake] at h
    rw [List.append_assoc (c :: digits ++ fraction)] at hrule
    exact misreads_of_reported hrule h
  · next hstop =>
    split at h
    · next hweight =>
      have hstops : Stops clingsToNumber after :=
        (Text.stops_iff_head _ _).mpr (Bool.not_eq_true _ ▸ hstop)
      exact misreads_of_reported (.zeroWeight hc hdigits hfraction hstops hweight) h
    · cases h

theorem misreads_of_stepDeclaration (h : stepDeclaration c rest = .error halt) :
    Misreads .declaration last halt.fault (c :: rest) := by
  unfold stepDeclaration at h
  split at h
  · cases h
  · split at h
    · cases h
    · split at h
      · cases h
      · split at h
        · next hdigit => exact misreads_of_stepNumber hdigit h
        · split at h
          · cases h
          · exact misreads_of_reported .invalidCharacter h

/-- In content only a closing brace is wrong. -/
theorem misreads_of_stepContent (h : stepContent c rest = .error halt) :
    Misreads .ruleContent last halt.fault (c :: rest) := by
  unfold stepContent at h
  split at h
  · cases h
  · split at h
    · exact misreads_of_reported .invalidCharacter h
    · cases h

/-- A roll goes on with what clings to it, or has a number out of bounds, or too many digits. -/
theorem misreads_of_stepDice (hstart : Text.isDigit c = true ∨
      c = 'd' ∧ rest.head?.any Text.isDigit = true ∧ announcesName last = false)
    (h : stepDice (c :: rest) = .error halt) :
    Misreads .expression last halt.fault (c :: rest) := by
  have hbegins : Text.isDigit c = true ∨ c = 'd' ∧ rest.head?.any Text.isDigit = true :=
    hstart.imp_right fun h => ⟨h.1, h.2.1⟩
  rcases roll_or_reported (c :: rest) with
    ⟨count, sides, after, hsplit, hroll⟩ | ⟨why, literal, after, hsplit, hrun, hfail⟩
  · have hname (hno : Text.isDigit c = false) : announcesName last = false := by
      rcases hstart with hdigit | ⟨-, -, hlast⟩
      · simp [hdigit] at hno
      · exact hlast
    have hlast := unannounced_of_roll hname hsplit
    have hliteral := beginsDice hbegins hsplit hroll.isWordRun
    rw [hsplit, stepDice_append count sides hroll] at h
    rw [hsplit]
    -- The lengths are looked at before the values, and faults of the values are reported.
    split at h
    · next hlength =>
      cases h
      exact .overlongDice ⟨hroll, hlast, hlength⟩
    · split at h
      · exact misreads_of_reported (.invalidDice hliteral hroll.isWordRun) h
      · cases h
  · rw [hfail] at h
    rw [hsplit]
    exact misreads_of_reported (.invalidDice (beginsDice hbegins hsplit hrun) hrun) h

theorem misreads_of_stepExpression (h : stepExpression last c rest = .error halt) :
    Misreads .expression last halt.fault (c :: rest) := by
  unfold stepExpression at h
  -- Two branches read dice: at a digit, and at the letter where no name is announced.
  split at h
  · cases h
  · split at h
    · cases h
    · split at h
      · cases h
      · split at h
        · next hdigit => exact misreads_of_stepDice (.inl hdigit) h
        · split at h
          · split at h
            · next hdice =>
              refine misreads_of_stepDice (.inr ⟨hdice.1, hdice.2.1, ?_⟩) h
              simpa using hdice.2.2
            · cases h
          · exact misreads_of_reported .invalidCharacter h

/-- A step that fails does so by a rule, and at no line feed, which is a word of every mode. -/
theorem misreads_of_step (h : step mode last c rest = .error halt) :
    c ≠ '\n' ∧ Misreads mode last halt.fault (c :: rest) := by
  unfold step at h
  split at h
  · cases h
  · next hfeed =>
    refine ⟨hfeed, ?_⟩
    split at h
    · cases h
    · split at h
      · next hcomment =>
        obtain ⟨rfl, hnext⟩ := (startsComment_cons c rest).mp hcomment
        exact misreads_of_stepComment hnext h
      · cases mode with
        | declaration => exact misreads_of_stepDeclaration h
        | ruleContent => exact misreads_of_stepContent h
        | expression => exact misreads_of_stepExpression h

end Steps

section Before
variable {mode next : Mode} {last : Option TokenKind} {piece : Piece} {pieces : List Piece}
variable {c : Char} {rest : List Char}

theorem continuesNumber_of_isLineBlank (d : Char) (h : isLineBlank d = true) :
    continuesNumber d = false := by
  rcases (isLineBlank_iff d).mp h with rfl | rfl | rfl <;> decide

/-- No piece outside of rule content ends where a word could go on. -/
theorem before_of_lexes (h : Lexes mode last piece next (c :: rest)) (hnext : next ≠ .ruleContent)
    (hc : Text.continuesWord c = true) :
    ∀ d ∈ piece.text.getLast?, continuesNumber d = false := by
  have hname : Text.continuesName c = true := Text.continuesName_of_continuesWord c hc
  have hclings : clingsToNumber c = true := by rw [clingsToNumber, hc, Bool.true_or]
  intro d hd
  cases h with
  | lineFeed => cases hd; decide
  | returnFeed => cases hd; decide
  | lineComment _ hstops =>
    -- Only a line feed is after a line comment.
    obtain rfl : c = '\n' := by simpa using hstops
    exact absurd hc (by decide)
  | blockComment _ =>
    rw [Piece.trivia, ← List.cons_append, ← List.cons_append,
      List.getLast?_append_of_ne_nil _ (List.cons_ne_nil _ _)] at hd
    cases hd
    decide
  | blanks hne hrun =>
    exact continuesNumber_of_isLineBlank d (hrun.blank d (List.mem_of_getLast? hd))
  | mark hmark =>
    cases hd
    rcases mark_cases _ _ hmark with rfl | rfl | rfl | rfl <;> decide
  | colon => exact absurd rfl hnext
  | number _ _ _ hstops _ => simp [hclings] at hstops
  | word _ _ hstops => simp [hname] at hstops
  | openBrace => cases hd; decide
  | text => exact absurd rfl hnext
  | spaces _ hblank _ =>
    have hd := hblank d (List.mem_of_getLast? hd)
    exact continuesNumber_of_isLineBlank d (by rw [isLineBlank]; simp_all [isInlineBlank])
  | closeBrace => exact absurd rfl hnext
  | sign hmark =>
    cases hd
    rcases sign_cases _ _ hmark with rfl | rfl | rfl | rfl <;> decide
  | dice _ _ _ hstops => simp [hc] at hstops
  | name _ _ hstops => simp [hname] at hstops

/-- Where a word could go on, the scanner has come to its first character. -/
theorem before_of_reads (h : Reads (c :: rest) .declaration none pieces mode last)
    (hmode : mode ≠ .ruleContent) (hc : Text.continuesWord c = true) :
    ∀ d ∈ (textOf pieces).getLast?, continuesNumber d = false := by
  rcases pieces.eq_nil_or_concat with rfl | ⟨front, piece, rfl⟩
  · exact fun _ hd => nomatch hd
  · rw [List.concat_eq_append] at h ⊢
    obtain ⟨mode', last', -, htakes, -⟩ := reads_concat h
    rw [textOf_append, textOf_singleton,
      List.getLast?_append_of_ne_nil _ (text_ne_nil_of_takes htakes)]
    exact before_of_lexes (takes_iff_lexes.mp htakes) hmode hc

end Before

end RandomTables
