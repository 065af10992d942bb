import RandomTables.Proofs.Token.TextRun

/-! What one step of the scanner can take, as one rule for each sort of piece. A rule names the
characters of the piece and what may follow them, so that a step can be run forwards from its rule
and backwards to it. -/
namespace RandomTables
open Text (Stops)

/-- A part of a source that one step takes: a token of the given kind and value or, without a kind,
a blank or comment. -/
structure Piece where
  kind : Option TokenKind
  value : Option TokenValue
  text : List Char

namespace Piece

def token (kind : TokenKind) (text : List Char) : Piece :=
  ⟨some kind, none, text⟩

def trivia (text : List Char) : Piece :=
  ⟨none, none, text⟩

end Piece

/-- The step at the text of the piece, with `rest` after it, takes just the piece. Reading goes on
in the mode `next`. -/
def Takes (mode : Mode) (last : Option TokenKind) (piece : Piece) (next : Mode)
    (rest : List Char) : Prop :=
  ∃ c tail, piece.text = c :: tail ∧
    step mode last c (tail ++ rest) = .ok ⟨piece.kind, piece.value, tail.length, next⟩

def clingsToNumber (c : Char) : Bool :=
  Text.continuesWord c || c == '.'

def declaredKind (word : List Char) : TokenKind :=
  if word = "export".toList then .exportWord else .identifier

def namedKind (last : Option TokenKind) (name : List Char) : TokenKind :=
  if last = some .pipe ∧ Modifier.isName (String.ofList name) then .modifier else .identifier

theorem declaredKind_ne {kind : TokenKind} (word : List Char)
    (h : kind ∉ [TokenKind.exportWord, .identifier]) : declaredKind word ≠ kind := by
  rintro rfl
  rw [declaredKind] at h
  split at h <;> exact h (by decide)

theorem namedKind_ne {kind : TokenKind} (last : Option TokenKind) (name : List Char)
    (h : kind ∉ [TokenKind.modifier, .identifier]) : namedKind last name ≠ kind := by
  rintro rfl
  rw [namedKind] at h
  split at h <;> exact h (by decide)

inductive Lexes : Mode → Option TokenKind → Piece → Mode → List Char → Prop
  | lineFeed {mode last rest} : Lexes mode last (.token .newline ['\n']) .declaration rest
  | returnFeed {mode last rest} : Lexes mode last (.token .newline ['\r', '\n']) .declaration rest
  | lineComment {mode last body rest} : '\n' ∉ body → Stops (· ≠ '\n') rest →
      Lexes mode last (.trivia ('/' :: '/' :: body)) mode rest
  | blockComment {mode last body rest} : IsCommentBody body →
      Lexes mode last (.trivia ('/' :: '*' :: (body ++ ['*', '/']))) (modeAfter mode body) rest
  | blanks {last run rest} : run ≠ [] → IsBlankRun run rest →
      Lexes .declaration last (.trivia run) .declaration rest
  | mark {last c kind rest} : declarationMark? c = some kind →
      Lexes .declaration last (.token kind [c]) .declaration rest
  | colon {last rest} : Lexes .declaration last (.token .colon [':']) .ruleContent rest
  | number {last c digits fraction rest} : Text.isDigit c = true →
      (∀ d ∈ digits, Text.isDigit d = true) → IsFraction fraction → Stops clingsToNumber rest →
      ¬Decimal.floatOfLiteral (c :: digits ++ fraction) ≤ 0 →
      Lexes .declaration last
        ⟨some .number, some (.weight (Decimal.floatOfLiteral (c :: digits ++ fraction))),
          c :: (digits ++ fraction)⟩ .declaration rest
  | word {last c tail rest} : Text.isLetter c = true → (∀ d ∈ tail, Text.continuesName d = true) →
      Stops Text.continuesName rest →
      Lexes .declaration last (.token (declaredKind (c :: tail)) (c :: tail)) .declaration rest
  | openBrace {last rest} : Lexes .ruleContent last (.token .leftBrace ['\x7b']) .expression rest
  | text {last s rest} : IsPlain s → EndsText s rest →
      Lexes .ruleContent last (.token .text s) .ruleContent rest
  | spaces {last run rest} : run ≠ [] → (∀ c ∈ run, isInlineBlank c = true) →
      Stops isInlineBlank rest → Lexes .expression last (.trivia run) .expression rest
  | closeBrace {last rest} : Lexes .expression last (.token .rightBrace ['\x7d']) .ruleContent rest
  | sign {last c kind rest} : expressionMark? c = some kind → startsComment (c :: rest) = false →
      Lexes .expression last (.token kind [c]) .expression rest
  | dice {last count sides dice rest} : (∀ c ∈ count, Text.isDigit c = true) →
      (∀ c ∈ sides, Text.isDigit c = true) → sides ≠ [] → Stops Text.continuesWord rest →
      (count = [] → announcesName last = false) →
      count.length ≤ maxDiceDigits → sides.length ≤ maxDiceDigits →
      readDice count sides = .ok dice →
      Lexes .expression last ⟨some .diceRoll, some (.dice dice), count ++ 'd' :: sides⟩
        .expression rest
  | name {last c tail rest} : Text.isLetter c = true → (∀ d ∈ tail, Text.continuesName d = true) →
      Stops Text.continuesName rest →
      (c = 'd' → tail.head?.any Text.isDigit = true → announcesName last = true) →
      Lexes .expression last (.token (namedKind last (c :: tail)) (c :: tail)) .expression rest

/-- Line ends and comments apart, each mode has its own step. -/
theorem step_of_mode (last : Option TokenKind) (c : Char) (rest : List Char)
    (hline : startsLineEnd (c :: rest) = false) (hcomment : startsComment (c :: rest) = false) :
    step .declaration last c rest = stepDeclaration c rest ∧
    step .ruleContent last c rest = stepContent c rest ∧
    step .expression last c rest = stepExpression last c rest := by
  -- Line ends and comments come before the mode in every step.
  rw [← Bool.not_eq_true, startsLineEnd_cons, not_or] at hline
  unfold step
  simp only [if_neg hline.1, if_neg hline.2, hcomment, Bool.false_eq_true, if_false, and_self]

theorem step_of_comment (mode : Mode) (last : Option TokenKind) (rest : List Char)
    (h : rest.head? = some '/' ∨ rest.head? = some '*') :
    step mode last '/' rest = stepComment mode rest := by
  unfold step
  rw [if_neg (by decide), if_neg (by simp), if_pos (by simpa using h)]

theorem startsLineEnd_of_ne (c : Char) (rest : List Char) (hfeed : c ≠ '\n') (hreturn : c ≠ '\r') :
    startsLineEnd (c :: rest) = false := by
  rw [← Bool.not_eq_true, startsLineEnd_cons]
  rintro (h | ⟨h, -⟩)
  · exact hfeed h
  · exact hreturn h

theorem startsComment_of_ne (c : Char) (rest : List Char) (h : c ≠ '/') :
    startsComment (c :: rest) = false := by
  rw [← Bool.not_eq_true, startsComment_cons]
  exact fun hc => h hc.1

/-- The closing mark holds no line feed. -/
theorem modeAfter_append (mode : Mode) (body : List Char) :
    modeAfter mode (body ++ ['*', '/']) = modeAfter mode body := by
  simp [modeAfter]

end RandomTables
