import RandomTables.Program
import RandomTables.Program.Expectation

/-!
Readers of token lists. Each takes the tokens ahead and answers what it read and the tokens after
it. The end of input is the end of the list. The grammar that the readers follow, with a star for
repetition and a bar for choice:

* program: line-end* table table*
* table: hash name (flags or nothing) (nothing or line-end (line-end | rule)*)
* flags: `[` export (`,` export)* `]`
* rule: weight `:` (text | expression)*, where not all may be blank text
* expression: `{` (table-reference | external-reference | dice) `}`
* table-reference: `#` name (`|` modifier)*
* external-reference: `@` name `/` name `#` name (`|` modifier)*
-/
namespace RandomTables

inductive Misparse where
  /-- The first of the remaining tokens is not what was expected. -/
  | unexpected (expected : Expectation) (remaining : List Token)
  /-- A flag list, opened by a bracket, holds a word that is no flag, the first one remaining. -/
  | unknownFlag (bracket flag : Token) (remaining : List Token)
  | noTables
  | badPayload (fault : PayloadFault)
  | badSpan (fault : SpanFault)

def readKind (kind : TokenKind) (expected : Expectation) :
    List Token → Except Misparse (Token × List Token)
  | [] => .error (.unexpected expected [])
  | t :: rest => if t.kind = kind then .ok (t, rest) else .error (.unexpected expected (t :: rest))

def spanTo (first : Token) (stop : Nat) : Except Misparse Span :=
  (Span.ofOffsets first.span.start stop).mapError .badSpan

theorem readKind_length {kind : TokenKind} {expected : Expectation} {tokens rest : List Token}
    {t : Token} (h : readKind kind expected tokens = .ok (t, rest)) :
    tokens.length = rest.length + 1 := by
  cases tokens with
  | nil => simp [readKind] at h
  | cons u us =>
    simp only [readKind] at h
    split at h
    · simp_all
    · simp at h

/-- What a chain of readers answers was answered by its links. -/
theorem bind_eq_ok {ε α β : Type} {x : Except ε α} {f : α → Except ε β} {b : β}
    (h : x.bind f = .ok b) : ∃ a, x = .ok a ∧ f a = .ok b := by
  cases x with
  | error e => simp [Except.bind] at h
  | ok a => exact ⟨a, rfl, h⟩

/-- A reader that ends in a value leaves the tokens it says. -/
theorem rest_eq_of_pure {ε α β : Type} {a b : α} {s t : β}
    (h : (pure (a, s) : Except ε (α × β)) = .ok (b, t)) : s = t := by
  cases h
  rfl

end RandomTables
