import RandomTables.Program
import RandomTables.Proofs.Token.Extent

/-! The grammar of token lists, with the tree of each derivation. The rules look at the kinds of the
tokens alone; texts, values and places pass into the tree as the tokens have them. -/
namespace RandomTables.Grammar

def weightOf (t : Token) : Float :=
  match t.value with
  | some (.weight w) => w
  | _ => 0

def diceOf (t : Token) : Dice :=
  match t.value with
  | some (.dice d) => d
  | _ => ⟨none, 0⟩

def IsBlankText (t : Token) : Prop :=
  t.kind = .text ∧ t.lexeme.toList.all Text.isBlank = true

instance (t : Token) : Decidable (IsBlankText t) :=
  inferInstanceAs (Decidable (_ ∧ _))

def NoTextFirst : List Item → Prop
  | .text _ :: _ => False
  | _ => True

inductive Modifiers : List Token → List String → Prop
  | nil : Modifiers [] []
  | cons {bar word tokens modifiers} : bar.kind = .pipe → word.kind = .modifier →
      Modifiers tokens modifiers → Modifiers (bar :: word :: tokens) (word.lexeme :: modifiers)

inductive Braced : List Token → Item → Prop
  | table {hash id tokens modifiers} : hash.kind = .hash → id.kind = .identifier →
      Modifiers tokens modifiers → Braced (hash :: id :: tokens) (.table id.lexeme modifiers)
  | external {mark publisher slash collection hash id tokens modifiers} :
      mark.kind = .atSign → publisher.kind = .identifier → slash.kind = .slash →
      collection.kind = .identifier → hash.kind = .hash → id.kind = .identifier →
      Modifiers tokens modifiers →
      Braced (mark :: publisher :: slash :: collection :: hash :: id :: tokens)
        (.external publisher.lexeme collection.lexeme id.lexeme modifiers)
  | dice {roll} : roll.kind = .diceRoll → Braced [roll] (.dice (diceOf roll))

/-- Texts and expressions. A run of texts, as long as there are any, is one item. -/
inductive Content : List Token → List Item → Prop
  | nil : Content [] []
  | texts {run tokens items} : run ≠ [] → (∀ t ∈ run, t.kind = .text) →
      Content tokens items → NoTextFirst items →
      Content (run ++ tokens) (.text (String.join (run.map (·.lexeme))) :: items)
  | expression {opening inner closing tokens item items} :
      opening.kind = .leftBrace → Braced inner item → closing.kind = .rightBrace →
      Content tokens items → Content (opening :: (inner ++ closing :: tokens)) (item :: items)

inductive IsRule : List Token → Located Rule → Prop
  | mk {weight colon tokens items} : weight.kind = .number → colon.kind = .colon →
      Content tokens items → tokens ≠ [] → ¬(∀ t ∈ tokens, IsBlankText t) →
      IsRule (weight :: colon :: tokens)
        ⟨⟨weightOf weight, items⟩, extent (weight :: colon :: tokens)⟩

inductive Lines : List Token → List (Located Rule) → Prop
  | nil : Lines [] []
  | lineEnd {t tokens rules} : t.kind = .newline → Lines tokens rules → Lines (t :: tokens) rules
  | rule {first tokens rule rules} : IsRule first rule → Lines tokens rules →
      Lines (first ++ tokens) (rule :: rules)

inductive Flags : List Token → Prop
  | last {word closing} : word.kind = .exportWord → closing.kind = .rightBracket →
      Flags [word, closing]
  | more {word comma tokens} : word.kind = .exportWord → comma.kind = .comma → Flags tokens →
      Flags (word :: comma :: tokens)

inductive Header : List Token → String → Bool → Prop
  | plain {hash name} : hash.kind = .hash → name.kind = .identifier →
      Header [hash, name] name.lexeme false
  | flagged {hash name opening tokens} : hash.kind = .hash → name.kind = .identifier →
      opening.kind = .leftBracket → Flags tokens →
      Header (hash :: name :: opening :: tokens) name.lexeme true

def tableSpan (header : Span) (rules : List (Located Rule)) : Span :=
  header.cover ((rules.getLast?.map (·.span)).getD header)

/-- A table, with the tokens that come after it. A header without a line end after it is a table
only at the end of input. -/
inductive IsTable : List Token → List Token → Located Table → Prop
  | bare {header id exported} : Header header id exported →
      IsTable header [] ⟨⟨id, exported, []⟩, extent header⟩
  | lines {header id exported lineEnd tokens rules after} : Header header id exported →
      lineEnd.kind = .newline → Lines tokens rules →
      IsTable (header ++ lineEnd :: tokens) after
        ⟨⟨id, exported, rules⟩, tableSpan (extent header) rules⟩

inductive Tables : List Token → List (Located Table) → Prop
  | nil : Tables [] []
  | cons {first tokens table tables} : IsTable first tokens table → Tables tokens tables →
      Tables (first ++ tokens) (table :: tables)

inductive IsProgram : List Token → Program → Prop
  | mk {lineEnds tokens tables} : (∀ t ∈ lineEnds, t.kind = .newline) → Tables tokens tables →
      tables ≠ [] → IsProgram (lineEnds ++ tokens) ⟨tables⟩

end RandomTables.Grammar
