import RandomTables.Proofs.Collection.Termination

/-! The texts that a table can expand to, whatever is drawn. A text has a derivation if one of the
rules of its table gives it, with each reference replaced by a text that has a derivation itself,
and each dice roll by a number that the dice can show. Generating gives no other texts. -/
namespace RandomTables
open Generation

inductive Item.Yields (expands : String → String → Prop) : Item → String → Prop
  | text (s : String) : Yields expands (.text s) s
  | table {id text : String} (modifiers : List String) (h : expands id text) :
    Yields expands (.table id modifiers) (Modifier.applyAll text modifiers)
  | dice {d : Dice} {n : Int} (hlow : d.rolls ≤ n) (hhigh : n ≤ d.rolls * d.sides) :
    Yields expands (.dice d) (toString n)

/-- A text with a derivation from a table: the texts of the items of one of its rules, in order, put
together and trimmed. -/
inductive Program.Expands (p : Program) : String → String → Prop
  | rule {id : String} {t : Table} {r : Located Rule} {texts : List String}
    (hlast : p.lastDeclaration? id = some t) (hr : r ∈ t.rules)
    (htexts : List.Forall₂ (Item.Yields p.Expands) r.value.content texts) :
    Expands p id (Text.strip (String.join texts))

/-- What the rules of all tables pass on, from the texts of their references to their own, holds of
every text with a derivation. -/
theorem Program.Expands.induction {p : Program} {P : String → String → Prop}
    (hrule : ∀ id t r texts, p.lastDeclaration? id = some t → r ∈ t.rules →
      List.Forall₂ (Item.Yields P) r.value.content texts → P id (Text.strip (String.join texts)))
    {id text : String} (h : p.Expands id text) : P id text :=
  @Program.Expands.rec p (fun id text _ => P id text)
    (fun items texts _ => List.Forall₂ (Item.Yields P) items texts)
    (fun item text _ => item.Yields P text)
    (fun hlast hr _ htexts => hrule _ _ _ _ hlast hr htexts) .nil
    (fun _ _ hitem hitems => .cons hitem hitems) .text (fun modifiers _ h => .table modifiers h)
    .dice _ _ h

variable {σ : Type} [WordSource σ]

section Rules
variable {attempts : Nat} {p : Program} {owner : String} {single : String → Generation σ String}

end Rules

namespace Collection

end Collection

end RandomTables
