import RandomTables.Text.Blank
import RandomTables.Token

namespace RandomTables

inductive Item where
  /-- Text taken as it is, blanks at its ends included. -/
  | text (s : String)
  /-- A reference to a table of the same collection. -/
  | table (id : String) (modifiers : List String)
  /-- A reference to a table of another collection. -/
  | external (publisher collection id : String) (modifiers : List String)
  /-- A sum of dice. -/
  | dice (d : Dice)
  deriving DecidableEq, Repr

structure Located (α : Type) where
  value : α
  span : Span
  deriving DecidableEq

structure Rule where
  weight : Float
  content : List Item
  deriving DecidableEq

structure Table where
  id : String
  exported : Bool
  rules : List (Located Rule)
  deriving DecidableEq

structure Program where
  tables : List (Located Table)
  deriving DecidableEq

def modifierText (modifiers : List String) : String :=
  String.join (modifiers.map ("|" ++ ·))

def qualifiedName (publisher collection id : String) : String :=
  "@" ++ publisher ++ "/" ++ collection ++ "#" ++ id

def Dice.print (d : Dice) : String :=
  (match d.count with
    | some n => toString n
    | none => "") ++ "d" ++ toString d.sides

namespace Item

def braced (s : String) : String :=
  "\x7b" ++ s ++ "\x7d"

def print : Item → String
  | text s => s
  | table id modifiers => braced ("#" ++ id ++ modifierText modifiers)
  | external publisher collection id modifiers =>
    braced (qualifiedName publisher collection id ++ modifierText modifiers)
  | dice d => braced d.print

def isExpression : Item → Bool
  | text _ => false
  | _ => true

def isBlank : Item → Bool
  | text s => s.toList.all Text.isBlank
  | _ => false

end Item

namespace Rule

def contentText (r : Rule) : String :=
  Text.strip (String.join (r.content.map Item.print))

def expressions (r : Rule) : List Item :=
  r.content.filter Item.isExpression

end Rule

def Program.tableIds (p : Program) : List String :=
  p.tables.map (·.value.id)

end RandomTables
