import RandomTables.Collection.Directory
import RandomTables.Collection.Error
import RandomTables.Collection.Prepared

/-!
Collections: tables that are ready to generate texts. A collection is made of a whole program or
not at all: every declared table must have rules, and every reference must lead to a table of the
collection. Of several declarations of one id the last one counts.
-/
namespace RandomTables

structure Collection where
  ids : List String
  tables : Directory PreparedTable

structure Declarations where
  ids : List String := []
  tables : Directory PreparedTable := []
  repeated : List String := []

namespace Declarations

def add (d : Declarations) (t : Table) : Declarations :=
  if d.tables.contains t.id then
    { d with
      tables := d.tables.assign t.id (.ofTable t)
      repeated := d.repeated ++ [t.id] }
  else
    { d with
      ids := d.ids ++ [t.id]
      tables := d.tables.assign t.id (.ofTable t) }

def addAll (d : Declarations) : List Table → Declarations × Option String
  | [] => (d, none)
  | t :: rest => if t.rules.isEmpty then (d, some t.id) else addAll (d.add t) rest

end Declarations

def Item.fault? (tables : Directory PreparedTable) (owner : String) : Item → Option CollectionError
  | .text _ => none
  | .table id _ => if tables.contains id then none else some (.invalidReference id owner)
  | .external publisher collection id _ =>
    some (.missingDependency publisher collection id owner)
  | .dice _ => none

def Table.fault? (tables : Directory PreparedTable) (t : Table) : Option CollectionError :=
  t.rules.findSome? fun rule => rule.value.content.findSome? (Item.fault? tables t.id)

structure Loading where
  repeated : List String
  outcome : Except CollectionError Collection

namespace Loading

def warning (id : String) : String :=
  "Table '" ++ id ++ "' is declared more than once; the last declaration wins"

def warnings (l : Loading) : List String :=
  l.repeated.map warning

end Loading

namespace Collection

def firstFault? (ids : List String) (tables : Directory PreparedTable) : Option CollectionError :=
  ids.findSome? fun id => (tables.find? id).bind fun t => t.table.fault? tables

def load (p : Program) : Loading :=
  let (d, empty) := Declarations.addAll {} (p.tables.map (·.value))
  match empty with
  | some id => ⟨d.repeated, .error (.emptyTable id)⟩
  | none =>
    match firstFault? d.ids d.tables with
    | some error => ⟨d.repeated, .error error⟩
    | none => ⟨d.repeated, .ok ⟨d.ids, d.tables⟩⟩

def ofSource (source : String) : Except ParseFailure Loading :=
  match Program.parse source with
  | .ok p => .ok (load p)
  | .error (.reported error) => .ok ⟨[], .error (.unreadable error)⟩
  | .error failure => .error failure

def hasTable (c : Collection) (id : String) : Bool :=
  c.tables.contains id

def size (c : Collection) : Nat :=
  c.tables.length

def table (c : Collection) (id : String) : Except CollectionError PreparedTable :=
  match c.tables.find? id with
  | some t => .ok t
  | none => .error (.tableNotFound id)

def exportedIds (c : Collection) : List String :=
  c.ids.filter fun id => (c.tables.find? id).any (·.table.exported)

/-- Puts a table in by id, unchecked. The list of declared ids stays as it is. -/
def inject (c : Collection) (t : Table) : Collection :=
  { c with tables := c.tables.assign t.id (.ofTable t) }

end Collection

end RandomTables
