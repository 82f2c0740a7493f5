import DualWrite.Text.Basic
import DualWrite.Value.Affinity

/-!
# Tables

A schema lists columns and constraints. The rows of a table stand in the order of their row
numbers; a key column of whole numbers is the row number itself.
-/
namespace DualWrite.Store

structure Column where
  name : String
  affinity : Affinity
  notNull : Bool
  /-- What an insert that leaves the column out puts there. -/
  absent : Value
deriving Repr, DecidableEq

/-- Columns are named by their places. -/
structure Schema where
  table : String
  columns : List Column
  /-- The key column, whose value is the row number. -/
  key? : Option Nat
  /-- Further columns whose values, taken together, occur once. -/
  uniques : List (List Nat)
  /-- Columns whose numbers may not be negative. -/
  nonNegative : List Nat
  /-- A column that has to name a row of another table by the end of a transaction. -/
  refersTo? : Option (Nat × String)
deriving Repr, DecidableEq

namespace Schema

def place? (s : Schema) (name : String) : Option Nat :=
  s.columns.findIdx? fun c => Text.sameName c.name name

def nameAt (s : Schema) (i : Nat) : String := (s.columns[i]?.map (·.name)).getD ""

def names (s : Schema) : List String := s.columns.map (·.name)

end Schema

structure Row where
  number : Int
  values : List Value
deriving Repr, DecidableEq

namespace Row

def value (r : Row) (i : Nat) : Value := r.values.getD i .null

end Row

structure Table where
  schema : Schema
  rows : List Row
  /-- Names of the indices made on the table. -/
  indices : List String
deriving Repr, DecidableEq

namespace Table

/-- Puts a row behind those with smaller row numbers. -/
def insertRow (r : Row) : List Row → List Row
  | [] => [r]
  | x :: xs => if r.number < x.number then r :: x :: xs else x :: insertRow r xs

/-- The least positive number that no row has. -/
def freeNumber (t : Table) : Int :=
  (((List.range (t.rows.length + 1)).map fun k : Nat => (k : Int) + 1).find? fun n =>
    t.rows.all fun r => r.number ≠ n).getD 1

/-- The row number of a row that brings none: one more than the greatest, while there is one. -/
def nextNumber (t : Table) : Int :=
  match t.rows.getLast? with
  | some r => if r.number < maxInt then r.number + 1 else t.freeNumber
  | none => 1

end Table

/-- The tables of a store. -/
structure Contents where
  tables : List Table
deriving Repr, DecidableEq

namespace Contents

def empty : Contents := ⟨[]⟩

def table? (c : Contents) (name : String) : Option Table :=
  c.tables.find? fun t => Text.sameName t.schema.table name

def setTable (c : Contents) (t : Table) : Contents :=
  ⟨c.tables.map fun u => if Text.sameName u.schema.table t.schema.table then t else u⟩

def addTable (c : Contents) (s : Schema) : Contents := ⟨c.tables ++ [⟨s, [], []⟩]⟩

def dropTable (c : Contents) (name : String) : Contents :=
  ⟨c.tables.filter fun t => !Text.sameName t.schema.table name⟩

/-- Some row refers to a row that is not there. -/
def hasOrphan (c : Contents) : Bool :=
  c.tables.any fun t =>
    match t.schema.refersTo? with
    | none => false
    | some (i, parent) =>
      t.rows.any fun r =>
        r.value i ≠ .null
          && !((c.table? parent).any fun p =>
            p.rows.any fun q => (Value.int q.number).equals (r.value i))

end Contents

end DualWrite.Store
