import DualWrite.Notice

/-!
# Fixers

A fixer makes the target row of an id what the base row is: it overwrites it, or deletes it where
the base has none. It takes the columns of the base table as they were when it was made.
-/
namespace DualWrite

structure Fixer where
  base : Direction
  target : Direction
  columns : List String
deriving Repr, DecidableEq

namespace Fixer

open Store

/-- A fixer for a base table that has an id column; `s` is the base. -/
def make (base target : Direction) (s : Store) : Except Error Fixer :=
  match s.columnNames Interactive.table with
  | .error f => .error (.store f)
  | .ok columns =>
    if "id" ∈ columns then .ok ⟨base, target, columns⟩
    else .error (.other ("Table '" ++ Interactive.table ++ "' has no id column"))

def names (f : Fixer) : List Name := f.columns.map .quoted

def tableName : Name := .quoted Interactive.table

def selectStatement (f : Fixer) : Statement :=
  .select ⟨.columns f.names, tableName, some (.equals (.bare "id")), [], .none⟩

def upsertStatement (f : Fixer) : Statement := .insert .replace tableName f.names

def deleteStatement : Statement := .delete tableName (some (.bare "id"))

/-- The base row of an id. -/
def read (f : Fixer) (base : Store) (id : Int) : Except Error (Option (List Value)) :=
  match (base.query none f.selectStatement [.int id]).2 with
  | .error fault => .error (.store fault)
  | .ok r => .ok r.rows.head?

/-- Writes what was read into the target. -/
def write (f : Fixer) (target : Store) (id : Int) (row : Option (List Value)) :
    Store × Except Error Unit :=
  let (s, r) := match row with
    | some values => target.exec none f.upsertStatement values
    | none => target.exec none deleteStatement [.int id]
  (s, (r.mapError .store).map fun _ => ())

/-- Reading and writing at one go. -/
def fix (f : Fixer) (base target : Store) (id : Int) : Store × Except Error Unit :=
  match f.read base id with
  | .error e => (target, .error e)
  | .ok row => f.write target id row

end Fixer

end DualWrite
