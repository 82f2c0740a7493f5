import DualWrite.Store.Statement

/-!
# Faults of stores

Why a store refuses a statement, and the text of each refusal.
-/
namespace DualWrite.Store

/-- A place in a text that was to be run, counted in octets. -/
structure Place where
  text : String
  offset : Nat
deriving Repr, DecidableEq

inductive Fault where
  | noTable (name : String)
  | noColumn (name : String) (place : Option Place)
  | noColumnNamed (table column : String)
  | tableExists (name : String) (place : Place)
  | malformed (word : String) (place : Place)
  | misuse
  | several
  | returnsRows
  | argumentCount (given needed : Nat)
  | columnType (className : String) (index : Nat) (name : String)
  | columnName (name : String)
  | locked
  | noTransaction (verb : String)
  | unique (table : String) (columns : List String)
  | notNull (table column : String)
  | check (column : String)
  | foreignKey
  | mismatch
deriving Repr, DecidableEq

def Place.message (p : Place) : String := " in " ++ p.text ++ " at offset " ++ toString p.offset

def Fault.message : Fault → String
  | .noTable name => "no such table: " ++ name
  | .noColumn name none => "no such column: " ++ name
  | .noColumn name (some p) => "no such column: " ++ name ++ p.message
  | .noColumnNamed table column => "table " ++ table ++ " has no column named " ++ column
  | .tableExists name p => "table " ++ name ++ " already exists" ++ p.message
  | .malformed word p => "near \"" ++ word ++ "\": syntax error" ++ p.message
  | .misuse => "bad parameter or other API misuse"
  | .several => "Multiple statements provided"
  | .returnsRows => "Execute returned results - did you mean to call query?"
  | .argumentCount given needed =>
    "Wrong number of parameters passed to query. Got " ++ toString given ++ ", needed " ++
    toString needed
  | .columnType className index name =>
    "Invalid column type " ++ className ++ " at index: " ++ toString index ++ ", name: " ++ name
  | .columnName name => "Invalid column name: " ++ name
  | .locked => "database is locked"
  | .noTransaction verb => "cannot " ++ verb ++ " - no transaction is active"
  | .unique table columns =>
    "UNIQUE constraint failed: " ++ ", ".intercalate (columns.map fun c => table ++ "." ++ c)
  | .notNull table column => "NOT NULL constraint failed: " ++ table ++ "." ++ column
  | .check column => "CHECK constraint failed: " ++ column ++ " >= 0"
  | .foreignKey => "FOREIGN KEY constraint failed"
  | .mismatch => "datatype mismatch"

end DualWrite.Store
