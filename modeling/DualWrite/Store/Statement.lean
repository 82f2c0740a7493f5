import DualWrite.Value.Basic

/-!
# Statements

The statements that a store runs, and the text of each. Names may be quoted; parameters are
question marks, counted from the left.
-/
namespace DualWrite.Store

/-- The name of a table or column as a statement spells it. -/
structure Name where
  text : String
  isQuoted : Bool
deriving Repr, DecidableEq

namespace Name

def bare (s : String) : Name := ⟨s, false⟩

def quoted (s : String) : Name := ⟨s, true⟩

def doubled (cs : List Char) : List Char := cs.flatMap fun c => if c = '"' then ['"', '"'] else [c]

def sql (n : Name) : String :=
  if n.isQuoted then String.ofList ('"' :: doubled n.text.toList ++ ['"']) else n.text

end Name

/-- What an insert does when a constraint stands against it. -/
inductive Conflict where
  | abort
  | rollback
  | ignore
  | replace
deriving Repr, DecidableEq

/-- What an update puts into a column. -/
inductive Assigned where
  | parameter
  | increment (column : Name)
deriving Repr, DecidableEq

inductive Condition where
  | equals (column : Name)
  | above (column : Name)
  | pairAbove (first second : Name)
  | among (column : Name) (count : Nat)
deriving Repr, DecidableEq

inductive Selected where
  | all
  | count
  | columns (names : List Name)
deriving Repr, DecidableEq

inductive Limit where
  | none
  | zero
  | parameter
deriving Repr, DecidableEq

structure Selection where
  selected : Selected
  table : Name
  condition : Option Condition
  order : List Name
  limit : Limit
deriving Repr, DecidableEq

inductive Statement where
  | insert (conflict : Conflict) (table : Name) (columns : List Name)
  | update (table : Name) (sets : List (Name × Assigned)) (whose : Option Name)
  | delete (table : Name) (whose : Option Name)
  | select (selection : Selection)
  | commit
  | rollback
  /-- A text that is no statement, its first word apart. -/
  | malformed (word rest : String)
  | blank
  | several (first second : Statement)
deriving Repr, DecidableEq

/-- A part of a statement's text: words, or the mention of a column. -/
inductive Piece where
  | words (s : String)
  | column (n : Name)
deriving Repr, DecidableEq

def Piece.text : Piece → String
  | .words s => s
  | .column n => n.sql

def textOf (ps : List Piece) : String := ps.foldl (fun s p => s ++ p.text) ""

def commas (ps : List Piece) : List Piece := ps.intersperse (.words ", ")

def marks (n : Nat) : String := ", ".intercalate (List.replicate n "?")

namespace Conflict

def words : Conflict → String
  | .abort => "INSERT INTO "
  | .rollback => "INSERT OR ROLLBACK INTO "
  | .ignore => "INSERT OR IGNORE INTO "
  | .replace => "INSERT OR REPLACE INTO "

end Conflict

namespace Condition

def pieces : Condition → List Piece
  | .equals c => [.column c, .words " = ?"]
  | .above c => [.column c, .words " > ?"]
  | .pairAbove c d => [.words "(", .column c, .words ", ", .column d, .words ") > (?, ?)"]
  | .among c n => [.column c, .words (" IN (" ++ marks n ++ ")")]

def parameters : Condition → Nat
  | .equals _ | .above _ => 1
  | .pairAbove .. => 2
  | .among _ n => n

end Condition

namespace Selection

def pieces (q : Selection) : List Piece :=
  let selected := match q.selected with
    | .all => [.words "*"]
    | .count => [.words "count(*)"]
    | .columns ns => commas (ns.map .column)
  let condition := match q.condition with
    | some c => .words " WHERE " :: c.pieces
    | none => []
  let order := if q.order.isEmpty then [] else .words " ORDER BY " :: commas (q.order.map .column)
  let limit := match q.limit with
    | .none => []
    | .zero => [.words " LIMIT 0"]
    | .parameter => [.words " LIMIT ?"]
  .words "SELECT " :: selected ++ .words (" FROM " ++ q.table.sql) :: condition ++ order ++ limit

def parameters (q : Selection) : Nat :=
  (q.condition.map (·.parameters)).getD 0 + (if q.limit = .parameter then 1 else 0)

end Selection

namespace Assigned

def pieces : Assigned → List Piece
  | .parameter => [.words "?"]
  | .increment c => [.column c, .words " + 1"]

def parameters : Assigned → Nat
  | .parameter => 1
  | .increment _ => 0

end Assigned

namespace Statement

def whosePieces : Option Name → List Piece
  | some c => [.words " WHERE ", .column c, .words " = ?"]
  | none => []

def pieces : Statement → List Piece
  | .insert conflict table columns =>
    .words (conflict.words ++ table.sql ++ " (") :: commas (columns.map .column)
      ++ [.words (") VALUES (" ++ marks columns.length ++ ")")]
  | .update table sets whose =>
    let set := fun (p : Name × Assigned) => .column p.1 :: .words " = " :: p.2.pieces
    .words ("UPDATE " ++ table.sql ++ " SET ")
      :: ((sets.map set).intersperse [.words ", "]).flatten ++ whosePieces whose
  | .delete table whose => .words ("DELETE FROM " ++ table.sql) :: whosePieces whose
  | .select q => q.pieces
  | .commit => [.words "COMMIT"]
  | .rollback => [.words "ROLLBACK"]
  | .malformed word rest => [.words (word ++ rest)]
  | .blank => []
  | .several first second => first.pieces ++ .words "; " :: second.pieces

def text (s : Statement) : String := textOf s.pieces

/-- How many parameters the statement takes. -/
def parameters : Statement → Nat
  | .insert _ _ columns => columns.length
  | .update _ sets whose =>
    sets.foldr (fun s n => s.2.parameters + n) 0 + (if whose.isSome then 1 else 0)
  | .delete _ whose => if whose.isSome then 1 else 0
  | .select q => q.parameters
  | .several first _ => first.parameters
  | .commit | .rollback | .malformed .. | .blank => 0

end Statement

end DualWrite.Store
