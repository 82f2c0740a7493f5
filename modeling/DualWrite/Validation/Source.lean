import DualWrite.Notice

/-!
# Cursors and sources

A cursor is the key of the row that a scan has read last. A full scan goes on behind its id, an
incremental one behind its time and id together. What a scan reads of a store is a page of rows
behind a cursor, the ids and times of such a page, one row, and which of some ids are there.
-/
namespace DualWrite

structure Cursor where
  utime : Int
  id : Int
  /-- Some row has been read since the start or the last restart. -/
  advanced : Bool
deriving Repr, DecidableEq

namespace Cursor

/-- Behind nothing, or behind every row of the watermark's time. -/
def start (mode : ScanMode) (watermark : Int) : Cursor :=
  ⟨watermark, match mode with | .full => minInt | .incremental => maxInt, false⟩

def advance (c : Cursor) (utime id : Int) : Cursor :=
  { c with utime := utime, id := id, advanced := true }

/-- Before a new cycle an incremental scan that has read rows steps back behind the time just below
that of the last one, so that rows written later with that time are still met. -/
def restart (c : Cursor) (mode : ScanMode) : Cursor :=
  if mode = .incremental && c.advanced then ⟨max (c.utime - 1) minInt, maxInt, false⟩ else c

end Cursor

structure Source where
  page : ScanMode → Int → Cursor → Except Error (List Interactive)
  /-- Ids with their times. -/
  keys : ScanMode → Int → Cursor → Except Error (List (Int × Int))
  find : Int → Except Error (Option Interactive)
  present : List Int → Except Error (List Int)

namespace Source

open Store

def tableName : Name := .quoted Interactive.table

def idName : Name := .bare "id"

def timeName : Name := .quoted Interactive.timeColumn

/-- The next rows behind a cursor, in the order of the mode. -/
def pageStatement (mode : ScanMode) (selected : Selected) : Statement :=
  .select <| match mode with
    | .full => ⟨selected, tableName, some (.above idName), [idName], .parameter⟩
    | .incremental =>
      ⟨selected, tableName, some (.pairAbove timeName idName), [timeName, idName], .parameter⟩

def pageArguments (mode : ScanMode) (batch : Int) (c : Cursor) : List Value :=
  match mode with
  | .full => [.int c.id, .int batch]
  | .incremental => [.int c.utime, .int c.id, .int batch]

def findStatement : Statement := .select ⟨.all, tableName, some (.equals idName), [], .none⟩

def presentStatement (n : Nat) : Statement :=
  .select ⟨.columns [idName], tableName, some (.among idName n), [], .none⟩

/-- The whole number at a place of a row. -/
def intIn (r : Rows) (row : List Value) (i : Nat) : Except Fault Int :=
  match row.getD i .null with
  | .int n => .ok n
  | v => .error (.columnType v.className i (r.columns.getD i ""))

def keysOf (r : Rows) : Except Fault (List (Int × Int)) :=
  r.rows.mapM fun row => do return (← intIn r row 0, ← intIn r row 1)

def idsOf (r : Rows) : Except Fault (List Int) := r.rows.mapM fun row => intIn r row 0

/-- The source that a store is, as others see it. -/
def ofStore (s : Store) : Source :=
  let ask {α : Type} (st : Statement) (args : List Value) (read : Rows → Except Fault α) :
      Except Error α :=
    match (s.query none st args).2 with
    | .ok rows => (read rows).mapError .store
    | .error f => .error (.store f)
  { page := fun mode batch c =>
      ask (pageStatement mode .all) (pageArguments mode batch c) Interactive.ofRows
    keys := fun mode batch c =>
      ask (pageStatement mode (.columns [idName, timeName])) (pageArguments mode batch c) keysOf
    find := fun id =>
      ask findStatement [.int id] fun r => (r.rows.head?).mapM (Interactive.ofRow r.columns)
    present := fun ids => ask (presentStatement ids.length) (ids.map .int) idsOf }

end Source

end DualWrite
