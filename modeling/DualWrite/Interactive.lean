import DualWrite.Store.Basic

/-!
# Interactives

The rows that are migrated: counters of one business object. Rows of a store are read by the names
of their columns, whatever other columns stand beside them.
-/
namespace DualWrite

structure Interactive where
  id : Int
  bizId : Int
  biz : String
  readCnt : Int
  likeCnt : Int
  collectCnt : Int
  uTime : Int
  cTime : Int
deriving Repr, DecidableEq

namespace Interactive

def table : String := "interactives"

/-- The column of the time at which a row was last changed. -/
def timeColumn : String := "u_time"

def columns : List String :=
  ["id", "biz_id", "biz", "read_cnt", "like_cnt", "collect_cnt", "u_time", "c_time"]

def values (r : Interactive) : List Value :=
  [.int r.id, .int r.bizId, .text r.biz, .int r.readCnt, .int r.likeCnt, .int r.collectCnt,
   .int r.uTime, .int r.cTime]

/-- Where a column stands among the columns of a result, its own name and its value. -/
def cell (titles : List String) (row : List Value) (column : String) :
    Except Store.Fault (Nat × String × Value) :=
  match titles.findIdx? fun t => Text.sameName t column with
  | some i => .ok (i, titles.getD i column, row.getD i .null)
  | none => .error (.columnName column)

def intAt (titles : List String) (row : List Value) (column : String) : Except Store.Fault Int := do
  match ← cell titles row column with
  | (_, _, .int n) => .ok n
  | (i, title, v) => .error (.columnType v.className i title)

def textAt (titles : List String) (row : List Value) (column : String) :
    Except Store.Fault String := do
  match ← cell titles row column with
  | (_, _, .text s) => .ok s
  | (i, title, v) => .error (.columnType v.className i title)

/-- Reads a row; the first column that does not hold what it should is at fault. -/
def ofRow (titles : List String) (row : List Value) : Except Store.Fault Interactive := do
  return {
    id := ← intAt titles row "id"
    bizId := ← intAt titles row "biz_id"
    biz := ← textAt titles row "biz"
    readCnt := ← intAt titles row "read_cnt"
    likeCnt := ← intAt titles row "like_cnt"
    collectCnt := ← intAt titles row "collect_cnt"
    uTime := ← intAt titles row "u_time"
    cTime := ← intAt titles row "c_time" }

def ofRows (r : Store.Rows) : Except Store.Fault (List Interactive) := r.rows.mapM (ofRow r.columns)

private def integerColumn (name : String) (notNull : Bool) (absent : Value) : Store.Column :=
  ⟨name, .integer, notNull, absent⟩

/-- The table as it is made where it is missing. -/
def schema : Store.Schema :=
  { table := table
    columns := [
      integerColumn "id" false .null,
      integerColumn "biz_id" true .null,
      ⟨"biz", .text, true, .null⟩,
      integerColumn "read_cnt" true (.int 0),
      integerColumn "like_cnt" true (.int 0),
      integerColumn "collect_cnt" true (.int 0),
      integerColumn "u_time" true .null,
      integerColumn "c_time" true .null]
    key? := some 0
    uniques := [[1, 2]]
    nonNegative := []
    refersTo? := none }

/-- Makes the table and its index where they are missing. -/
def script : Store.Script :=
  [⟨.createTable schema true,
    "\nCREATE TABLE IF NOT EXISTS interactives (\n" ++
    "    id INTEGER PRIMARY KEY,\n" ++
    "    biz_id INTEGER NOT NULL,\n" ++
    "    biz TEXT NOT NULL,\n" ++
    "    read_cnt INTEGER NOT NULL DEFAULT 0,\n" ++
    "    like_cnt INTEGER NOT NULL DEFAULT 0,\n" ++
    "    collect_cnt INTEGER NOT NULL DEFAULT 0,\n" ++
    "    u_time INTEGER NOT NULL,\n" ++
    "    c_time INTEGER NOT NULL,\n" ++
    "    UNIQUE (biz_id, biz)\n);", 28⟩,
   ⟨.createIndex "idx_interactives_u_time" table timeColumn,
    "\nCREATE INDEX IF NOT EXISTS idx_interactives_u_time ON interactives (u_time);", 69⟩,
   ⟨.nothing, "\n", 0⟩]

end Interactive

end DualWrite
