import DualWrite.Interactive

/-!
# Statements and schemas by name

The statements and table definitions that a session can ask for.
-/
namespace DualWrite.Session

open Store

def table : Name := .bare Interactive.table

def id : Name := .bare "id"

def insertWith (c : Conflict) : Statement := .insert c table (Interactive.columns.map .bare)

def insert : Statement := insertWith .abort

def set (columns : List String) : Statement :=
  .update table (columns.map fun c => (.bare c, .parameter)) (some id)

def selectAll (condition : Option Condition) (order : List Name) : Statement :=
  .select ⟨.all, table, condition, order, .none⟩

def statement? (name : String) : Option Statement :=
  match name with
  | "insert" => some insert
  | "insert_or_rollback" => some (insertWith .rollback)
  | "insert_or_ignore" => some (insertWith .ignore)
  | "insert_or_replace" => some (insertWith .replace)
  | "insert_default" =>
    some (.insert .abort table (["id", "biz_id", "biz", "u_time", "c_time"].map .bare))
  | "update" => some (set ["read_cnt", "u_time"])
  | "touch_all" =>
    some (.update table [(.bare "read_cnt", .increment (.bare "read_cnt")),
      (.bare "u_time", .parameter)] none)
  | "set_id" => some (set ["id"])
  | "set_key" => some (set ["biz_id", "biz"])
  | "set_note" => some (set ["note"])
  | "delete" => some (.delete table (some id))
  | "delete_all" => some (.delete table none)
  | "parent" => some (.insert .abort (.bare "parent") [id])
  | "child" => some (.insert .abort (.bare "child") [id, .bare "parent_id"])
  | "raw_commit" => some .commit
  | "raw_rollback" => some .rollback
  | "missing" => some (.insert .abort (.bare "nope") [id])
  | "syntax" => some (.malformed "INSRT" " INTO interactives")
  | "empty" => some .blank
  | "multi" => some (.several (.delete table none) (.delete table none))
  | "all" => some (selectAll none [id])
  | "by_id" => some (selectAll (some (.equals id)) [])
  | "count" => some (.select ⟨.count, table, none, [], .none⟩)
  | "after" =>
    let time : Name := .bare Interactive.timeColumn
    some (.select ⟨.columns [id, time], table, some (.above time), [time, id], .parameter⟩)
  | _ => none

/-- A column of whole numbers that may not be empty. -/
def integer (name : String) : Column := ⟨name, .integer, true, .null⟩

def text (name : String) : Column := ⟨name, .text, true, .null⟩

/-- A column that is the row number. -/
def key (name : String) : Column := ⟨name, .integer, false, .null⟩

/-- A column that takes anything. -/
def loose (name : String) : Column := ⟨name, .none, false, .null⟩

def counters : List Column := ["read_cnt", "like_cnt", "collect_cnt"].map integer

def schema (columns : List Column) (key? : Option Nat) : Schema :=
  ⟨Interactive.table, columns, key?, [], [], none⟩

/-- The definition of one table, whose name stands behind the words that begin it. -/
def create (s : Schema) (text : String) (offset : Nat) : Definition :=
  ⟨.createTable s false, text, offset⟩

def columnText (s : Schema) (describe : Nat → Column → String) : String :=
  ", ".intercalate ((List.range s.columns.length).zipWith describe s.columns)

/-- A table whose columns are described one by one. -/
def plain (s : Schema) (describe : Nat → Column → String) : Script :=
  [create s ("CREATE TABLE " ++ s.table ++ " (" ++ columnText s describe ++ ")") 13]

def typed (s : Schema) (i : Nat) (c : Column) : String :=
  let type := match c.affinity with | .integer => " INTEGER" | .text => " TEXT" | .none => ""
  let rest := if s.key? = some i then " PRIMARY KEY" else if c.notNull then " NOT NULL" else ""
  let absent := match c.absent with | .int n => " DEFAULT " ++ toString n | _ => ""
  let check := if i ∈ s.nonNegative then " CHECK (" ++ c.name ++ " >= 0)" else ""
  c.name ++ type ++ rest ++ absent ++ check

def looseSchema : Schema := schema (Interactive.columns.map loose) none

def noIdSchema : Schema :=
  schema [key "num", ⟨"biz_id", .integer, false, .null⟩, ⟨"biz", .text, false, .null⟩,
    ⟨"u_time", .integer, false, .null⟩] (some 0)

def standardLike (first : String) (tail : List Column) : List Column :=
  [key first, integer "biz_id", text "biz"] ++ counters ++ tail

def upperIdSchema : Schema :=
  schema (standardLike "ID" [integer "u_time", integer "c_time"]) (some 0)

def noUtimeSchema : Schema := schema (standardLike "id" [integer "c_time"]) (some 0)

def extraSchema : Schema :=
  schema (Interactive.schema.columns ++ [⟨"note", .text, false, .null⟩]) (some 0)

def shuffledSchema : Schema :=
  schema [integer "c_time", integer "u_time", text "biz", integer "biz_id", integer "collect_cnt",
    integer "like_cnt", integer "read_cnt", key "id"] (some 7)

def checkSchema : Schema :=
  { schema (standardLike "id" [integer "u_time", integer "c_time"])
    (some 0) with nonNegative := [3] }

def parentSchema : Schema := ⟨"parent", [key "id"], some 0, [], [], none⟩

def childSchema : Schema :=
  ⟨"child", [key "id", integer "parent_id"], some 0, [], [], some (1, "parent")⟩

def quotedSchema : Schema :=
  ⟨"we\"ird", [key "id", ⟨"a b", .text, false, .null⟩, ⟨"select", .integer, false, .null⟩],
    some 0, [], [], none⟩

def script? (name : String) : Option Script :=
  match name with
  | "standard" => some Interactive.script
  | "none" => some []
  | "loose" => some (plain looseSchema (typed looseSchema))
  | "no_id" => some (plain noIdSchema (typed noIdSchema))
  | "upper_id" => some (plain upperIdSchema (typed upperIdSchema))
  | "no_utime" => some (plain noUtimeSchema (typed noUtimeSchema))
  | "extra" => some (plain extraSchema (typed extraSchema))
  | "shuffled" => some (plain shuffledSchema (typed shuffledSchema))
  | "check" => some (plain checkSchema (typed checkSchema))
  | "fk" =>
    some [
      ⟨.nothing, "PRAGMA foreign_keys = ON;", 0⟩,
      create parentSchema " CREATE TABLE parent (id INTEGER PRIMARY KEY);" 14,
      create childSchema
        (" CREATE TABLE child (id INTEGER PRIMARY KEY, parent_id INTEGER NOT NULL "
          ++ "REFERENCES parent (id) DEFERRABLE INITIALLY DEFERRED)") 14]
  | "quoted" =>
    some [create quotedSchema
      "CREATE TABLE \"we\"\"ird\" (id INTEGER PRIMARY KEY, \"a b\" TEXT, \"select\" INTEGER)" 13]
  | "drop" => some [⟨.dropTable Interactive.table, "DROP TABLE interactives", 0⟩]
  | "bad" => some [⟨.malformed "TABL", "CREATE TABL oops (id)", 7⟩]
  | _ => none

end DualWrite.Session
