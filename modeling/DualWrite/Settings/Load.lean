import DualWrite.Settings.Environment
import DualWrite.Settings.Printer
import DualWrite.Toml.Reader

/-!
# Loading settings

The defaults lie under the document, if there is one, and that under the environment. Settings are
made of the merged layers as a whole: where one of them is missing or of a wrong kind, all of them
are the defaults.
-/
namespace DualWrite.Settings

def Scalar.toTree : Scalar → Tree
  | .text s => .text s
  | .integer n => .integer n

/-- The settings as a layer. -/
def toTree (s : Settings) : Tree :=
  .table (s.sections.map fun (k, es) => (k, .table (es.map fun (k, v) => (k, v.toTree))))

/-- The parts of a section, each read in its own way. -/
def textAt (section' : Tree) (place : Nat) (key : String) : Option String :=
  (section'.member? place key).bind Tree.text?

def integerAt (section' : Tree) (place : Nat) (key : String) (low high : Int) : Option Int :=
  (section'.member? place key).bind (Tree.integer? low high)

/-- A number without sign below `2^bits`. -/
def naturalAt (section' : Tree) (place : Nat) (key : String) (bits : Nat) : Option Nat :=
  (integerAt section' place key 0 (Nat.pow 2 bits - 1)).map Int.toNat

/-- The settings that a tree holds, if it holds all of them. -/
def ofTree? (t : Tree) : Option Settings := do
  let logging ← t.member? 0 "logging"
  let server ← t.member? 1 "server"
  let database ← t.member? 2 "database"
  let migrator ← t.member? 3 "migrator"
  return {
    level := ← textAt logging 0 "migrator"
    host := ← textAt server 0 "host"
    port := UInt16.ofNat (← naturalAt server 1 "port" 16)
    src := ← textAt database 0 "src"
    dst := ← textAt database 1 "dst"
    poolSize := UInt32.ofNat (← naturalAt database 2 "pool_size" 32)
    busyTimeout := UInt64.ofNat (← naturalAt database 3 "busy_timeout_ms" 64)
    pattern := ← textAt migrator 0 "pattern"
    batchSize := Int64.ofInt (← integerAt migrator 1 "batch_size" minInt maxInt)
    topic := ← textAt migrator 2 "topic"
    group := ← textAt migrator 3 "group_id"
    maxRedeliveries := UInt32.ofNat (← naturalAt migrator 4 "max_redeliveries" 32) }

/-- The layer of a document; none at all is an empty one. -/
def documentLayer? : Option String → Option Tree
  | none => some (.table [])
  | some s => Toml.table? s

/-- The three layers, merged. -/
def merged? (document : Option String) (e : Environment) : Option Tree :=
  (documentLayer? document).map fun t => (default.toTree.merge t).merge e.layer

/-- Loads and repairs settings. -/
def load (document : Option String) (e : Environment) : Settings × List Complaint :=
  match (merged? document e).bind ofTree? with
  | some s => s.repair
  | none => (default, [.unreadable])

end DualWrite.Settings
