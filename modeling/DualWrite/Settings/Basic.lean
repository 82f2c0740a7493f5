import DualWrite.Pattern.Basic

/-!
# Settings

What the program is told before it starts. `repair` replaces each setting that is out of its range
by its default, and says so; it leaves every other setting as it is, but for the spelling of the log
level and of the pattern.
-/
namespace DualWrite

structure Settings where
  /-- The level of the log. -/
  level : String
  host : String
  port : UInt16
  /-- Where the two stores are. -/
  src : String
  dst : String
  /-- Connections to each store. -/
  poolSize : UInt32
  /-- How long a writer waits for another one, in milliseconds. -/
  busyTimeout : UInt64
  pattern : String
  /-- Rows in a page of a validation. -/
  batchSize : Int64
  topic : String
  group : String
  maxRedeliveries : UInt32
deriving Repr, DecidableEq

namespace Settings

def default : Settings where
  level := "info"
  host := "127.0.0.1"
  port := 8081
  src := "src.db"
  dst := "dst.db"
  poolSize := 8
  busyTimeout := 5000
  pattern := Pattern.srcOnly.name
  batchSize := 100
  topic := "inconsistent_interactive"
  group := "migrator"
  maxRedeliveries := 3

def levels : List String := ["error", "warn", "info", "debug", "trace"]

/-- What is said of settings that cannot be used. -/
inductive Complaint where
  /-- No settings can be made of the layers. -/
  | unreadable
  | badLevel (given : String)
  | noConnections
  | badPattern (given : String)
  | badBatch (given : Int64)
deriving Repr, DecidableEq

def Complaint.text : Complaint → String
  | .unreadable => "Could not load configuration"
  | .badLevel s =>
    "Config error: migrator log level of '" ++ s ++ "' is invalid - using default of '" ++
    default.level ++ "'"
  | .noConnections =>
    "Config error: pool_size must be positive - using default of " ++
    toString default.poolSize.toNat
  | .badPattern s =>
    "Config error: pattern of '" ++ s ++ "' is invalid - using default of '" ++
    default.pattern ++ "'"
  | .badBatch n =>
    "Config error: batch_size of " ++ toString n.toInt ++ " is invalid - using default of "
      ++ toString default.batchSize.toInt

def repairLevel (s : String) : String × List Complaint :=
  let t := Text.lower (Text.trim s)
  if t ∈ levels then (t, []) else (default.level, [.badLevel s])

def repairPoolSize (n : UInt32) : UInt32 × List Complaint :=
  if n = 0 then (default.poolSize, [.noConnections]) else (n, [])

def repairPattern (s : String) : String × List Complaint :=
  match Pattern.ofText? s with
  | some p => (p.name, [])
  | none => (default.pattern, [.badPattern s])

def repairBatchSize (n : Int64) : Int64 × List Complaint :=
  if n ≤ 0 then (default.batchSize, [.badBatch n]) else (n, [])

def repair (s : Settings) : Settings × List Complaint :=
  let (level, a) := repairLevel s.level
  let (poolSize, b) := repairPoolSize s.poolSize
  let (pattern, c) := repairPattern s.pattern
  let (batchSize, d) := repairBatchSize s.batchSize
  ({ s with level, poolSize, pattern, batchSize }, a ++ b ++ c ++ d)

/-- The pattern that is meant; settings that were repaired name one. -/
def startPattern (s : Settings) : Pattern := (Pattern.ofText? s.pattern).getD .srcOnly

/-- What the log shows: warnings, and of the program itself what its level admits. -/
def logFilter (s : Settings) : String := "warn, migrator=" ++ s.level

end Settings

end DualWrite
