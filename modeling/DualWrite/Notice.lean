import DualWrite.Error
import DualWrite.Event.Basic
import DualWrite.Interactive
import DualWrite.Text.Utf8

/-!
# Notices

What the program reports to its operators beside its answers: one value per line of the log.
-/
namespace DualWrite

inductive Level where
  | error
  | warn
  | info
deriving Repr, DecidableEq

def Level.name : Level → String
  | .error => "ERROR"
  | .warn => "WARN"
  | .info => "INFO"

/-- Which rows a scan goes through, and in which order. -/
inductive ScanMode where
  /-- All rows, by id. -/
  | full
  /-- Rows changed after some time, by time and id. -/
  | incremental
deriving Repr, DecidableEq

def ScanMode.title : ScanMode → String
  | .full => "Full"
  | .incremental => "Incremental"

def ScanMode.name : ScanMode → String
  | .full => "full"
  | .incremental => "incremental"

/-- The two scans of a validation: base against target, and target against base. -/
inductive Side where
  | forward
  | reverse
deriving Repr, DecidableEq

inductive Notice where
  | rollbackFailed (store : String) (fault : Store.Fault)
  | secondaryWriteFailed (store : String) (fault : Store.Fault) (sql : String)
  | secondaryBeginFailed (store : String) (fault : Store.Fault)
  | transactionWriteFailed (store : String) (fault : Store.Fault) (sql : String)
  | secondaryCommitFailed (store : String) (fault : Store.Fault)
  | secondaryRollbackFailed (store : String) (fault : Store.Fault)
  | validating (mode : ScanMode) (direction : Direction) (base target : String)
  | pageFailed (side : Side) (after : Int) (store : String) (attempt : Nat) (error : Error)
  | lookupFailed (id : Int) (store : String) (error : Error)
  | presenceFailed (store : String) (error : Error)
  | publishFailed (event : Event) (error : Error)
  | fixFailed (event : Event) (error : Error)
  | consuming (topic : String)
  | consumed (topic : String)
  | messageFailed (topic : String) (attempt : Nat) (error : Error)
  | deadLetter (attempts : Nat) (payload : List UInt8)
  | patternSwitched (pattern : Pattern)
  | runReplaced (mode : ScanMode)
  | runStarted (mode : ScanMode) (direction : Direction)
  | runStopped (mode : ScanMode)
  | runExited (mode : ScanMode)
  | runFailed (mode : ScanMode) (error : Error)
  | runPanicked (message : String)
  | shutdownPoisoned
  | callFailed (action : String) (error : Error)
  | statusFailed (error : Error)
deriving Repr, DecidableEq

namespace Notice

def level : Notice → Level
  | .rollbackFailed .. | .secondaryWriteFailed .. | .secondaryBeginFailed ..
  | .transactionWriteFailed .. | .secondaryCommitFailed .. | .secondaryRollbackFailed ..
  | .messageFailed .. | .deadLetter .. => .warn
  | .validating .. | .consuming _ | .consumed _ | .patternSwitched _ | .runReplaced _
  | .runStarted .. | .runStopped _ | .runExited _ => .info
  | .pageFailed .. | .lookupFailed .. | .presenceFailed .. | .publishFailed .. | .fixFailed ..
  | .runFailed .. | .runPanicked _ | .shutdownPoisoned | .callFailed .. | .statusFailed _ => .error

private def table : String := Interactive.table

def text : Notice → String
  | .rollbackFailed store f =>
    "Failed to roll back abandoned transaction on store '" ++ store ++ "': " ++ f.message
  | .secondaryWriteFailed store f sql =>
    "Dual write to secondary store '" ++ store ++ "' failed: " ++ (Error.store f).message
      ++ " (sql: " ++ sql ++ ")"
  | .secondaryBeginFailed store f =>
    "Failed to open secondary transaction on store '" ++ store ++ "': " ++ (Error.store f).message
  | .transactionWriteFailed store f sql =>
    "Transactional write to secondary store '" ++ store ++ "' failed: " ++ (Error.store f).message
      ++ " (sql: " ++ sql ++ ")"
  | .secondaryCommitFailed store f =>
    "Failed to commit secondary transaction on store '" ++ store ++ "': " ++ (Error.store f).message
  | .secondaryRollbackFailed store f =>
    "Failed to roll back secondary transaction on store '" ++ store ++ "': " ++
    (Error.store f).message
  | .validating mode direction base target =>
    "Validating " ++ table ++ " (" ++ mode.title ++ ", base " ++ direction.name ++
    ") from '" ++ base
      ++ "' against '" ++ target ++ "'"
  | .pageFailed side after store attempt e =>
    let what := match side with | .forward => " page after id " | .reverse => " ids after id "
    "Failed to read " ++ table ++ what ++ toString after ++ " from '" ++ store ++ "' (attempt "
      ++ toString attempt ++ "): " ++ e.message
  | .lookupFailed id store e =>
    "Failed to look up " ++ table ++ " id " ++ toString id ++ " in '" ++ store ++ "': " ++ e.message
  | .presenceFailed store e =>
    "Failed to look up " ++ table ++ " ids in '" ++ store ++ "': " ++ e.message
  | .publishFailed event e =>
    "Failed to publish " ++ event.kind.title ++ " event for " ++ table ++ " id " ++
    toString event.id
      ++ ": " ++ e.message
  | .fixFailed event e =>
    "Failed to fix " ++ table ++ " id " ++ toString event.id ++ " (" ++
    event.kind.title ++ ", base "
      ++ event.direction ++ "): " ++ e.message
  | .consuming topic => "Consuming inconsistency events from '" ++ topic ++ "'"
  | .consumed topic => "Stopped consuming from '" ++ topic ++ "'"
  | .messageFailed topic attempt e =>
    "Failed to process message from '" ++ topic ++ "' (attempt " ++ toString attempt ++
    "): " ++ e.message
  | .deadLetter attempts payload =>
    "Dropping message after " ++ toString attempts ++ " delivery attempts: "
      ++ String.ofList (Text.Utf8.lenient payload)
  | .patternSwitched p => "Dual-write pattern switched to " ++ p.name
  | .runReplaced mode => "Cancelling previous " ++ mode.name ++ " validation run"
  | .runStarted mode direction =>
    "Started " ++ mode.name ++ " validation of " ++ table ++ " (base " ++ direction.name ++ ")"
  | .runStopped mode => "Stop requested for " ++ mode.name ++ " validation run"
  | .runExited mode => mode.name ++ " validation of " ++ table ++ " exited"
  | .runFailed mode e => mode.name ++ " validation of " ++ table ++ " failed: " ++ e.message
  | .runPanicked message =>
    "Validation run ended abnormally: task N panicked with message " ++ Text.quoted message
  | .shutdownPoisoned => "Cannot stop validation runs: scheduler lock was poisoned"
  | .callFailed action e => "Failed to " ++ action ++ ": " ++ e.message
  | .statusFailed e => "Failed to read scheduler status: " ++ e.message

def line (n : Notice) : String := n.level.name ++ " " ++ n.text

end Notice

end DualWrite
