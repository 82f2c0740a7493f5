import DualWrite.Pool.Basic
import DualWrite.Validation.Scan

/-!
# The scheduler

The control plane holds the pool, the scheduler's own state and every run that was started. At most
one run of each mode is in the scheduler's slots; a run that leaves its slot is cancelled, and goes
on by itself until it notices. A start that panics poisons the scheduler: every later call is
refused.
-/
namespace DualWrite

abbrev RunId := Nat

inductive RunState where
  /-- Started, and not yet looked at. -/
  | waiting
  | active
  | finished
  | panicked (message : String)
deriving Repr, DecidableEq

/-- One validation that works in the background. -/
structure Run where
  id : RunId
  mode : ScanMode
  validation : Validation
  cancelled : Bool
  state : RunState

namespace Run

def isRunning (r : Run) : Bool :=
  match r.state with
  | .waiting | .active => true
  | .finished | .panicked _ => false

end Run

structure Scheduler where
  pattern : Pattern
  full : Option RunId
  incremental : Option RunId
  poisoned : Bool
  /-- Rows in a page of the runs that are started. -/
  batch : Int
deriving Repr, DecidableEq

namespace Scheduler

def slot (s : Scheduler) : ScanMode → Option RunId
  | .full => s.full
  | .incremental => s.incremental

def setSlot (s : Scheduler) (r : Option RunId) : ScanMode → Scheduler
  | .full => { s with full := r }
  | .incremental => { s with incremental := r }

end Scheduler

structure ControlPlane where
  pool : Pool Store
  scheduler : Scheduler
  /-- Every run ever started, oldest first. -/
  runs : List Run
  nextRun : RunId

structure Status where
  pattern : Pattern
  fullRunning : Bool
  incrementalRunning : Bool
deriving Repr, DecidableEq

namespace ControlPlane

def make (p : Pool Store) (batch : Int) : Except Error ControlPlane :=
  match p.pattern with
  | .error e => .error e
  | .ok q => .ok ⟨p, ⟨q, none, none, false, batch⟩, [], 0⟩

def run? (c : ControlPlane) (id : RunId) : Option Run := c.runs.find? (·.id = id)

def mapRun (c : ControlPlane) (id : RunId) (f : Run → Run) : ControlPlane :=
  { c with runs := c.runs.map fun r => if r.id = id then f r else r }

def cancel (c : ControlPlane) (id : RunId) : ControlPlane :=
  c.mapRun id fun r => { r with cancelled := true }

/-- Runs a call under the scheduler's lock. -/
def locked {α : Type} (c : ControlPlane) (f : Outcome ControlPlane α) : Outcome ControlPlane α :=
  if c.scheduler.poisoned then ⟨c, .error .poisoned, []⟩ else f

/-- Takes a run out of its slot and cancels it, reporting that in words. -/
def vacate (c : ControlPlane) (mode : ScanMode) (notice : Notice) : ControlPlane × List Notice :=
  match c.scheduler.slot mode with
  | none => (c, [])
  | some id => ({ c with scheduler := c.scheduler.setSlot none mode }.cancel id, [notice])

/-- What a run that is started now is to do; its base follows the pattern and stays. -/
def planOf (c : ControlPlane) (mode : ScanMode) (watermark : Int) (interval : Nat) : Plan :=
  let base := c.scheduler.pattern.base
  Plan.withBatch ⟨base, base, mode, watermark, 1, interval⟩ c.scheduler.batch

/-- Puts a new run into the slot of its mode; the one before is cancelled and not waited for. -/
def launch (c : ControlPlane) (plan : Plan) : ControlPlane × List Notice :=
  let (c, notices) := c.vacate plan.mode (.runReplaced plan.mode)
  let run : Run := ⟨c.nextRun, plan.mode, .start plan, false, .waiting⟩
  ({ c with
      scheduler := c.scheduler.setSlot (some run.id) plan.mode
      runs := c.runs ++ [run]
      nextRun := c.nextRun + 1 },
    notices ++ [.runStarted plan.mode plan.base])

def switchPattern (c : ControlPlane) (p : Pattern) : Outcome ControlPlane Unit :=
  c.locked ⟨{ c with scheduler := { c.scheduler with pattern := p }, pool := c.pool.setPattern p },
    .ok (), [.patternSwitched p]⟩

def pattern (c : ControlPlane) : Outcome ControlPlane Pattern :=
  c.locked ⟨c, .ok c.scheduler.pattern, []⟩

def startFull (c : ControlPlane) : Outcome ControlPlane Unit :=
  let (c', notices) := c.launch (c.planOf .full 0 0)
  c.locked ⟨c', .ok (), notices⟩

/-- With a positive interval the run polls until it is stopped. -/
def startIncremental (c : ControlPlane) (utime interval : Int) : Outcome ControlPlane Unit :=
  let (c', notices) := c.launch (c.planOf .incremental utime interval.toNat)
  c.locked ⟨c', .ok (), notices⟩

def stop (c : ControlPlane) (mode : ScanMode) : Outcome ControlPlane Unit :=
  let (c', notices) := c.vacate mode (.runStopped mode)
  c.locked ⟨c', .ok (), notices⟩

def isRunning (c : ControlPlane) (id : Option RunId) : Bool :=
  (id.bind c.run?).any Run.isRunning

def status (c : ControlPlane) : Outcome ControlPlane Status :=
  c.locked ⟨c, .ok ⟨c.scheduler.pattern, c.isRunning c.scheduler.full,
    c.isRunning c.scheduler.incremental⟩, []⟩

/-- A start of a run that panics on the way: the run before is gone, and so is the lock. Answers
whether it came to that. -/
def poison (c : ControlPlane) (mode : ScanMode) : ControlPlane × Bool × List Notice :=
  if c.scheduler.poisoned then (c, false, [])
  else
    let (c, notices) := c.vacate mode (.runReplaced mode)
    ({ c with scheduler := { c.scheduler with poisoned := true } }, true, notices)

/-- The first part of a shutdown: both slots are emptied under the lock. The runs taken out are then
cancelled and awaited one after the other. -/
def takeRuns (c : ControlPlane) : ControlPlane × List RunId × List Notice :=
  if c.scheduler.poisoned then (c, [], [.shutdownPoisoned])
  else
    ({ c with scheduler := { c.scheduler with full := none, incremental := none } },
      c.scheduler.full.toList ++ c.scheduler.incremental.toList, [])

/-- What is reported of a run that was awaited. -/
def awaited (c : ControlPlane) (id : RunId) : List Notice :=
  match c.run? id with
  | some ⟨_, _, _, _, .panicked message⟩ => [.runPanicked message]
  | _ => []

/-- A new scheduler over the same pool; the runs of the old one go on. -/
def renew (c : ControlPlane) (batch : Int) : Except Error ControlPlane :=
  match c.pool.pattern with
  | .error e => .error e
  | .ok q => .ok { c with scheduler := ⟨q, none, none, false, batch⟩ }

end ControlPlane

end DualWrite
