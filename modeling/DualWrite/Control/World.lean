import DualWrite.Control.Scheduler
import DualWrite.Repair.Consumer

/-!
# The world in motion

Background work advances by single requests: every unfinished run makes the request of each of its
two scans in turn, every running consumer takes one step. Time stands still while anything can move
and then jumps to the next moment at which a pause ends.
-/
namespace DualWrite

/-- What is to happen when an event is about to be published. -/
inductive Act where
  | fail (message : String)
  | panic (message : String)
  /-- Cancels the validation that is awaited. -/
  | cancel
  /-- Runs a statement on a store first. -/
  | exec (store : Direction) (st : Store.Statement) (args : List Value)
deriving Repr, DecidableEq

/-- Waits for the event of a kind and id, acts once and is gone. -/
structure Tripwire where
  kind : Event.Kind
  id : Int
  act : Act
deriving Repr, DecidableEq

/-- A validation whose end a caller waits for. -/
structure Awaited where
  validation : Validation
  cancelled : Bool
  /-- When it is to be cancelled. -/
  cancelAt : Option Nat
  panicked : Option String

structure World where
  control : ControlPlane
  bus : Bus
  /-- The topic of the events that runs publish. -/
  topic : String
  /-- Milliseconds since the start. -/
  clock : Nat
  /-- Running consumers by number. -/
  consumers : List (Nat × Consumer)
  awaited : Option Awaited
  tripwires : List Tripwire
  /-- Events published by runs since the last look. -/
  events : List Event
  /-- Notices since the last look. -/
  notices : List Notice

/-- How the publication of an event went. -/
inductive Published where
  | done
  | failed (e : Error)
  | panicked (message : String)

namespace World

def report (w : World) (ns : List Notice) : World := { w with notices := w.notices ++ ns }

def store (w : World) (d : Direction) : Store := w.control.pool.store d

def setStore (w : World) (d : Direction) (s : Store) : World :=
  { w with control := { w.control with pool := w.control.pool.setStore d s } }

def source (w : World) (d : Direction) : Source := Source.ofStore (w.store d)

/-- Sends an event to the subscribers. -/
def record (w : World) (e : Event) : World :=
  { w with events := w.events ++ [e], bus := w.bus.publish w.topic e.encode }

def cancelAwaited (w : World) : World :=
  { w with awaited := w.awaited.map fun a => { a with cancelled := true } }

/-- Publishes an event of a run, after what a tripwire makes of it. -/
def publish (w : World) (e : Event) : World × Published :=
  match w.tripwires.find? fun t => t.kind = e.kind && t.id = e.id with
  | none => (w.record e, .done)
  | some t =>
    let w := { w with tripwires := w.tripwires.erase t }
    match t.act with
    | .fail m => (w, .failed (.other m))
    | .panic m => (w, .panicked m)
    | .cancel => (w.cancelAwaited.record e, .done)
    | .exec d st args =>
      let (s, r) := (w.store d).exec none st args
      let w := w.setStore d s
      match r with
      | .ok _ => (w.record e, .done)
      | .error f => (w, .failed (.store f))

/-- What one request came to. -/
structure Moved where
  world : World
  validation : Validation
  panic : Option String
  progress : Bool

/-- Makes the request of one scan. -/
def stepScan (w : World) (v : Validation) (cancelled : Bool) (side : Side) : Moved :=
  let scan := (v.scan side).observe cancelled w.clock
  let v := v.setScan scan side
  match scan.request with
  | .nothing => ⟨w, v, none, false⟩
  | .publish e =>
    match w.publish e with
    | (w, .panicked m) => ⟨w, v, some m, true⟩
    | (w, .done) => ⟨w, v.setScan (scan.onPublish (.ok ())).1 side, none, true⟩
    | (w, .failed err) =>
      let (scan, ns) := scan.onPublish (.error err)
      ⟨w.report ns, v.setScan scan side, none, true⟩
  | r =>
    match Scan.reply v.plan w.source side r with
    | none => ⟨w, v, none, false⟩
    | some reply =>
      let (scan, ns) := scan.receive v.plan w.clock reply
      ⟨w.report ns, v.setScan scan side, none, true⟩

/-- Makes the requests of both scans, unless the first ends the validation. -/
def stepValidation (w : World) (v : Validation) (cancelled : Bool) : Moved :=
  let a := w.stepScan v cancelled .forward
  if a.panic.isSome || a.validation.result?.isSome then a
  else
    let b := a.world.stepScan a.validation cancelled .reverse
    { b with progress := a.progress || b.progress }

def ending (mode : ScanMode) : Except Error Unit → Notice
  | .ok () => .runExited mode
  | .error e => .runFailed mode e

/-- Advances one run. -/
def stepRun (w : World) (id : RunId) : World × Bool :=
  match w.control.run? id with
  | none => (w, false)
  | some r =>
    let set (w : World) (f : Run → Run) : World := { w with control := w.control.mapRun id f }
    match r.state with
    | .finished | .panicked _ => (w, false)
    | .waiting =>
      ((set w fun r => { r with state := .active }).report [r.validation.announcement], true)
    | .active =>
      let m := w.stepValidation r.validation r.cancelled
      let w := set m.world fun r => { r with validation := m.validation }
      match m.panic, m.validation.result? with
      | some text, _ => (set w fun r => { r with state := .panicked text }, true)
      | none, some result =>
        ((set w fun r => { r with state := .finished }).report [ending r.mode result], true)
      | none, none => (w, m.progress)

/-- Advances the validation that is awaited. -/
def stepAwaited (w : World) : World × Bool :=
  match w.awaited with
  | none => (w, false)
  | some a =>
    if a.validation.result?.isSome || a.panicked.isSome then (w, false)
    else
      let m := w.stepValidation a.validation a.cancelled
      ({ m.world with awaited := m.world.awaited.map fun b =>
          { b with validation := m.validation, panicked := m.panic } },
        m.progress || m.validation.result?.isSome)

def setConsumer (w : World) (n : Nat) (c : Consumer) : World :=
  { w with consumers := w.consumers.map fun p => if p.1 = n then (n, c) else p }

/-- Advances one consumer; a cancelled one stops before its next message. -/
def stepConsumer (w : World) (n : Nat) : World × Bool :=
  match w.consumers.lookup n with
  | none => (w, false)
  | some c =>
    match c.handling with
    | .waiting =>
      if c.cancelled then
        ({ w with
            consumers := w.consumers.filter fun p => p.1 ≠ n
            bus := w.bus.unsubscribe c.subscription }.report [.consumed c.topic], true)
      else match c.take w.bus with
        | none => (w, false)
        | some (c, b, ns) => (({ w with bus := b }.setConsumer n c).report ns, true)
    | .reading e d =>
      let (c, ns) := c.onRead e d (w.store d)
      ((w.setConsumer n c).report ns, true)
    | .writing e d row =>
      let (c, s, ns) := c.onWrite e d row (w.store d.other)
      (((w.setStore d.other s).setConsumer n c).report ns, true)

/-- Lets everything move once. -/
def pass (w : World) : World × Bool :=
  let (w, p) := w.stepAwaited
  let runs := (w.control.runs.filter Run.isRunning).map (·.id)
  let (w, p) := runs.foldl (fun (w, p) id => let (w, q) := w.stepRun id; (w, p || q)) (w, p)
  w.consumers.foldl (fun (w, p) c => let (w, q) := w.stepConsumer c.1; (w, p || q)) (w, p)

/-- Lets everything move until nothing can. -/
def settle : Nat → World → World
  | 0, w => w
  | fuel + 1, w =>
    let (w, p) := w.pass
    if p then settle fuel w else w

/-- More steps than anything takes that comes to rest. -/
def enough : Nat := 100000000

def runningWakes (w : World) : List Nat :=
  (w.control.runs.filter Run.isRunning).flatMap fun r => r.validation.wakes

def awaitedWakes (w : World) : List Nat :=
  match w.awaited with
  | some a => if a.validation.result?.isSome then [] else a.validation.wakes ++ a.cancelAt.toList
  | none => []

/-- The next moment at which something happens by itself. -/
def nextWake (w : World) : Option Nat :=
  ((w.awaitedWakes ++ w.runningWakes).filter (w.clock < ·)).min?

/-- Moves the clock; what is to be cancelled by then is. -/
def moveTo (w : World) (t : Nat) : World :=
  { w with
    clock := t
    awaited := w.awaited.map fun a =>
      { a with cancelled := a.cancelled || a.cancelAt.any (· ≤ t) } }

/-- Lets time pass until the caller is content or a moment has come. The caller comes first: what is
due at that very moment happens when the caller waits next. -/
def elapse (content : World → Bool) (deadline : Option Nat) : Nat → World → World
  | 0, w => w
  | fuel + 1, w =>
    if content w then w
    else
      let w := w.settle enough
      if content w then w
      else match w.nextWake, deadline with
        | some t, some d => if t < d then elapse content deadline fuel (w.moveTo t) else w.moveTo d
        | some t, none => elapse content deadline fuel (w.moveTo t)
        | none, some d => w.moveTo d
        | none, none => w

/-- Lets a number of milliseconds pass. -/
def sleep (w : World) (ms : Nat) : World :=
  w.elapse (fun _ => false) (some (w.clock + ms)) enough

/-- Waits for the end of a validation; what is left of it comes along. -/
def validate (w : World) (plan : Plan) (cancelled : Bool) (cancelAfter : Option Nat) :
    World × Option Awaited :=
  let v := Validation.start plan
  let w := { w with awaited := some ⟨v, cancelled, cancelAfter.map (w.clock + ·), none⟩ }
  let w := (w.report [v.announcement]).elapse
    (fun w => w.awaited.all fun a => a.validation.result?.isSome || a.panicked.isSome) none enough
  ({ w with awaited := none }, w.awaited)

/-- Lets everything move until a run has ended, or nothing can. -/
def passUntilEnded (id : RunId) : Nat → World → World
  | 0, w => w
  | fuel + 1, w =>
    if w.control.isRunning (some id) then
      let (w, p) := w.pass
      if p then passUntilEnded id fuel w else w
    else w

/-- Waits until a run has ended; one that is cancelled ends without any time passing. -/
def awaitRun (w : World) (id : RunId) : World :=
  let w := w.passUntilEnded id enough
  w.report (w.control.awaited id)

/-- Stops both runs of the scheduler, one after the other. -/
def shutdown (w : World) : World :=
  let (c, ids, ns) := w.control.takeRuns
  let w := { w with control := c }.report ns
  ids.foldl (fun w id => { w with control := w.control.cancel id }.awaitRun id) w

/-- Sets a consumer to work. -/
def spawn (w : World) (n : Nat) (c : Consumer) : World :=
  { w with consumers := w.consumers ++ [(n, c)] }.report [.consuming c.topic]

/-- Cancels a consumer and waits until it has stopped. -/
def stopConsumer (w : World) (n : Nat) : World :=
  match w.consumers.lookup n with
  | none => w
  | some c =>
    (w.setConsumer n { c with cancelled := true }).elapse
      (fun w => (w.consumers.lookup n).isNone) none enough

/-- Waits at most a millisecond for a message. -/
def receive (w : World) (subscription : Nat) : World × Option Delivery :=
  let there (w : World) := (w.bus.find? subscription).any fun s => !s.queue.isEmpty
  let w := w.elapse there (some (w.clock + 1)) enough
  match w.bus.receive subscription with
  | some (b, d) => ({ w with bus := b }, some d)
  | none => (w, none)

end World

end DualWrite
