import DualWrite.Control.World
import DualWrite.Http.Control
import DualWrite.Session.Vocabulary

/-!
# Sessions

A session is a world with the things that its user has given names to: transactions, fixers,
subscriptions, deliveries and consumers. Making a thing under a name in use drops the old one after
the new one is made.
-/
namespace DualWrite

namespace Session

/-- A transaction under a name: one of the pool, or of a single store. -/
inductive Handle where
  | pool (t : Pool.Transaction)
  | store (d : Direction) (t : Ticket)
deriving Repr, DecidableEq

end Session

structure Session where
  world : World
  transactions : List (String × Session.Handle)
  fixers : List (String × Fixer)
  subscriptions : List (String × Nat)
  deliveries : List (String × Delivery)
  /-- Consumers that do not run yet. -/
  consumers : List (String × Consumer)
  /-- Running consumers by their numbers. -/
  running : List (String × Nat)
  nextConsumer : Nat

namespace Session

/-- Takes a name off a list of named things. -/
def without {α : Type} (name : String) (xs : List (String × α)) : List (String × α) :=
  xs.filter fun p => p.1 ≠ name

def withName {α : Type} (name : String) (a : α) (xs : List (String × α)) : List (String × α) :=
  (name, a) :: without name xs

/-- How a session begins. -/
structure Setup where
  pattern : Pattern
  batch : Int
  redeliveries : Nat
  connections : Nat
  srcScript : Store.Script
  dstScript : Store.Script
  srcRows : List (List Value)
  dstRows : List (List Value)

/-- A store with a schema and rows. -/
def seeded (name : String) (connections : Nat) (script : Store.Script)
    (rows : List (List Value)) : Store :=
  rows.foldl (fun s r => (s.exec none insert r).1) ((Store.fresh name connections).define script).1

def start (s : Setup) : Session :=
  let pool : Pool Store :=
    ⟨seeded "src" s.connections s.srcScript s.srcRows,
      seeded "dst" s.connections s.dstScript s.dstRows, s.pattern.code⟩
  { world :=
      { control := ⟨pool, ⟨s.pattern, none, none, false, s.batch⟩, [], 0⟩
        bus := .empty s.redeliveries
        topic := "inconsistent_interactive"
        clock := 0
        consumers := []
        awaited := none
        tripwires := []
        events := []
        notices := [] }
    transactions := [], fixers := [], subscriptions := [], deliveries := [], consumers := [],
    running := [], nextConsumer := 0 }

abbrev Answer (α : Type) := Session × Except Error α

def pool (s : Session) : Pool Store := s.world.control.pool

def setPool (s : Session) (p : Pool Store) : Session :=
  { s with world := { s.world with control := { s.world.control with pool := p } } }

def report (s : Session) (ns : List Notice) : Session := { s with world := s.world.report ns }

/-- Runs an operation of the pool. -/
def onPool {α : Type} (s : Session) (o : Outcome (Pool Store) α) : Answer α :=
  ((s.setPool o.after).report o.notices, o.result)

/-- Runs an operation of one store. -/
def onStore {α : Type} (s : Session) (d : Direction)
    (f : Store → Store × Except Store.Fault α) : Answer α :=
  let (st, r) := f (s.world.store d)
  ({ s with world := s.world.setStore d st }, r.mapError .store)

/-- Runs an operation of the control plane. -/
def onControl {α : Type} (s : Session) (o : Outcome ControlPlane α) : Answer α :=
  ({ s with world := { s.world with control := o.after } }.report o.notices, o.result)

def define (s : Session) (d : Direction) (script : Store.Script) : Answer Unit :=
  s.onStore d fun st => st.define script

def columns (s : Session) (d : Direction) (table : String) : Answer (List String) :=
  s.onStore d fun st => (st, st.columnNames table)

def exec (s : Session) (d : Direction) (st : Store.Statement) (args : List Value) : Answer Nat :=
  s.onStore d fun x => x.exec none st args

def query (s : Session) (d : Direction) (st : Store.Statement) (args : List Value) :
    Answer Store.Rows :=
  s.onStore d fun x => x.query none st args

/-- The ids `from'`, `from' + by'` and so on up to `to'`. -/
def idsFrom (from' to' by' : Int) : List Int :=
  if by' ≤ 0 ∨ to' < from' then []
  else (List.range ((to' - from') / by' + 1).toNat).map fun k : Nat => from' + (k : Int) * by'

def fillRow (utime : Option Int) (id : Int) : List Value :=
  [.int id, .int id, .text "b", .int (id.tmod 7), .int 0, .int 0, .int (utime.getD id), .int 1]

def insertAll (t : Ticket) (utime : Option Int) : Store → List Int → Store × Except Store.Fault Unit
  | s, [] => (s, .ok ())
  | s, id :: ids =>
    match s.exec (some t) insert (fillRow utime id) with
    | (s, .ok _) => insertAll t utime s ids
    | (s, .error f) => (s, .error f)

/-- Inserts rows for many ids in one transaction. -/
def fill (s : Session) (d : Direction) (ids : List Int) (utime : Option Int) : Answer Nat :=
  s.onStore d fun st =>
    match st.begin with
    | (st, .error f) => (st, .error f)
    | (st, .ok t) =>
      match insertAll t utime st ids with
      | (st, .error f) => ((st.release t).1, .error f)
      | (st, .ok ()) =>
        let (st, e) := st.commit t
        (st, e.result.map fun () => ids.length)

/-- Drops the transaction of a handle. -/
def releaseHandle (s : Session) : Handle → Session
  | .pool t =>
    let (p, ns) := s.pool.release t
    (s.setPool p).report ns
  | .store d t =>
    let (st, f) := (s.world.store d).release t
    { s with world := s.world.setStore d st }.report
      ((f.map (Notice.rollbackFailed d.storeName)).toList)

/-- Puts a new transaction under a name and drops the one before. -/
def keep (s : Session) (name : String) (h : Handle) : Session :=
  let s := match s.transactions.lookup name with
    | some old => s.releaseHandle old
    | none => s
  { s with transactions := withName name h s.transactions }

/-- Opens a transaction of the pool; answers its pattern. -/
def beginPool (s : Session) (name : String) : Answer String :=
  match s.onPool s.pool.begin with
  | (s, .error e) => (s, .error e)
  | (s, .ok t) => (s.keep name (.pool t), .ok t.pattern.name)

/-- Opens a transaction of one store; answers the store's name. -/
def beginStore (s : Session) (name : String) (d : Direction) : Answer String :=
  match s.onStore d Store.begin with
  | (s, .error e) => (s, .error e)
  | (s, .ok t) => (s.keep name (.store d t), .ok d.storeName)

def handleName : Handle → String
  | .pool t => t.pattern.name
  | .store d _ => d.storeName

def execIn (s : Session) (h : Handle) (st : Store.Statement) (args : List Value) : Answer Nat :=
  match h with
  | .pool t => s.onPool (s.pool.execIn t st args)
  | .store d t => s.onStore d fun x => x.exec (some t) st args

def queryIn (s : Session) (h : Handle) (st : Store.Statement) (args : List Value) :
    Answer Store.Rows :=
  match h with
  | .pool t => s.onPool (s.pool.queryIn t st args)
  | .store d t => s.onStore d fun x => x.query (some t) st args

/-- Ends a transaction of one store. -/
def endStore (s : Session) (d : Direction) (r : Store × Store.Ending) : Answer Unit :=
  ({ s with world := s.world.setStore d r.1 }.report
      ((r.2.unfinished.map (Notice.rollbackFailed d.storeName)).toList),
    r.2.result.mapError .store)

def forget (s : Session) (name : String) : Session :=
  { s with transactions := without name s.transactions }

def commit (s : Session) (name : String) (h : Handle) : Answer Unit :=
  let s := s.forget name
  match h with
  | .pool t => s.onPool (s.pool.commit t)
  | .store d t => s.endStore d ((s.world.store d).commit t)

def rollback (s : Session) (name : String) (h : Handle) : Answer Unit :=
  let s := s.forget name
  match h with
  | .pool t => s.onPool (s.pool.rollback t)
  | .store d t => s.endStore d ((s.world.store d).rollback t)

/-- Drops the transaction of a name; answers whether there was one. -/
def dropTransaction (s : Session) (name : String) : Session × Bool :=
  match s.transactions.lookup name with
  | none => (s, false)
  | some h => ((s.forget name).releaseHandle h, true)

/-- Puts any code into the shared pattern. -/
def setCode (s : Session) (code : UInt8) : Session := s.setPool { s.pool with code := code }

def addTripwire (s : Session) (t : Tripwire) : Session :=
  { s with world := { s.world with tripwires := s.world.tripwires ++ [t] } }

/-- How a validation that was awaited ended. -/
inductive Ended where
  | result (r : Except Error Unit)
  | panicked (message : String)
  | never

def validate (s : Session) (plan : Plan) (cancelled : Bool) (cancelAfter : Option Nat) :
    Session × Ended :=
  let (w, a) := s.world.validate plan cancelled cancelAfter
  ({ s with world := w },
    match a with
    | some ⟨_, _, _, some message⟩ => .panicked message
    | some a => (a.validation.result?.map Ended.result).getD .never
    | none => .never)

def renewScheduler (s : Session) (batch : Int) : Answer Pattern :=
  match s.world.control.renew batch with
  | .error e => (s, .error e)
  | .ok c => ({ s with world := { s.world with control := c } }, .ok c.scheduler.pattern)

def poison (s : Session) : Session × Bool :=
  let (c, b, ns) := s.world.control.poison .full
  ({ s with world := { s.world with control := c } }.report ns, b)

def shutdown (s : Session) : Session := { s with world := s.world.shutdown.settle World.enough }

def sleep (s : Session) (ms : Nat) : Session := { s with world := s.world.sleep ms }

def http (s : Session) (r : Http.Request) : Session × Http.Response :=
  let (c, a, ns) := Http.handle s.world.control r
  ({ s with world := { s.world with control := c } }.report ns, a)

def makeFixer (s : Session) (name : String) (base target : Direction) : Answer (List String) :=
  match Fixer.make base target (s.world.store base) with
  | .error e => (s, .error e)
  | .ok f => ({ s with fixers := withName name f s.fixers }, .ok f.columns)

def fix (s : Session) (f : Fixer) (id : Int) : Answer Unit :=
  match f.read (s.world.store f.base) id with
  | .error e => (s, .error e)
  | .ok row =>
    let (st, r) := f.write (s.world.store f.target) id row
    ({ s with world := s.world.setStore f.target st }, r)

def setBus (s : Session) (b : Bus) : Session := { s with world := { s.world with bus := b } }

def subscribe (s : Session) (name topic group : String) : Answer Unit :=
  match s.world.bus.subscribe topic group with
  | .error e => (s, .error e)
  | .ok (b, id) =>
    let b := match s.subscriptions.lookup name with
      | some old => b.unsubscribe old
      | none => b
    ({ s.setBus b with subscriptions := withName name id s.subscriptions }, .ok ())

def unsubscribe (s : Session) (name : String) : Session × Bool :=
  match s.subscriptions.lookup name with
  | none => (s, false)
  | some id =>
    ({ s.setBus (s.world.bus.unsubscribe id) with subscriptions := without name s.subscriptions },
      true)

def publish (s : Session) (topic : String) (payload : List UInt8) : Session :=
  s.setBus (s.world.bus.publish topic payload)

/-- Takes a message of a subscription and keeps it under a name, if one is given. -/
def receive (s : Session) (subscription : Nat) (as' : Option String) : Session × Option Delivery :=
  let (w, d) := s.world.receive subscription
  let s := { s with world := w }
  match as', d with
  | some name, some d => ({ s with deliveries := withName name d s.deliveries }, some d)
  | _, d => (s, d)

/-- Hands a delivery back; answers whether there was one of that name. -/
def nack (s : Session) (name : String) : Session × Bool :=
  match s.deliveries.lookup name with
  | none => (s, false)
  | some d =>
    let (b, ns) := s.world.bus.nack d
    ({ s.setBus b with deliveries := without name s.deliveries }.report ns, true)

def ack (s : Session) (name : String) : Session × Bool :=
  ({ s with deliveries := without name s.deliveries }, (s.deliveries.lookup name).isSome)

def makeConsumer (s : Session) (name topic group : String) : Answer Unit :=
  match Consumer.make s.world.bus topic group (s.world.store .src) (s.world.store .dst) with
  | .error e => (s, .error e)
  | .ok (b, c) =>
    let b := match s.consumers.lookup name with
      | some old => b.unsubscribe old.subscription
      | none => b
    ({ s.setBus b with consumers := withName name c s.consumers }, .ok ())

/-- Sets a consumer to work for a start; answers whether there was one of that name. -/
def runConsumer (s : Session) (name : String) : Session × Bool :=
  match s.consumers.lookup name with
  | none => (s, false)
  | some c =>
    let n := s.nextConsumer
    ({ s with
        world := (s.world.spawn n c).sleep 1
        consumers := without name s.consumers
        running := withName name n s.running
        nextConsumer := n + 1 }, true)

def stopConsumer (s : Session) (name : String) : Session × Bool :=
  match s.running.lookup name with
  | none => (s, false)
  | some n => ({ s with world := s.world.stopConsumer n, running := without name s.running }, true)

/-- The events and notices since the last look. -/
def drain (s : Session) : Session × List Event × List Notice :=
  ({ s with world := { s.world with events := [], notices := [] } }, s.world.events,
    s.world.notices)

end Session

end DualWrite
