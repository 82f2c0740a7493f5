import DualWrite.Address
import DualWrite.Control.World
import DualWrite.Http.Control
import DualWrite.Settings.Basic

/-!
# The server

A server is a world with one running consumer, behind two resources: a sign of life, and the control
plane below a path of its own. It is started from its settings and two stores, which are given the
table of interactives unless they have one.
-/
namespace DualWrite

/-- The address that settings ask for. -/
def Settings.address (s : Settings) : Except Error Address :=
  match Address.ofString? (s.host ++ ":" ++ toString s.port.toNat) with
  | some a => .ok a
  | none => .error (.other "Invalid address: invalid socket address syntax")

structure Server where
  world : World
  /-- The number of its consumer. -/
  consumer : Nat

namespace Server

/-- Makes the table of interactives where there is none. -/
def prepare (s : Store) : Except Error Store :=
  match s.define Interactive.script with
  | (s, .ok ()) => .ok s
  | (_, .error f) => .error (.store f)

/-- Starts a server over two stores. The first thing that cannot be done is the error. -/
def start (s : Settings) (src dst : Store) : Except Error Server := do
  let _ ← s.address
  let src ← prepare src
  let dst ← prepare dst
  let control ← ControlPlane.make ⟨src, dst, s.startPattern.code⟩ s.batchSize.toInt
  let (bus, consumer) ← Consumer.make (.empty s.maxRedeliveries.toNat) s.topic s.group src dst
  let world : World :=
    { control, bus, topic := s.topic, clock := 0, consumers := [], awaited := none, tripwires := [],
      events := [], notices := [] }
  return ⟨world.spawn 0 consumer, 0⟩

/-- The path below which the control plane stands. -/
def mount : String := "/migrator/interactive"

/-- What is left of a path below another one. -/
def below? (above path : String) : Option String :=
  if path.toList.take above.length = above.toList then
    some (String.ofList (path.toList.drop above.length))
  else none

def health (r : Http.Request) : Http.Response :=
  if r.method = "GET" || r.method = "HEAD" then Http.withoutBody r (Http.textResponse 200 "OK")
  else Http.notAllowed "GET,HEAD"

/-- Answers a request. -/
def receive (s : Server) (r : Http.Request) : Server × Http.Response :=
  if Http.barePath r.path = "/health" then (s, health r)
  else match below? mount r.path with
    | none => (s, Http.withoutBody r Http.notFound)
    | some path =>
      let (control, response, notices) := Http.handle s.world.control { r with path }
      ({ s with world := { s.world with control }.report notices }, response)

/-- Whether only such runs are left as go on until they are stopped. -/
def atRest (w : World) : Bool :=
  (w.control.runs.filter Run.isRunning).all fun r => r.validation.plan.interval ≠ 0

/-- Lets runs finish and the consumer repair what it received. -/
def settle (s : Server) : Server :=
  let w := (s.world.settle World.enough).elapse atRest none World.enough
  { s with world := w.settle World.enough }

def sleep (s : Server) (ms : Nat) : Server := { s with world := s.world.sleep ms }

/-- Runs a statement on a store, past the server. -/
def exec (s : Server) (d : Direction) (st : Store.Statement) (args : List Value) :
    Server × Except Error Nat :=
  let (store, r) := (s.world.store d).exec none st args
  ({ s with world := s.world.setStore d store }, r.mapError .store)

/-- Stops the runs, then the consumer. -/
def stop (s : Server) : Server :=
  { s with world := s.world.shutdown.stopConsumer s.consumer }

end Server

end DualWrite
