import DualWrite.Bus
import DualWrite.Event.Wire
import DualWrite.Pattern.Reader
import DualWrite.Repair.Fixer

/-!
# Consumers

A consumer takes the events of one subscription in turn and has the fixer of each event's direction
repair the row. What cannot be read is handed back; a repair that fails is only reported.
-/
namespace DualWrite

/-- Where a consumer stands between two of its steps. -/
inductive Handling where
  | waiting
  /-- The base row is to be read. -/
  | reading (event : Event) (direction : Direction)
  /-- What the base held is to be written to the target. -/
  | writing (event : Event) (direction : Direction) (row : Option (List Value))
deriving Repr, DecidableEq

structure Consumer where
  topic : String
  subscription : Nat
  srcFixer : Fixer
  dstFixer : Fixer
  handling : Handling
  cancelled : Bool
deriving Repr, DecidableEq

namespace Consumer

/-- A consumer over two stores, subscribed. -/
def make (b : Bus) (topic group : String) (src dst : Store) : Except Error (Bus × Consumer) := do
  let srcFixer ← Fixer.make .src .dst src
  let dstFixer ← Fixer.make .dst .src dst
  let (b, id) ← b.subscribe topic group
  return (b, ⟨topic, id, srcFixer, dstFixer, .waiting, false⟩)

def fixer (c : Consumer) : Direction → Fixer
  | .src => c.srcFixer
  | .dst => c.dstFixer

/-- Whatever it is doing, a consumer repairs with the fixers that it was made with. -/
theorem fixer_at_work (c : Consumer) (h : Handling) (cancelled : Bool) (d : Direction) :
    ({ c with handling := h, cancelled := cancelled } : Consumer).fixer d = c.fixer d := by
  cases d <;> rfl

/-- The event of a payload and the direction that it names. -/
def understand (payload : List UInt8) : Except Error (Event × Direction) := do
  let e ← Event.decode payload
  return (e, ← Direction.ofText e.direction)

/-- Takes the next message, if there is one. -/
def take (c : Consumer) (b : Bus) : Option (Consumer × Bus × List Notice) :=
  match b.receive c.subscription with
  | none => none
  | some (b, d) =>
    match understand d.message.payload with
    | .ok (e, dir) => some ({ c with handling := .reading e dir }, b, [])
    | .error err =>
      let (b, notices) := b.nack d
      some (c, b, .messageFailed c.topic (d.message.attempt + 1) err :: notices)

/-- Reads the base row of the event at hand. -/
def onRead (c : Consumer) (e : Event) (d : Direction) (base : Store) : Consumer × List Notice :=
  match (c.fixer d).read base e.id with
  | .ok row => ({ c with handling := .writing e d row }, [])
  | .error err => ({ c with handling := .waiting }, [.fixFailed e err])

/-- Writes to the target what the base held. -/
def onWrite (c : Consumer) (e : Event) (d : Direction) (row : Option (List Value))
    (target : Store) : Consumer × Store × List Notice :=
  let (target, r) := (c.fixer d).write target e.id row
  ({ c with handling := .waiting }, target,
    match r with | .ok () => [] | .error err => [.fixFailed e err])

end Consumer

end DualWrite
