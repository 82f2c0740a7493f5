import DualWrite.Notice

/-!
# The message bus

Each live subscription has a queue of its own. A group has at most one live subscription to a topic.
A message that is handed back joins the queue again, at its end, until it has been handed back as
often as the limit allows.
-/
namespace DualWrite

/-- A payload and how often it was handed back. -/
structure Message where
  payload : List UInt8
  attempt : Nat
deriving Repr, DecidableEq

structure Subscription where
  id : Nat
  topic : String
  group : String
  queue : List Message
deriving Repr, DecidableEq

/-- A message in the hands of a receiver; letting go of it acknowledges it. -/
structure Delivery where
  subscription : Nat
  message : Message
deriving Repr, DecidableEq

structure Bus where
  /-- How often a message may be handed back. -/
  limit : Nat
  /-- The live subscriptions. -/
  subscriptions : List Subscription
  nextId : Nat
deriving Repr, DecidableEq

namespace Bus

def empty (limit : Nat) : Bus := ⟨limit, [], 0⟩

def find? (b : Bus) (id : Nat) : Option Subscription := b.subscriptions.find? (·.id = id)

/-- Changes the queue of one subscription. -/
def mapQueue (b : Bus) (id : Nat) (f : List Message → List Message) : Bus :=
  { b with
    subscriptions := b.subscriptions.map fun s =>
      if s.id = id then { s with queue := f s.queue } else s }

def subscribe (b : Bus) (topic group : String) : Except Error (Bus × Nat) :=
  if b.subscriptions.any fun s => s.topic = topic && s.group = group then
    .error (.other ("Consumer group '" ++ group ++ "' is already subscribed to '" ++ topic ++ "'"))
  else
    .ok ({ b with
      subscriptions := b.subscriptions ++ [⟨b.nextId, topic, group, []⟩]
      nextId := b.nextId + 1 }, b.nextId)

/-- Drops a subscription with its queue. -/
def unsubscribe (b : Bus) (id : Nat) : Bus :=
  { b with subscriptions := b.subscriptions.filter (·.id ≠ id) }

/-- Every subscription to the topic gets the message once. -/
def publish (b : Bus) (topic : String) (payload : List UInt8) : Bus :=
  { b with subscriptions := b.subscriptions.map fun s =>
      if s.topic = topic then { s with queue := s.queue ++ [⟨payload, 0⟩] } else s }

/-- Takes the oldest message of a subscription. -/
def receive (b : Bus) (id : Nat) : Option (Bus × Delivery) :=
  match (b.find? id).map (·.queue) with
  | some (m :: rest) => some (b.mapQueue id fun _ => rest, ⟨id, m⟩)
  | _ => none

/-- Hands a message back; beyond the limit it is dropped and reported. -/
def nack (b : Bus) (d : Delivery) : Bus × List Notice :=
  if b.limit ≤ d.message.attempt then (b, [.deadLetter (d.message.attempt + 1) d.message.payload])
  else
    let m := { d.message with attempt := d.message.attempt + 1 }
    (b.mapQueue d.subscription fun q => q ++ [m], [])

end Bus

end DualWrite
