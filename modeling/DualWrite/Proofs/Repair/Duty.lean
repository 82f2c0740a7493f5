import DualWrite.Proofs.Repair.Letters
import DualWrite.Proofs.Validation.Scene

/-!
# Consumers on duty

While a consumer works, payloads of any bytes are published and the stores are written to by others.
The consumer has every event that it understands repaired once, in the order of publication, and
gives up on everything else after a bounded number of deliveries; after a bounded number of turns it
is at rest.
-/
namespace DualWrite

namespace Bus
variable (b : Bus) (id : Nat)

theorem find?_mapQueue (f : List Message → List Message) :
    (b.mapQueue id f).find? id = (b.find? id).map fun s => { s with queue := f s.queue } := by
  rw [find?, mapQueue, List.find?_map, find?]
  have hsame : ((fun s : Subscription => decide (s.id = id)) ∘ fun s =>
      if s.id = id then { s with queue := f s.queue } else s) = fun s => decide (s.id = id) := by
    funext s
    by_cases hs : s.id = id <;> simp [hs]
  rw [hsame]
  cases hf : b.subscriptions.find? fun s => s.id = id with
  | none => rfl
  | some s =>
    have hs : s.id = id := by simpa using List.find?_some hf
    simp [hs]

theorem find?_publish (topic : String) (payload : List UInt8) :
    (b.publish topic payload).find? id = (b.find? id).map fun s =>
      if s.topic = topic then { s with queue := s.queue ++ [⟨payload, 0⟩] } else s := by
  rw [find?, publish, List.find?_map, find?]
  congr 2
  funext s
  by_cases hs : s.topic = topic <;> simp [hs]

end Bus

namespace Account

/-- The queue of the account is the queue of a subscription to a topic. -/
structure Shows (limit : Nat) (a : Account) (b : Bus) (id : Nat) (topic : String) : Prop where
  limit : b.limit = limit
  found : ∃ s, b.find? id = some s ∧ s.topic = topic ∧ s.queue = a.queue.map (·.message)

namespace Shows
variable {limit : Nat} {a : Account} {b : Bus} {id : Nat} {topic : String}
    (h : a.Shows limit b id topic)
include h

theorem publish (payload : List UInt8) :
    (a.post payload).Shows limit (b.publish topic payload) id topic := by
  obtain ⟨s, hfound, htopic, hqueue⟩ := h.found
  refine ⟨h.limit, { s with queue := s.queue ++ [⟨payload, 0⟩] }, ?_, htopic, ?_⟩
  · rw [Bus.find?_publish, hfound, Option.map_some, if_pos htopic]
  · rw [hqueue, Account.post, Account.enqueue, List.map_append]
    rfl

theorem publish_other {topic' : String} (ht : topic ≠ topic') (payload : List UInt8) :
    a.Shows limit (b.publish topic' payload) id topic := by
  obtain ⟨s, hfound, htopic, hqueue⟩ := h.found
  refine ⟨h.limit, s, ?_, htopic, hqueue⟩
  rw [Bus.find?_publish, hfound, Option.map_some, if_neg (htopic.trans_ne ht)]

theorem receive_nil (hq : a.queue = []) : b.receive id = none := by
  obtain ⟨s, hfound, _, hqueue⟩ := h.found
  rw [hq, List.map_nil] at hqueue
  rw [Bus.receive, hfound, Option.map_some, hqueue]

theorem mapQueue {a' : Account} {f : List Message → List Message}
    (hf : f (a.queue.map (·.message)) = a'.queue.map (·.message)) :
    a'.Shows limit (b.mapQueue id f) id topic := by
  obtain ⟨s, hfound, htopic, hqueue⟩ := h.found
  refine ⟨h.limit, { s with queue := f s.queue }, ?_, htopic, ?_⟩
  · rw [Bus.find?_mapQueue, hfound, Option.map_some]
  · rw [hqueue]
    exact hf

theorem receive {l : Letter} {rest : List Letter} (hq : a.queue = l :: rest) :
    ∃ b', b.receive id = some (b', ⟨id, l.message⟩) ∧
      ({ a with queue := rest }).Shows limit b' id topic := by
  obtain ⟨s, hfound, _, hqueue⟩ := h.found
  rw [hq, List.map_cons] at hqueue
  exact ⟨b.mapQueue id fun _ => rest.map (·.message),
    by rw [Bus.receive, hfound, Option.map_some, hqueue], h.mapQueue rfl⟩

end Shows
end Account

def Handling.of : Option (Event × Direction) → Handling
  | some (e, d) => .reading e d
  | none => .waiting

namespace Consumer
variable {limit : Nat} {a : Account} {b : Bus} {c : Consumer} {topic : String}

/-- A consumer deals with the oldest letter of its queue. -/
theorem take_serves (hc : c.handling = .waiting) (hs : a.Shows limit b c.subscription topic)
    (h : a.Served limit) {l : Letter} {rest : List Letter} (hq : a.queue = l :: rest) :
    ∃ b' ns, c.take b = some ({ c with handling := .of l.meaning? }, b', ns) ∧
      (a.serve limit).Shows limit b' c.subscription topic := by
  obtain ⟨b', hreceive, hs'⟩ := hs.receive hq
  rw [take, hreceive]
  cases hu : understand l.message.payload with
  | ok p =>
    obtain ⟨e, d⟩ := p
    have hl : l.meaning? = some (e, d) := by
      rw [Letter.meaning?, meaning?, hu]
      rfl
    simp only [hu, hl, Handling.of]
    refine ⟨b', [], rfl, ?_⟩
    rw [Account.serve_read hq h.none_held (by rw [hl]; rfl)]
    exact ⟨hs'.limit, hs'.found⟩
  | error err =>
    have hl : l.meaning? = none := by
      rw [Letter.meaning?, meaning?, hu]
      rfl
    have hstays : c = { c with handling := .waiting } := by rw [← hc]
    simp only [hu, hl, Handling.of, ← hstays]
    refine ⟨_, _, rfl, ?_⟩
    by_cases hmore : l.message.attempt < limit
    · have hnack : (b'.nack ⟨c.subscription, l.message⟩).1 =
          b'.mapQueue c.subscription fun q => q ++ [l.again.message] := by
        rw [Bus.nack, hs'.limit, if_neg (Nat.not_le.2 hmore)]
        rfl
      rw [Account.serve_again hq h.none_held hl hmore, hnack]
      refine hs'.mapQueue ?_
      rw [List.map_append]
      rfl
    · have hnack : (b'.nack ⟨c.subscription, l.message⟩).1 = b' := by
        rw [Bus.nack, hs'.limit, if_pos (Nat.not_lt.1 hmore)]
      rw [Account.serve_last hq h.none_held hl (Nat.not_lt.1 hmore), hnack]
      exact ⟨hs'.limit, hs'.found⟩

end Consumer

def Handling.ofRead (e : Event) (d : Direction) : Except Error (Option (List Value)) → Handling
  | .ok row => .writing e d row
  | .error _ => .waiting

namespace World
variable {w : World} {n : Nat} {c : Consumer}

section Waiting
variable (hc : w.consumers.lookup n = some c) (hw : c.handling = .waiting)
    (hr : c.cancelled = false)
include hc hw hr

theorem stepConsumer_idle (ht : c.take w.bus = none) : w.stepConsumer n = (w, false) := by
  simp only [stepConsumer, hc, hw, hr, ht, Bool.false_eq_true, if_false]

theorem stepConsumer_take {c' : Consumer} {b : Bus} {ns : List Notice}
    (ht : c.take w.bus = some (c', b, ns)) :
    w.stepConsumer n = (({ w with bus := b }.setConsumer n c').report ns, true) := by
  simp only [stepConsumer, hc, hw, hr, ht, Bool.false_eq_true, if_false]

end Waiting

theorem stepConsumer_read {e : Event} {d : Direction}
    (hc : w.consumers.lookup n = some { c with handling := .reading e d }) :
    ∃ ns, w.stepConsumer n = ((w.setConsumer n
      { c with handling := .ofRead e d ((c.fixer d).read (w.store d) e.id) }).report ns, true) := by
  simp only [stepConsumer, hc, Consumer.onRead, Consumer.fixer_at_work]
  cases (c.fixer d).read (w.store d) e.id <;> exact ⟨_, rfl⟩

theorem stepConsumer_write {e : Event} {d : Direction} {row : Option (List Value)}
    (hc : w.consumers.lookup n = some { c with handling := .writing e d row }) :
    ∃ ns, w.stepConsumer n = (((w.setStore d.other
      ((c.fixer d).write (w.store d.other) e.id row).1).setConsumer n
        { c with handling := .waiting }).report ns, true) := by
  simp only [stepConsumer, hc, Consumer.onWrite, Consumer.fixer_at_work]
  exact ⟨_, rfl⟩

end World

/-- A consumer at work: the messages that it was given so far, and the repairs that it had begun. -/
structure Duty where
  world : World
  given : List Message
  begun : List (Event × Direction)

namespace Duty

inductive Move where
  /-- Somebody publishes a payload. -/
  | publish (topic : String) (payload : List UInt8)
  /-- The consumer makes its next step. -/
  | turn
  /-- Somebody changes a store. -/
  | write (d : Direction) (s : Store)

def Move.isTurn : Move → Bool
  | .turn => true
  | .publish _ _ | .write _ _ => false

def Move.postedTo? (topic : String) : Move → Option (List UInt8)
  | .publish topic' payload => if topic = topic' then some payload else none
  | .turn | .write _ _ => none

def posted (topic : String) (ms : List Move) : List (List UInt8) :=
  ms.filterMap (Move.postedTo? topic)

section Posted
variable (topic : String)

@[simp] theorem posted_nil : posted topic [] = [] := rfl

theorem posted_append (ms ms' : List Move) :
    posted topic (ms ++ ms') = posted topic ms ++ posted topic ms' :=
  List.filterMap_append

@[simp] theorem posted_turn : posted topic [.turn] = [] := rfl

@[simp] theorem posted_write (d : Direction) (s : Store) : posted topic [.write d s] = [] := rfl

theorem posted_publish (payload : List UInt8) :
    posted topic [.publish topic payload] = [payload] := by
  simp [posted, Move.postedTo?]

theorem posted_publish_other {topic topic' : String} (h : topic ≠ topic') (payload : List UInt8) :
    posted topic [.publish topic' payload] = [] := by
  simp [posted, Move.postedTo?, h]

end Posted

def gives? (w : World) (n : Nat) : Option Message := do
  let c ← w.consumers.lookup n
  match c.handling, c.cancelled with
  | .waiting, false => (w.bus.receive c.subscription).map (·.2.message)
  | _, _ => none

def begins? (w : World) (n : Nat) : Option (Event × Direction) := do
  let c ← w.consumers.lookup n
  match c.handling with
  | .reading e d => some (e, d)
  | .waiting | .writing _ _ _ => none

def start (w : World) : Duty := ⟨w, [], []⟩

def move (n : Nat) (x : Duty) : Move → Duty
  | .publish topic payload =>
    { x with world := { x.world with bus := x.world.bus.publish topic payload } }
  | .turn => ⟨(x.world.stepConsumer n).1, x.given ++ (gives? x.world n).toList,
      x.begun ++ (begins? x.world n).toList⟩
  | .write d s => { x with world := x.world.setStore d s }

def run (n : Nat) (x : Duty) (ms : List Move) : Duty := ms.foldl (move n) x

theorem run_append (n : Nat) (x : Duty) (ms ms' : List Move) :
    x.run n (ms ++ ms') = (x.run n ms).run n ms' := List.foldl_append

theorem run_concat (n : Nat) (x : Duty) (ms : List Move) (m : Move) :
    x.run n (ms ++ [m]) = (x.run n ms).move n m := x.run_append n ms [m]

def Resting (n : Nat) (x : Duty) : Prop := (x.world.stepConsumer n).2 = false

end Duty

def Consumer.repair (c : Consumer) (stores : Direction → Store) (p : Event × Direction) :
    Direction → Store := fun d =>
  if d = p.2.other then ((c.fixer p.2).fix (stores p.2) (stores p.2.other) p.1.id).1 else stores d

namespace Handling

/-- What becomes of the two stores when the row in hand is written. -/
def finish (c : Consumer) (stores : Direction → Store) : Handling → Direction → Store
  | .writing e d row => fun d' =>
    if d' = d.other then ((c.fixer d).write (stores d.other) e.id row).1 else stores d'
  | .waiting | .reading _ _ => stores

theorem finish_of (c : Consumer) (stores : Direction → Store) (m : Option (Event × Direction)) :
    (of m).finish c stores = stores := by
  rcases m with _ | ⟨e, d⟩ <;> rfl

/-- A repair is begun by reading and done by writing. -/
theorem finish_ofRead (c : Consumer) (stores : Direction → Store) (e : Event) (d : Direction) :
    (ofRead e d ((c.fixer d).read (stores d) e.id)).finish c stores = c.repair stores (e, d) := by
  funext d'
  rw [Consumer.repair, Fixer.fix]
  cases (c.fixer d).read (stores d) e.id with
  | ok row => rfl
  | error err =>
    simp only [ofRead, finish]
    split
    · next hd => rw [hd]
    · rfl

def turns : Handling → Nat
  | .waiting => 0
  | .reading _ _ => 2
  | .writing _ _ _ => 1

def next? : Handling → Option (Event × Direction)
  | .reading e d => some (e, d)
  | .waiting | .writing _ _ _ => none

end Handling

namespace Duty
variable {limit : Nat} {c : Consumer} {n : Nat} {topic : String}
    {posts : List (List UInt8)} {k : Nat}
  {x : Duty} {a : Account} {h : Handling}

/-- A consumer and the letters of its subscription; at most `k` steps are left to be made. -/
structure OnDuty (limit : Nat) (c : Consumer) (n : Nat) (topic : String) (posts : List (List UInt8))
    (k : Nat) (x : Duty) (a : Account) (h : Handling) : Prop where
  running : c.cancelled = false
  employed : x.world.consumers.lookup n = some { c with handling := h }
  shown : a.Shows limit x.world.bus c.subscription topic
  served : a.Served limit
  posted : a.posted = posts
  given : x.given = a.taken.map (·.message)
  begun : x.begun ++ h.next?.toList = a.acknowledged.filterMap Letter.meaning?
  left : h.turns + a.work limit ≤ k

/-- Once what is in hand is done, the stores are what the repairs have made of them, if they were so
before. -/
def Settles (c : Consumer) (x : Duty) (h : Handling) (x' : Duty) (h' : Handling) : Prop :=
  ∀ before, h.finish c x.world.store = x.begun.foldl c.repair before →
    h'.finish c x'.world.store = x'.begun.foldl c.repair before

namespace OnDuty
variable (hx : OnDuty limit c n topic posts k x a h)
include hx

theorem mono {k' : Nat} (hk : k ≤ k') : OnDuty limit c n topic posts k' x a h :=
  { hx with left := Nat.le_trans hx.left hk }

theorem publish (payload : List UInt8) :
    OnDuty limit c n topic (posts ++ [payload]) (k + Consumer.turnsFor limit payload)
      (x.move n (.publish topic payload)) (a.post payload) h where
  running := hx.running
  employed := hx.employed
  shown := hx.shown.publish payload
  served := hx.served.post payload
  posted := congrArg (· ++ [payload]) hx.posted
  given := hx.given
  begun := hx.begun
  left := by
    have hleft := hx.left
    rw [Account.work_post]
    omega

theorem publish_other {topic' : String} (ht : topic ≠ topic') (payload : List UInt8) :
    OnDuty limit c n topic posts k (x.move n (.publish topic' payload)) a h :=
  { hx with shown := hx.shown.publish_other ht payload }

theorem write (d : Direction) (s : Store) :
    OnDuty limit c n topic posts k (x.move n (.write d s)) a h :=
  { hx with }

theorem move_take {l : Letter} {rest : List Letter} (hw : h = .waiting) (hq : a.queue = l :: rest) :
    ∃ b ns, x.move n .turn = ⟨({ x.world with bus := b }.setConsumer n
        { c with handling := .of l.meaning? }).report ns, x.given ++ [l.message], x.begun⟩ ∧
      (a.serve limit).Shows limit b c.subscription topic := by
  subst hw
  obtain ⟨b, ns, htake, hshown⟩ := Consumer.take_serves (c := { c with handling := .waiting }) rfl
    hx.shown hx.served hq
  obtain ⟨b', hreceive, _⟩ := hx.shown.receive hq
  have hgives : gives? x.world n = some l.message := by
    simp only [gives?, hx.employed, hx.running, hreceive, Option.bind_eq_bind, Option.bind_some,
      Option.map_some]
  have hbegins : begins? x.world n = none := by
    simp only [begins?, hx.employed, Option.bind_eq_bind, Option.bind_some]
  refine ⟨b, ns, ?_, hshown⟩
  rw [move, World.stepConsumer_take hx.employed rfl hx.running htake, hgives, hbegins]
  simp

theorem step_rest (hw : h = .waiting) (hq : a.queue = []) :
    x.world.stepConsumer n = (x.world, false) := by
  subst hw
  refine World.stepConsumer_idle hx.employed rfl hx.running ?_
  rw [Consumer.take, hx.shown.receive_nil hq]

theorem move_rest (hw : h = .waiting) (hq : a.queue = []) : x.move n .turn = x := by
  have hstep := hx.step_rest hw hq
  subst hw
  have hgives : gives? x.world n = none := by
    simp only [gives?, hx.employed, hx.running, hx.shown.receive_nil hq, Option.bind_eq_bind,
      Option.bind_some, Option.map_none]
  have hbegins : begins? x.world n = none := by
    simp only [begins?, hx.employed, Option.bind_eq_bind, Option.bind_some]
  rw [move, hstep, hgives, hbegins]
  simp

theorem move_read {e : Event} {d : Direction} (hr : h = .reading e d) :
    ∃ ns, x.move n .turn = ⟨(x.world.setConsumer n
      { c with handling := .ofRead e d ((c.fixer d).read (x.world.store d) e.id) }).report ns,
      x.given, x.begun ++ [(e, d)]⟩ := by
  subst hr
  obtain ⟨ns, hstep⟩ := World.stepConsumer_read hx.employed
  have hgives : gives? x.world n = none := by
    simp only [gives?, hx.employed, Option.bind_eq_bind, Option.bind_some]
  have hbegins : begins? x.world n = some (e, d) := by
    simp only [begins?, hx.employed, Option.bind_eq_bind, Option.bind_some]
  refine ⟨ns, ?_⟩
  rw [move, hstep, hgives, hbegins]
  simp

theorem move_finish {e : Event} {d : Direction} {row : Option (List Value)}
    (hw : h = .writing e d row) : ∃ ns, x.move n .turn = ⟨((x.world.setStore d.other
      ((c.fixer d).write (x.world.store d.other) e.id row).1).setConsumer n
        { c with handling := .waiting }).report ns, x.given, x.begun⟩ := by
  subst hw
  obtain ⟨ns, hstep⟩ := World.stepConsumer_write hx.employed
  have hgives : gives? x.world n = none := by
    simp only [gives?, hx.employed, Option.bind_eq_bind, Option.bind_some]
  have hbegins : begins? x.world n = none := by
    simp only [begins?, hx.employed, Option.bind_eq_bind, Option.bind_some]
  refine ⟨ns, ?_⟩
  rw [move, hstep, hgives, hbegins]
  simp

theorem take {l : Letter} {rest : List Letter} (hw : h = .waiting) (hq : a.queue = l :: rest) :
    OnDuty limit c n topic posts (k - 1) (x.move n .turn) (a.serve limit) (.of l.meaning?) ∧
      Settles c x h (x.move n .turn) (.of l.meaning?) := by
  obtain ⟨b, ns, hmove, hshown⟩ := hx.move_take hw hq
  obtain ⟨hposted, htaken, hacknowledged⟩ := Account.serve_record limit hq hx.served.none_held
  have hwork := hx.served.work_serve hq
  have hleft := hx.left
  have hbegun := hx.begun
  rw [hmove]
  subst hw
  constructor
  · refine ⟨hx.running, ?_, hshown, hx.served.serve, hposted.trans hx.posted, ?_, ?_, ?_⟩
    · exact World.lookup_setConsumer _ (w := { x.world with bus := b }) hx.employed
    · rw [htaken, hx.given, List.map_append]
      rfl
    · simp only [Handling.next?, Option.toList_none, List.append_nil] at hbegun
      rw [hacknowledged, ← hbegun]
      cases l.meaning? <;> rfl
    · cases hl : l.meaning? <;>
        simp only [hl, Handling.of, Handling.turns, Option.isSome_some, Option.isSome_none, if_true,
          Bool.false_eq_true, if_false] at hwork hleft ⊢ <;> omega
  · intro before hbefore
    rw [Handling.finish_of]
    exact hbefore

theorem read {e : Event} {d : Direction} (hr : h = .reading e d) :
    let h' := Handling.ofRead e d ((c.fixer d).read (x.world.store d) e.id)
    OnDuty limit c n topic posts (k - 1) (x.move n .turn) a h' ∧
    Settles c x h (x.move n .turn) h' := by
  intro h'
  obtain ⟨ns, hmove⟩ := hx.move_read hr
  have hleft := hx.left
  have hbegun := hx.begun
  rw [hmove]
  subst hr
  constructor
  · refine ⟨hx.running, World.lookup_setConsumer _ hx.employed, hx.shown, hx.served,
      hx.posted, hx.given, ?_, ?_⟩
    · rw [← hbegun]
      simp only [h']
      cases (c.fixer d).read (x.world.store d) e.id <;> exact List.append_nil _
    · simp only [h']
      cases (c.fixer d).read (x.world.store d) e.id <;>
        simp only [Handling.ofRead, Handling.turns] at hleft ⊢ <;> omega
  · intro before hbefore
    rw [List.foldl_append, ← hbefore]
    exact Handling.finish_ofRead c x.world.store e d

/-- The target row is written, whether or not that fails. -/
theorem finish {e : Event} {d : Direction} {row : Option (List Value)} (hw : h = .writing e d row) :
    OnDuty limit c n topic posts (k - 1) (x.move n .turn) a .waiting ∧
      Settles c x h (x.move n .turn) .waiting := by
  obtain ⟨ns, hmove⟩ := hx.move_finish hw
  have hleft := hx.left
  rw [hmove]
  subst hw
  constructor
  · refine ⟨hx.running, World.lookup_setConsumer _ (w := x.world.setStore _ _) hx.employed,
      hx.shown, hx.served, hx.posted, hx.given, hx.begun, ?_⟩
    simp only [Handling.turns] at hleft ⊢
    omega
  · intro before hbefore
    rw [← hbefore]
    funext d'
    exact World.store_setStore x.world d.other d' _

/-- A turn does one of the things that are left to be done, if there is any. -/
theorem turn : ∃ a' h', OnDuty limit c n topic posts (k - 1) (x.move n .turn) a' h' ∧
    Settles c x h (x.move n .turn) h' := by
  cases hh : h with
  | waiting =>
    cases hq : a.queue with
    | nil =>
      have hnothing : h.turns + a.work limit = 0 := by
        rw [hh, Account.work, hq]
        rfl
      rw [hx.move_rest hh hq]
      exact ⟨a, h, { hx with left := hnothing ▸ Nat.zero_le _ }, fun _ hbefore => hh ▸ hbefore⟩
    | cons l rest => exact ⟨_, _, hh ▸ hx.take hh hq⟩
  | reading e d => exact ⟨_, _, hh ▸ hx.read hh⟩
  | writing e d row => exact ⟨_, _, hh ▸ hx.finish hh⟩

/-- Whatever happens, the turns that are left grow by what is published only, and a turn is one
less. -/
theorem move (m : Move) : ∃ a' h', OnDuty limit c n topic (posts ++ Duty.posted topic [m])
    (k + ((Duty.posted topic [m]).map (Consumer.turnsFor limit)).sum - [m].countP Move.isTurn)
    (x.move n m) a' h' ∧ ((∀ d s, m ≠ .write d s) → Settles c x h (x.move n m) h') := by
  cases m with
  | publish topic' payload =>
    by_cases ht : topic = topic'
    · subst ht
      rw [posted_publish]
      exact ⟨_, _, hx.publish payload, fun _ _ hbefore => hbefore⟩
    · rw [posted_publish_other ht, List.append_nil]
      exact ⟨_, _, hx.publish_other ht payload, fun _ _ hbefore => hbefore⟩
  | turn =>
    rw [posted_turn, List.append_nil]
    obtain ⟨a', h', hy, hsettles⟩ := hx.turn
    exact ⟨a', h', hy, fun _ => hsettles⟩
  | write d s =>
    rw [posted_write, List.append_nil]
    exact ⟨_, _, hx.write d s, fun hm => absurd rfl (hm d s)⟩

theorem run (ms : List Move) : ∃ a' h', OnDuty limit c n topic (posts ++ Duty.posted topic ms)
    (k + ((Duty.posted topic ms).map (Consumer.turnsFor limit)).sum) (x.run n ms) a' h' ∧
    ((∀ d s, .write d s ∉ ms) → Settles c x h (x.run n ms) h') := by
  induction ms using List.reverseRecOn with
  | nil =>
    rw [posted_nil, List.append_nil]
    exact ⟨a, h, hx, fun _ _ hbefore => hbefore⟩
  | append_singleton ms m ih =>
    obtain ⟨a', h', hy, hsettles⟩ := ih
    obtain ⟨a'', h'', hz, hsettles'⟩ := hy.move m
    rw [posted_append, List.map_append, List.sum_append, ← List.append_assoc, run_concat]
    refine ⟨a'', h'', hz.mono (by omega), fun hunwritten before hbefore => ?_⟩
    have hms : ∀ d s, .write d s ∉ ms := fun d s hin => hunwritten d s (List.mem_append_left _ hin)
    have hm : ∀ d s, m ≠ .write d s := fun d s he => hunwritten d s (by simp [he])
    exact hsettles' hm before (hsettles hms before hbefore)

/-- While nothing is published to the topic every turn brings the end nearer. -/
theorem run_quiet {ms : List Move} (hquiet : Duty.posted topic ms = []) :
    ∃ a' h', OnDuty limit c n topic posts (k - ms.countP Move.isTurn) (x.run n ms) a' h' := by
  induction ms using List.reverseRecOn with
  | nil => exact ⟨a, h, hx⟩
  | append_singleton ms m ih =>
    rw [posted_append, List.append_eq_nil_iff] at hquiet
    obtain ⟨a', h', hy⟩ := ih hquiet.1
    obtain ⟨a'', h'', hz, _⟩ := hy.move m
    rw [hquiet.2, List.append_nil] at hz
    rw [List.countP_append, run_concat]
    exact ⟨a'', h'', hz.mono (by simp; omega)⟩

/-- With no turns left the consumer waits before an empty queue. -/
theorem done (hk : k = 0) : h = .waiting ∧ a.queue = [] := by
  have hleft := hx.left
  refine ⟨?_, ?_⟩
  · cases h with
    | waiting => rfl
    | reading | writing =>
      simp only [Handling.turns] at hleft
      omega
  · by_contra hne
    obtain ⟨l, rest, hq⟩ := List.exists_cons_of_ne_nil hne
    have hpos := hx.served.turns_pos (l := l) (hq ▸ List.mem_cons_self)
    rw [Account.work, hq, List.map_cons, List.sum_cons] at hleft
    omega

theorem resting_iff : x.Resting n ↔ h = .waiting ∧ a.queue = [] := by
  constructor
  · intro hrest
    rw [Resting] at hrest
    cases hh : h with
    | waiting =>
      refine ⟨rfl, ?_⟩
      by_contra hne
      obtain ⟨l, rest, hq⟩ := List.exists_cons_of_ne_nil hne
      subst hh
      obtain ⟨b, ns, htake, _⟩ := Consumer.take_serves (c := { c with handling := .waiting }) rfl
        hx.shown hx.served hq
      rw [World.stepConsumer_take hx.employed rfl hx.running htake] at hrest
      cases hrest
    | reading e d =>
      subst hh
      obtain ⟨ns, hstep⟩ := World.stepConsumer_read hx.employed
      rw [hstep] at hrest
      cases hrest
    | writing e d row =>
      subst hh
      obtain ⟨ns, hstep⟩ := World.stepConsumer_write hx.employed
      rw [hstep] at hrest
      cases hrest
  · rintro ⟨hw, hq⟩
    rw [Resting, hx.step_rest hw hq]

end OnDuty
end Duty
end DualWrite
