import DualWrite.Proofs.Bus.Accounts
import Mathlib.Data.List.Induction

/-!
# Messages are conserved

The bus keeps no more than queues and deliveries; the account of a live subscription mirrors both at
every moment. So whatever was published to the topic is queued, in somebody's hands, acknowledged or
given up, and it was handed back as often as its attempt says.
-/
namespace DualWrite

def Exchange.Move.postedTo? (topic : String) : Exchange.Move → Option (List UInt8)
  | .publish topic' payload => if topic = topic' then some payload else none
  | .subscribe _ _ | .unsubscribe _ | .receive _ | .acknowledge _ | .nack _ => none

namespace Account

/-- The account has what the bus has of a subscription: its queue and its messages in hand. -/
structure Mirrors (x : Exchange) (s : Subscription) (a : Account) : Prop where
  queue : s.queue = a.queue.map (·.message)
  held : ∀ k message, x.delivery? k = some ⟨s.id, message⟩ ↔ ∃ n, (k, ⟨n, message⟩) ∈ a.held

theorem posted_enter (id : Nat) (topic : String) (x : Exchange) (a : Account) (m : Exchange.Move) :
    (a.enter id topic x m).posted = a.posted ++ (m.postedTo? topic).toList := by
  cases m with
  | subscribe | unsubscribe => exact (List.append_nil _).symm
  | publish topic' payload =>
    rw [enter, Exchange.Move.postedTo?]
    split
    · rfl
    · exact (List.append_nil _).symm
  | receive id' =>
    rw [enter]
    split
    · exact (a.posted_take _).trans (List.append_nil _).symm
    · exact (List.append_nil _).symm
  | acknowledge k => exact (a.posted_acknowledge k).trans (List.append_nil _).symm
  | nack k => exact (a.posted_nack _ k).trans (List.append_nil _).symm

namespace Mirrors
variable {x : Exchange} {s : Subscription} {a : Account} (h : a.Mirrors x s)
include h

/-- A new delivery gets a number that nothing in hand has. -/
theorem lt_of_held {k : Nat} {l : Letter} (hl : (k, l) ∈ a.held) : k < x.handed.length := by
  have hd := (h.held k l.message).2 ⟨l.serial, hl⟩
  by_contra hlarge
  rw [Exchange.delivery?, List.getElem?_eq_none (Nat.not_lt.1 hlarge)] at hd
  cases hd

theorem balanced_enter (hb : a.Balanced x.bus.limit) (m : Exchange.Move) :
    (a.enter s.id s.topic x m).Balanced x.bus.limit := by
  cases m with
  | subscribe | unsubscribe => exact hb
  | publish topic payload =>
    rw [enter]
    split
    · exact hb.post payload
    · exact hb
  | receive id =>
    rw [enter]
    split
    · exact hb.take fun l hl => Nat.lt_irrefl _ (h.lt_of_held hl)
    · exact hb
  | acknowledge k => exact hb.acknowledge k
  | nack k => exact hb.nack k

/-- An account sees no more of an exchange than what is in hand. -/
theorem congr {x' : Exchange} (hx : ∀ k, x'.delivery? k = x.delivery? k) : a.Mirrors x' s := by
  refine ⟨h.queue, fun k message => ?_⟩
  rw [hx]
  exact h.held k message

theorem enqueue (l : Letter) :
    (a.enqueue l).Mirrors x { s with queue := s.queue ++ [l.message] } := by
  refine ⟨?_, h.held⟩
  change s.queue ++ [l.message] = (a.queue ++ [l]).map (·.message)
  rw [h.queue, List.map_append, List.map_singleton]

theorem letGo {x' : Exchange} {k : Nat}
    (hx : ∀ k', x'.delivery? k' = if k' = k then none else x.delivery? k') :
    (a.letGo k).Mirrors x' s := by
  refine ⟨h.queue, fun k' message => ?_⟩
  rw [hx]
  simp only [Account.letGo, List.mem_filter, decide_eq_true_eq]
  by_cases hk : k' = k
  · simp [hk]
  · simpa [hk] using h.held k' message

theorem delivery?_of_held? {k : Nat} {l : Letter} (hheld : a.held? k = some l)
    (hk : (a.held.map (·.1)).Nodup) : x.delivery? k = some ⟨s.id, l.message⟩ :=
  (h.held k l.message).2 ⟨l.serial, (held?_eq_some hk).1 hheld⟩

theorem delivery?_ne_of_held? {k : Nat} (hheld : a.held? k = none)
    (hk : (a.held.map (·.1)).Nodup) (message : Message) : x.delivery? k ≠ some ⟨s.id, message⟩ := by
  intro hd
  obtain ⟨n, hn⟩ := (h.held k message).1 hd
  rw [(held?_eq_some hk).2 hn] at hheld
  cases hheld

variable (ht : x.Tidy) (hs : s ∈ x.bus.subscriptions)
include ht hs

theorem take : (a.take x.handed.length).Mirrors (x.move (.receive s.id))
    { s with queue := s.queue.tail } := by
  have hreceive := ht.receive hs
  rw [Account.take]
  cases hq : a.queue with
  | nil =>
    have hempty : s.queue = [] := by rw [h.queue, hq, List.map_nil]
    rw [hempty] at hreceive
    have hmove : x.move (.receive s.id) = x := by rw [Exchange.move, hreceive]
    rw [hmove]
    exact ⟨by rw [hempty, hq]; rfl, h.held⟩
  | cons l rest =>
    have hfull : s.queue = l.message :: rest.map (·.message) := by rw [h.queue, hq, List.map_cons]
    rw [hfull] at hreceive
    rw [Exchange.move, hreceive]
    refine ⟨by rw [hfull]; rfl, fun k message => ?_⟩
    rw [Exchange.delivery?_append]
    by_cases hk : k = x.handed.length
    · rw [if_pos hk]
      constructor
      · intro hd
        cases hd
        exact ⟨l.serial, List.mem_append_right _ (by rw [hk]; exact List.mem_singleton_self _)⟩
      · rintro ⟨n, hn⟩
        rcases List.mem_append.1 hn with hn | hn
        · exact absurd hk (Nat.ne_of_lt (h.lt_of_held hn))
        · cases List.mem_singleton.1 hn
          rfl
    · rw [if_neg hk, h.held]
      refine exists_congr fun n => ?_
      simp [hk]

omit ht hs

theorem receive_other {id : Nat} (hid : s.id ≠ id) : a.Mirrors (x.move (.receive id)) s := by
  rw [Exchange.move]
  cases hr : x.bus.receive id with
  | none => exact h
  | some p =>
    obtain ⟨b, d⟩ := p
    refine ⟨h.queue, fun k message => ?_⟩
    rw [Exchange.delivery?_append]
    by_cases hk : k = x.handed.length
    · rw [if_pos hk]
      constructor
      · intro hd
        cases hd
        exact absurd (Exchange.subscription_of_receive hr) hid
      · rintro ⟨n, hn⟩
        exact absurd hk (Nat.ne_of_lt (h.lt_of_held hn))
    · rw [if_neg hk]
      exact h.held k message

theorem acknowledge (k : Nat) : (a.acknowledge k).Mirrors (x.move (.acknowledge k)) s := by
  have hgone : (a.letGo k).Mirrors (x.move (.acknowledge k)) s := h.letGo (Exchange.delivery?_set k)
  rw [Account.acknowledge]
  cases hheld : a.held? k with
  | none => rwa [letGo_of_none hheld] at hgone
  | some l => exact ⟨hgone.queue, hgone.held⟩

theorem nack (hkeys : (a.held.map (·.1)).Nodup) (k : Nat) :
    (a.nack x.bus.limit k).Mirrors (x.move (.nack k))
    { s with queue := x.queueAfter s (.nack k) } := by
  have hgone : (a.letGo k).Mirrors (x.move (.nack k)) s := h.letGo (Exchange.delivery?_nack k)
  cases hheld : a.held? k with
  | none =>
    have hforeign := h.delivery?_ne_of_held? hheld hkeys
    have hqueue : x.queueAfter s (.nack k) = s.queue := by
      rw [Exchange.queueAfter]
      split
      · next d hd =>
        refine if_neg fun hown => hforeign d.message ?_
        rw [hd, ← hown.1]
      · rfl
    rw [hqueue, Account.nack, hheld]
    rwa [letGo_of_none hheld] at hgone
  | some l =>
    have hd := h.delivery?_of_held? hheld hkeys
    by_cases hlast : x.bus.limit ≤ l.message.attempt
    · have hqueue : x.queueAfter s (.nack k) = s.queue := by
        simp only [Exchange.queueAfter, hd]
        exact if_neg fun hown => Nat.not_lt.2 hlast hown.2
      simp only [hqueue, Account.nack, hheld, if_pos hlast]
      exact ⟨hgone.queue, hgone.held⟩
    · have hqueue : x.queueAfter s (.nack k) = s.queue ++ [l.again.message] := by
        simp only [Exchange.queueAfter, hd]
        exact if_pos ⟨trivial, Nat.not_le.1 hlast⟩
      simp only [hqueue, Account.nack, hheld, if_neg hlast]
      exact ⟨(h.enqueue l.again).queue, hgone.held⟩

theorem enter (ht : x.Tidy) (hs : s ∈ x.bus.subscriptions) (hb : a.Balanced x.bus.limit)
    (m : Exchange.Move) :
    (a.enter s.id s.topic x m).Mirrors (x.move m) { s with queue := x.queueAfter s m } := by
  cases m with
  | subscribe topic group =>
    refine h.congr fun k => ?_
    rw [Exchange.move]
    split <;> rfl
  | unsubscribe id => exact h.congr fun _ => rfl
  | publish topic payload =>
    rw [Account.enter, Exchange.queueAfter]
    split
    · have hposted := h.enqueue ⟨a.posted.length, ⟨payload, 0⟩⟩
      exact ⟨hposted.queue, hposted.held⟩
    · exact h.congr fun _ => rfl
  | receive id =>
    rw [Account.enter, Exchange.queueAfter]
    split
    · next hid =>
      rw [← hid]
      exact h.take ht hs
    · next hid => exact h.receive_other hid
  | acknowledge k => exact h.acknowledge k
  | nack k => exact h.nack hb.keys k

end Mirrors

theorem mirrors_subscribe {x : Exchange} (ht : x.Tidy) {s : Subscription}
    (hid : s.id = x.bus.nextId)
    (hqueue : s.queue = []) : empty.Mirrors (x.move (.subscribe s.topic s.group)) s := by
  have hempty : empty.Mirrors x s := by
    refine ⟨hqueue, fun k message => ⟨fun hd => ?_, fun ⟨_, hn⟩ => absurd hn List.not_mem_nil⟩⟩
    exact absurd (hid ▸ ht.handed k _ hd) (Nat.lt_irrefl _)
  refine hempty.congr fun k => ?_
  rw [Exchange.move]
  split <;> rfl

/-- The account starts where some moves have made the subscription, and follows the rest of them. -/
def Recounts (limit : Nat) (ms : List Exchange.Move) (s : Subscription) (a : Account) : Prop :=
  ∃ before after, ms = before ++ .subscribe s.topic s.group :: after ∧
    s.id = ((Exchange.start limit).run before).bus.nextId ∧
    a = follow s.id s.topic
      ((Exchange.start limit).run (before ++ [.subscribe s.topic s.group])) empty after ∧
    a.posted = after.filterMap (·.postedTo? s.topic)

end Account

namespace Exchange

/-- Every live subscription has an account of all moves so far, which mirrors it and is balanced. -/
theorem account_run (limit : Nat) (ms : List Move) {s : Subscription}
    (hs : s ∈ ((start limit).run ms).bus.subscriptions) :
    ∃ a : Account, a.Recounts limit ms s ∧ a.Mirrors ((start limit).run ms) s ∧
      a.Balanced limit := by
  induction ms using List.reverseRecOn generalizing s with
  | nil => cases hs
  | append_singleton ms m ih =>
    have ht : ((start limit).run ms).Tidy := tidy_run limit ms
    have hlimit : ((start limit).run ms).bus.limit = limit := limit_run _ ms
    rw [run_concat] at hs ⊢
    rcases ht.mem_move hs with ⟨s₀, hs₀, rfl⟩ | ⟨rfl, hid, hqueue⟩
    · obtain ⟨a, ⟨before, after, rfl, hid, ha, hposted⟩, hmirrors, hbalanced⟩ := ih hs₀
      have hrun : ((start limit).run (before ++ [.subscribe s₀.topic s₀.group])).run after =
          (start limit).run (before ++ .subscribe s₀.topic s₀.group :: after) := by
        rw [← run_append, List.append_assoc, List.singleton_append]
      rw [← hlimit] at hbalanced
      have hentered := hmirrors.balanced_enter hbalanced m
      rw [hlimit] at hentered
      refine ⟨a.enter s₀.id s₀.topic _ m, ⟨before, after ++ [m], ?_, hid, ?_, ?_⟩,
        hmirrors.enter ht hs₀ hbalanced m, hentered⟩
      · rw [List.append_assoc, List.cons_append]
      · rw [Account.follow_concat, hrun, ← ha]
      · rw [Account.posted_enter, hposted, List.filterMap_append]
        rw [List.filterMap_cons, List.filterMap_nil]
        cases m.postedTo? s₀.topic <;> rfl
    · exact ⟨.empty, ⟨ms, [], rfl, hid, rfl, rfl⟩, Account.mirrors_subscribe ht hid hqueue,
        Account.balanced_empty limit⟩

/-- A publication to its topic, its own receiver's taking or the return of a message of its own. -/
def Concerns (x : Exchange) (s : Subscription) : Move → Prop
  | .publish topic _ => s.topic = topic
  | .receive id => s.id = id
  | .nack k => ∃ message, x.delivery? k = some ⟨s.id, message⟩
  | .subscribe _ _ | .unsubscribe _ | .acknowledge _ => False

theorem queueAfter_of_not_concerns {x : Exchange} {s : Subscription} {m : Move}
    (hm : ¬ x.Concerns s m) : x.queueAfter s m = s.queue := by
  cases m with
  | subscribe | unsubscribe | acknowledge => rfl
  | publish topic payload => exact if_neg hm
  | receive id => exact if_neg hm
  | nack k =>
    rw [queueAfter]
    split
    · next d hd =>
      refine if_neg fun hown => hm ⟨d.message, ?_⟩
      rw [hd, ← hown.1]
    · rfl

/-- What the bus keeps of its promises to a live subscription after some moves. -/
structure Conserved (limit : Nat) (ms : List Move) (s : Subscription) : Prop where
  /-- Every message is in one place, with its payload and the attempt that is due; it is given up
  exactly if it was handed back once more than is allowed, and is delivered no more often. -/
  account : ∃ a : Account, a.Recounts limit ms s ∧ a.Mirrors ((start limit).run ms) s ∧
    a.Balanced limit ∧ ∀ n, (n ∈ a.dead.map (·.serial) ↔ a.nacked.count n = limit + 1) ∧
      (a.taken.map (·.serial)).count n ≤ limit + 1
  /-- The receiver gets the front of the queue. -/
  front : ∀ message rest, s.queue = message :: rest →
    (((start limit).run ms).move (.receive s.id)).delivery? ((start limit).run ms).handed.length =
      some ⟨s.id, message⟩
  /-- Until it is dropped, its queue changes as the moves want. -/
  queue : ∀ m, m ≠ .unsubscribe s.id → { s with queue := ((start limit).run ms).queueAfter s m } ∈
    (((start limit).run ms).move m).bus.subscriptions
  /-- It stays as it is while others are served. -/
  apart : ∀ m, m ≠ .unsubscribe s.id → ¬ ((start limit).run ms).Concerns s m →
    s ∈ (((start limit).run ms).move m).bus.subscriptions
  /-- A message that is handed back at the last attempt is reported as a dead letter, no other
  is. -/
  reported : ∀ k message, ((start limit).run ms).delivery? k = some ⟨s.id, message⟩ →
    (((start limit).run ms).bus.nack ⟨s.id, message⟩).2 =
      if message.attempt = limit then [.deadLetter (limit + 1) message.payload] else []
  /-- No other live subscription has its number, or its topic and group. -/
  number : (((start limit).run ms).bus.subscriptions.map (·.id)).count s.id = 1
  single : (((start limit).run ms).bus.subscriptions.map fun s => (s.topic, s.group)).count
    (s.topic, s.group) = 1

/-- No message is lost, doubled or changed on its way through the bus. -/
theorem messages_are_conserved (limit : Nat) (ms : List Move) (s : Subscription)
    (hs : s ∈ ((start limit).run ms).bus.subscriptions) : Conserved limit ms s := by
  have ht : ((start limit).run ms).Tidy := tidy_run limit ms
  have hlimit : ((start limit).run ms).bus.limit = limit := limit_run _ ms
  obtain ⟨a, hrecounts, hmirrors, hbalanced⟩ := account_run limit ms hs
  refine ⟨⟨a, hrecounts, hmirrors, hbalanced,
    fun n => ⟨hbalanced.mem_dead_iff n, hbalanced.count_taken_le n⟩⟩,
    fun message rest hq => ?_, fun m hm => ht.move_mem hs hm, fun m hm hc => ?_,
    fun k message hd => ?_, List.count_eq_one_of_mem ht.distinct (List.mem_map_of_mem hs),
    List.count_eq_one_of_mem ht.single (List.mem_map_of_mem hs)⟩
  · have hreceive := ht.receive hs
    rw [hq] at hreceive
    rw [move, hreceive]
    exact (delivery?_append _ _ _).trans (if_pos rfl)
  · have hstays := ht.move_mem hs hm
    rwa [queueAfter_of_not_concerns hc] at hstays
  · obtain ⟨n, hn⟩ := (hmirrors.held k message).1 hd
    obtain ⟨_, hattempt⟩ := hbalanced.held_attempt hn
    change message.attempt ≤ limit at hattempt
    rw [Bus.nack, hlimit]
    by_cases hlast : limit ≤ message.attempt
    · have heq := Nat.le_antisymm hattempt hlast
      rw [if_pos hlast, if_pos heq, heq]
    · rw [if_neg hlast, if_neg fun heq => hlast (Nat.le_of_eq heq.symm)]

/-- Of two equal payloads the first is handed back twice, the second is acknowledged; a group that
left hands back one that it held. -/
theorem messages_are_conserved_past_the_limit :
    let opening : List Move := [.subscribe "rows" "left", .publish "rows" [7], .receive 0,
      .unsubscribe 0]
    let rest : List Move := [.publish "rows" [7], .publish "rows" [7], .receive 1, .nack 1, .nack 0,
      .receive 1, .receive 1, .acknowledge 2, .nack 3, .publish "rows" [8]]
    let ms := opening ++ .subscribe "rows" "left" :: rest
    let s : Subscription := ⟨1, "rows", "left", [⟨[8], 0⟩]⟩
    s ∈ ((start 1).run ms).bus.subscriptions ∧ Conserved 1 ms s ∧
      Account.follow 1 "rows" ((start 1).run (opening ++ [.subscribe "rows" "left"])) .empty rest =
        { posted := [[7], [7], [8]]
          queue := [⟨2, ⟨[8], 0⟩⟩]
          held := []
          acknowledged := [⟨1, ⟨[7], 0⟩⟩]
          dead := [⟨0, ⟨[7], 1⟩⟩]
          nacked := [0, 0]
          joined := [⟨0, ⟨[7], 0⟩⟩, ⟨1, ⟨[7], 0⟩⟩, ⟨0, ⟨[7], 1⟩⟩, ⟨2, ⟨[8], 0⟩⟩]
          taken := [⟨0, ⟨[7], 0⟩⟩, ⟨1, ⟨[7], 0⟩⟩, ⟨0, ⟨[7], 1⟩⟩] } :=
  ⟨by decide, messages_are_conserved 1 _ _ (by decide), by decide⟩

end Exchange
end DualWrite
