import DualWrite.Bus
import Mathlib.Data.List.Nodup

/-!
# The bus in use

Groups join topics and leave them, payloads are published, receivers take messages into their hands
and let go of them or hand them back. Here is what each of that does to the queue of each live
subscription: nothing, unless it is a publication to its topic, its own receiver's taking, or the
return of one of its own messages.
-/
namespace DualWrite

/-- A bus and the messages in the hands of its receivers, by their numbers. -/
structure Exchange where
  bus : Bus
  handed : List (Option Delivery)
deriving Repr, DecidableEq

namespace Exchange

inductive Move where
  | subscribe (topic group : String)
  | unsubscribe (id : Nat)
  | publish (topic : String) (payload : List UInt8)
  | receive (id : Nat)
  /-- A receiver lets go of a message. -/
  | acknowledge (k : Nat)
  | nack (k : Nat)
deriving Repr, DecidableEq

def Move.isMembership : Move → Bool
  | .subscribe _ _ | .unsubscribe _ => true
  | .publish _ _ | .receive _ | .acknowledge _ | .nack _ => false

def start (limit : Nat) : Exchange := ⟨.empty limit, []⟩

def delivery? (x : Exchange) (k : Nat) : Option Delivery := x.handed[k]?.join

def move (x : Exchange) : Move → Exchange
  | .subscribe topic group =>
    match x.bus.subscribe topic group with
    | .ok (b, _) => { x with bus := b }
    | .error _ => x
  | .unsubscribe id => { x with bus := x.bus.unsubscribe id }
  | .publish topic payload => { x with bus := x.bus.publish topic payload }
  | .receive id =>
    match x.bus.receive id with
    | some (b, d) => ⟨b, x.handed ++ [some d]⟩
    | none => x
  | .acknowledge k => { x with handed := x.handed.set k none }
  | .nack k =>
    match x.delivery? k with
    | some d => ⟨(x.bus.nack d).1, x.handed.set k none⟩
    | none => x

def run (x : Exchange) (ms : List Move) : Exchange := ms.foldl move x

theorem run_append (x : Exchange) (ms ns : List Move) : x.run (ms ++ ns) = (x.run ms).run ns :=
  List.foldl_append

theorem run_concat (x : Exchange) (ms : List Move) (m : Move) :
    x.run (ms ++ [m]) = (x.run ms).move m := x.run_append ms [m]

def queueAfter (x : Exchange) (s : Subscription) : Move → List Message
  | .publish topic payload => if s.topic = topic then s.queue ++ [⟨payload, 0⟩] else s.queue
  | .receive id => if s.id = id then s.queue.tail else s.queue
  | .nack k =>
    match x.delivery? k with
    | some d =>
      if d.subscription = s.id ∧ d.message.attempt < x.bus.limit then
        s.queue ++ [{ d.message with attempt := d.message.attempt + 1 }]
      else s.queue
    | none => s.queue
  | .subscribe _ _ | .unsubscribe _ | .acknowledge _ => s.queue

/-- Subscriptions have numbers of their own, and no group has joined a topic twice. -/
structure Tidy (x : Exchange) : Prop where
  distinct : (x.bus.subscriptions.map (·.id)).Nodup
  below : ∀ s ∈ x.bus.subscriptions, s.id < x.bus.nextId
  single : (x.bus.subscriptions.map fun s => (s.topic, s.group)).Nodup
  /-- What is in somebody's hands came from a subscription of its time. -/
  handed : ∀ k d, x.delivery? k = some d → d.subscription < x.bus.nextId

theorem tidy_start (limit : Nat) : (start limit).Tidy :=
  ⟨List.nodup_nil, nofun, List.nodup_nil, nofun⟩

variable {x : Exchange}

theorem delivery?_set (k k' : Nat) :
    ({ x with handed := x.handed.set k none } : Exchange).delivery? k' =
    if k' = k then none else x.delivery? k' := by
  simp only [delivery?, List.getElem?_set]
  by_cases h : k' = k
  · subst h
    rw [if_pos rfl, if_pos rfl]
    split <;> rfl
  · rw [if_neg (Ne.symm h), if_neg h]

/-- A message that is handed back is in nobody's hands, as one that is let go of. -/
theorem delivery?_nack (k k' : Nat) :
    (x.move (.nack k)).delivery? k' = if k' = k then none else x.delivery? k' := by
  rw [move]
  cases hd : x.delivery? k with
  | none =>
    by_cases hk : k' = k
    · rw [if_pos hk, hk]
      exact hd
    · exact (if_neg hk).symm
  | some d => exact delivery?_set k k'

theorem delivery?_append (b : Bus) (d : Delivery) (k : Nat) :
    (⟨b, x.handed ++ [some d]⟩ : Exchange).delivery? k =
      if k = x.handed.length then some d else x.delivery? k := by
  simp only [delivery?, List.getElem?_append]
  split
  · next h => rw [if_neg (Nat.ne_of_lt h)]
  · next h =>
    rw [List.getElem?_eq_none (Nat.not_lt.1 h)]
    rcases Nat.eq_or_lt_of_le (Nat.not_lt.1 h) with rfl | h
    · simp
    · rw [if_neg (Nat.ne_of_gt h), List.getElem?_eq_none (by simp; omega)]

namespace Tidy
variable (h : x.Tidy)
include h

theorem eq_of_id {s s' : Subscription} (hs : s ∈ x.bus.subscriptions)
    (hs' : s' ∈ x.bus.subscriptions)
    (hid : s'.id = s.id) : s' = s :=
  List.inj_on_of_nodup_map h.distinct hs' hs hid

theorem find? {s : Subscription} (hs : s ∈ x.bus.subscriptions) : x.bus.find? s.id = some s := by
  cases hf : x.bus.find? s.id with
  | none =>
    have hnone := List.find?_eq_none.1 hf s hs
    simp at hnone
  | some s' =>
    have hid : s'.id = s.id := by simpa using List.find?_some hf
    rw [h.eq_of_id hs (List.mem_of_find?_eq_some hf) hid]

theorem receive {s : Subscription} (hs : s ∈ x.bus.subscriptions) : x.bus.receive s.id =
    match s.queue with
    | [] => none
    | m :: rest => some (x.bus.mapQueue s.id fun _ => rest, ⟨s.id, m⟩) := by
  rw [Bus.receive, h.find? hs, Option.map_some]
  cases s.queue <;> rfl

end Tidy

theorem receive_absent {id : Nat} (h : ∀ s ∈ x.bus.subscriptions, s.id ≠ id) :
    x.bus.receive id = none := by
  have hnone : x.bus.find? id = none := List.find?_eq_none.2 fun s hs => by simpa using h s hs
  rw [Bus.receive, hnone]
  rfl

theorem subscription_of_receive {b b' : Bus} {id : Nat} {d : Delivery}
    (h : b.receive id = some (b', d)) : d.subscription = id := by
  rw [Bus.receive] at h
  split at h <;> cases h
  rfl

/-- What is done beside the coming and going of groups touches no more than queues. -/
theorem Tidy.subscriptions_move (h : x.Tidy) {m : Move} (hm : m.isMembership = false) :
    (x.move m).bus.subscriptions =
      x.bus.subscriptions.map fun s => { s with queue := x.queueAfter s m } := by
  have hsame : (∀ s ∈ x.bus.subscriptions, x.queueAfter s m = s.queue) →
      x.bus.subscriptions =
      x.bus.subscriptions.map fun s => { s with queue := x.queueAfter s m } := by
    intro hall
    refine (List.map_id x.bus.subscriptions).symm.trans (List.map_congr_left fun s hs => ?_)
    rw [hall s hs]
    rfl
  cases m with
  | subscribe | unsubscribe => cases hm
  | acknowledge k => exact hsame fun _ _ => rfl
  | publish topic payload =>
    refine List.map_congr_left fun s _ => ?_
    rw [queueAfter]
    split <;> rfl
  | receive id =>
    by_cases hfound : ∃ s ∈ x.bus.subscriptions, s.id = id
    · obtain ⟨s, hs, rfl⟩ := hfound
      have hreceive := h.receive hs
      rw [move]
      cases hq : s.queue with
      | nil =>
        rw [hq] at hreceive
        rw [hreceive]
        refine hsame fun s' hs' => ?_
        rw [queueAfter]
        split
        · next hid => rw [h.eq_of_id hs hs' hid, hq, List.tail_nil]
        · rfl
      | cons m rest =>
        rw [hq] at hreceive
        rw [hreceive]
        refine List.map_congr_left fun s' hs' => ?_
        rw [queueAfter]
        split
        · next hid => rw [h.eq_of_id hs hs' hid, hq, List.tail_cons]
        · rfl
    · have habsent : ∀ s ∈ x.bus.subscriptions, s.id ≠ id := fun s hs hid => hfound ⟨s, hs, hid⟩
      rw [move, receive_absent habsent]
      exact hsame fun s hs => if_neg (habsent s hs)
  | nack k =>
    rw [move]
    cases hd : x.delivery? k with
    | none =>
      refine hsame fun s _ => ?_
      rw [queueAfter, hd]
    | some d =>
      change (x.bus.nack d).1.subscriptions = _
      rw [Bus.nack]
      split
      · next hlimit =>
        refine hsame fun s _ => ?_
        simp only [queueAfter, hd]
        exact if_neg fun hc => Nat.not_lt.2 hlimit hc.2
      · next hlimit =>
        refine List.map_congr_left fun s _ => ?_
        simp only [queueAfter, hd]
        by_cases hid : s.id = d.subscription
        · rw [if_pos hid, if_pos ⟨hid.symm, Nat.not_le.1 hlimit⟩]
        · rw [if_neg hid, if_neg fun hc => hid hc.1.symm]

theorem frame_move (x : Exchange) (m : Move) :
    (x.move m).bus.limit = x.bus.limit ∧ x.bus.nextId ≤ (x.move m).bus.nextId := by
  have hsame : x.bus.limit = x.bus.limit ∧ x.bus.nextId ≤ x.bus.nextId := ⟨rfl, Nat.le_refl _⟩
  cases m with
  | subscribe topic group =>
    rw [move, Bus.subscribe]
    split
    · next hj =>
      split at hj <;> cases hj
      exact ⟨rfl, Nat.le_succ _⟩
    · exact hsame
  | receive id =>
    rw [move, Bus.receive]
    split
    · next hr =>
      split at hr <;> cases hr
      exact hsame
    · exact hsame
  | nack k =>
    rw [move]
    split
    · rw [Bus.nack]
      split <;> exact hsame
    · exact hsame
  | _ => exact hsame

theorem limit_run (x : Exchange) (ms : List Move) : (x.run ms).bus.limit = x.bus.limit := by
  induction ms generalizing x with
  | nil => rfl
  | cons m ms ih => exact (ih (x.move m)).trans (x.frame_move m).1

theorem subscriptions_subscribe (x : Exchange) (topic group : String) :
    (x.move (.subscribe topic group)).bus.subscriptions = x.bus.subscriptions ∨
      (∀ s ∈ x.bus.subscriptions, ¬ (s.topic = topic ∧ s.group = group)) ∧
      (x.move (.subscribe topic group)).bus.subscriptions =
        x.bus.subscriptions ++ [⟨x.bus.nextId, topic, group, []⟩] ∧
      (x.move (.subscribe topic group)).bus.nextId = x.bus.nextId + 1 := by
  rw [move, Bus.subscribe]
  by_cases hany : (x.bus.subscriptions.any fun s => s.topic = topic && s.group = group) = true
  · rw [if_pos hany]
    exact .inl rfl
  · rw [if_neg hany]
    refine .inr ⟨fun s hs hboth => hany (List.any_eq_true.2 ⟨s, hs, ?_⟩), rfl, rfl⟩
    simpa using hboth

/-- A subscription that is live after a move was live before, and its queue has changed as the move
wants, or the move has made it. -/
theorem Tidy.mem_move (h : x.Tidy) {m : Move} {s' : Subscription}
    (hs' : s' ∈ (x.move m).bus.subscriptions) :
    (∃ s ∈ x.bus.subscriptions, s' = { s with queue := x.queueAfter s m }) ∨
      m = .subscribe s'.topic s'.group ∧ s'.id = x.bus.nextId ∧ s'.queue = [] := by
  cases m with
  | subscribe topic group =>
    rcases x.subscriptions_subscribe topic group with he | ⟨_, he, _⟩
    · rw [he] at hs'
      exact .inl ⟨s', hs', rfl⟩
    · rw [he] at hs'
      rcases List.mem_append.1 hs' with hs' | hs'
      · exact .inl ⟨s', hs', rfl⟩
      · obtain rfl := List.mem_singleton.1 hs'
        exact .inr ⟨rfl, rfl, rfl⟩
  | unsubscribe id => exact .inl ⟨s', (List.mem_filter.1 hs').1, rfl⟩
  | _ =>
    rw [h.subscriptions_move rfl] at hs'
    obtain ⟨s, hs, rfl⟩ := List.mem_map.1 hs'
    exact .inl ⟨s, hs, rfl⟩

/-- Until it is dropped, a subscription stays, and its queue changes as the moves want. -/
theorem Tidy.move_mem (h : x.Tidy) {m : Move} {s : Subscription} (hs : s ∈ x.bus.subscriptions)
    (hm : m ≠ .unsubscribe s.id) :
    { s with queue := x.queueAfter s m } ∈ (x.move m).bus.subscriptions := by
  cases m with
  | subscribe topic group =>
    rcases x.subscriptions_subscribe topic group with he | ⟨_, he, _⟩
    · rw [he]
      exact hs
    · rw [he]
      exact List.mem_append_left _ hs
  | unsubscribe id =>
    refine List.mem_filter.2 ⟨hs, decide_eq_true fun hid => hm ?_⟩
    rw [← hid]
  | _ =>
    rw [h.subscriptions_move rfl]
    exact List.mem_map_of_mem hs

/-- What a move leaves in somebody's hands was there before, or has been taken from a queue. -/
theorem delivery?_move (x : Exchange) (m : Move) {k : Nat} {d : Delivery}
    (hd : (x.move m).delivery? k = some d) : x.delivery? k = some d ∨
      ∃ b, x.bus.receive d.subscription = some (b, d) ∧ m = .receive d.subscription := by
  cases m with
  | subscribe topic group =>
    rw [move] at hd
    split at hd <;> exact .inl hd
  | unsubscribe | publish => exact .inl hd
  | acknowledge k' =>
    rw [move, delivery?_set] at hd
    split at hd
    · cases hd
    · exact .inl hd
  | nack k' =>
    rw [delivery?_nack] at hd
    split at hd
    · cases hd
    · exact .inl hd
  | receive id =>
    rw [move] at hd
    split at hd
    · next b d' hr =>
      rw [delivery?_append] at hd
      split at hd
      · obtain rfl := Option.some.inj hd
        obtain rfl := subscription_of_receive hr
        exact .inr ⟨b, hr, rfl⟩
      · exact .inl hd
    · exact .inl hd

theorem Tidy.move (h : x.Tidy) (m : Move) : (x.move m).Tidy := by
  obtain ⟨_, hnext⟩ := x.frame_move m
  have hhanded : ∀ k d, (x.move m).delivery? k = some d →
    d.subscription < (x.move m).bus.nextId := by
    intro k d hd
    refine Nat.lt_of_lt_of_le ?_ hnext
    rcases x.delivery?_move m hd with hd | ⟨b, hr, _⟩
    · exact h.handed k d hd
    · by_contra hlarge
      have habsent : ∀ s ∈ x.bus.subscriptions, s.id ≠ d.subscription :=
        fun s hs hid => hlarge (hid ▸ h.below s hs)
      rw [receive_absent habsent] at hr
      cases hr
  cases m with
  | subscribe topic group =>
    rcases x.subscriptions_subscribe topic group with he | ⟨hnew, he, hnext'⟩
    · refine ⟨?_, fun s hs => ?_, ?_, hhanded⟩
      · rw [he]
        exact h.distinct
      · rw [he] at hs
        exact Nat.lt_of_lt_of_le (h.below s hs) hnext
      · rw [he]
        exact h.single
    · refine ⟨?_, fun s hs => ?_, ?_, hhanded⟩
      · rw [he, List.map_append]
        refine h.distinct.append (List.nodup_singleton _) fun i hi hi' => ?_
        obtain ⟨s, hs, rfl⟩ := List.mem_map.1 hi
        exact Nat.ne_of_lt (h.below s hs) (List.mem_singleton.1 hi')
      · rw [he] at hs
        rw [hnext']
        rcases List.mem_append.1 hs with hs | hs
        · exact Nat.lt_succ_of_lt (h.below s hs)
        · rw [List.mem_singleton.1 hs]
          exact Nat.lt_succ_self _
      · rw [he, List.map_append]
        refine h.single.append (List.nodup_singleton _) fun place hp hp' => ?_
        obtain ⟨s, hs, rfl⟩ := List.mem_map.1 hp
        exact hnew s hs (Prod.mk.inj (List.mem_singleton.1 hp'))
  | unsubscribe id =>
    have hsub : (x.move (.unsubscribe id)).bus.subscriptions.Sublist x.bus.subscriptions :=
      List.filter_sublist
    exact ⟨h.distinct.sublist (hsub.map _), fun s hs => h.below s (hsub.subset hs),
      h.single.sublist (hsub.map _), hhanded⟩
  | _ =>
    refine ⟨?_, fun s hs => ?_, ?_, hhanded⟩
    · rw [h.subscriptions_move rfl, List.map_map]
      exact h.distinct
    · rw [h.subscriptions_move rfl] at hs
      obtain ⟨s₀, hs₀, rfl⟩ := List.mem_map.1 hs
      exact Nat.lt_of_lt_of_le (h.below s₀ hs₀) hnext
    · rw [h.subscriptions_move rfl, List.map_map]
      exact h.single

theorem tidy_run (limit : Nat) (ms : List Move) : ((start limit).run ms).Tidy := by
  have hall : ∀ {x : Exchange}, x.Tidy → ∀ ms, (x.run ms).Tidy := by
    intro x h ms
    induction ms generalizing x with
    | nil => exact h
    | cons m ms ih => exact ih (h.move m)
  exact hall (tidy_start limit) ms

end Exchange
end DualWrite
