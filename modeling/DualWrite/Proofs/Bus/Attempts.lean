import DualWrite.Proofs.Bus.Exchange
import DualWrite.Repair.Consumer
import DualWrite.Settings.Load
import Mathlib.Data.List.Induction

/-!
# Attempts as numbers of thirty-two bits

A message carries how often it was handed back, and the bus keeps that from passing the limit: the
guard stands before the increment. What is told of a message is one more, the number of its
deliveries, and no guard stands before that sum. So the counter fits whatever the limit is, and the
numbers that are told fit exactly if the limit is not the largest number that settings can hold.
-/
namespace DualWrite

def Notice.deliveries : Notice → List Nat
  | .messageFailed _ n _ => [n]
  | .deadLetter n _ => [n]
  | _ => []

theorem Bus.nack_last {b : Bus} {d : Delivery} (h : b.limit ≤ d.message.attempt) :
    b.nack d = (b, [.deadLetter (d.message.attempt + 1) d.message.payload]) := if_pos h

theorem Bus.nack_again {b : Bus} {d : Delivery} (h : d.message.attempt < b.limit) : b.nack d =
    (b.mapQueue d.subscription fun q => q ++ [{ d.message with attempt := d.message.attempt + 1 }],
      []) :=
  if_neg (Nat.not_le.2 h)

theorem Bus.nack_deliveries {b : Bus} {d : Delivery} {notice : Notice}
    (hnotice : notice ∈ (b.nack d).2)
    {n : Nat} (hn : n ∈ notice.deliveries) : n = d.message.attempt + 1 := by
  rcases Nat.lt_or_ge d.message.attempt b.limit with hmore | hlast
  · rw [nack_again hmore] at hnotice
    cases hnotice
  · rw [nack_last hlast] at hnotice
    rw [List.mem_singleton.1 hnotice] at hn
    exact List.mem_singleton.1 hn

theorem Bus.mem_of_receive {b b' : Bus} {id : Nat} {d : Delivery}
    (h : b.receive id = some (b', d)) : ∃ s ∈ b.subscriptions, d.message ∈ s.queue := by
  rw [Bus.receive] at h
  split at h
  · next m rest hqueue =>
    obtain ⟨s, hs, hq⟩ := Option.map_eq_some_iff.1 hqueue
    cases h
    exact ⟨s, List.mem_of_find?_eq_some hs, hq ▸ List.mem_cons_self⟩
  · cases h

/-- A consumer that takes a message goes to work and tells nothing, or hands the message back and
tells which delivery of it has failed, before whatever the bus tells. -/
theorem Consumer.exists_receive_of_take {c c' : Consumer} {b b' : Bus} {notices : List Notice}
    (h : c.take b = some (c', b', notices)) : ∃ rest d, b.receive c.subscription = some (rest, d) ∧
      (b' = rest ∧ notices = [] ∨ b' = (rest.nack d).1 ∧
        ∃ err, notices = .messageFailed c.topic (d.message.attempt + 1) err ::
          (rest.nack d).2) := by
  rw [Consumer.take] at h
  split at h
  · cases h
  · next rest d hreceive =>
    refine ⟨rest, d, hreceive, ?_⟩
    split at h
    · cases h
      exact .inl ⟨rfl, rfl⟩
    · cases h
      exact .inr ⟨rfl, _, rfl⟩

namespace Exchange

/-- What a consumer does to a bus can be done by moves. -/
theorem exists_run_of_take {x : Exchange} {c c' : Consumer} {b : Bus} {notices : List Notice}
    (h : c.take x.bus = some (c', b, notices)) : ∃ ms, (x.run ms).bus = b := by
  obtain ⟨rest, d, hreceive, ⟨rfl, _⟩ | ⟨rfl, _⟩⟩ := Consumer.exists_receive_of_take h
  · exact ⟨[.receive c.subscription], by simp [run, move, hreceive]⟩
  · have hlast : (⟨rest, x.handed ++ [some d]⟩ : Exchange).delivery? x.handed.length = some d := by
      rw [delivery?_append, if_pos rfl]
    exact ⟨[.receive c.subscription, .nack x.handed.length], by simp [run, move, hreceive, hlast]⟩

/-- No message has been handed back more often than the limit allows. -/
structure Bounded (x : Exchange) : Prop where
  queued : ∀ s ∈ x.bus.subscriptions, ∀ m ∈ s.queue, m.attempt ≤ x.bus.limit
  handed : ∀ k d, x.delivery? k = some d → d.message.attempt ≤ x.bus.limit

variable {x : Exchange}

theorem bounded_start (limit : Nat) : (start limit).Bounded := ⟨nofun, nofun⟩

theorem Bounded.queueAfter (h : x.Bounded) {s : Subscription}
    (hs : s ∈ x.bus.subscriptions) (m : Move)
    {message : Message} (hm : message ∈ x.queueAfter s m) : message.attempt ≤ x.bus.limit := by
  have hkept := h.queued s hs message
  cases m with
  | subscribe | unsubscribe | acknowledge => exact hkept hm
  | receive id =>
    rw [Exchange.queueAfter] at hm
    split at hm
    · exact hkept (List.mem_of_mem_tail hm)
    · exact hkept hm
  | publish topic payload =>
    rw [Exchange.queueAfter] at hm
    split at hm
    · rcases List.mem_append.1 hm with hm | hm
      · exact hkept hm
      · rw [List.mem_singleton.1 hm]
        exact Nat.zero_le _
    · exact hkept hm
  | nack k =>
    rw [Exchange.queueAfter] at hm
    split at hm
    · next d hd =>
      split at hm
      · next hmore =>
        rcases List.mem_append.1 hm with hm | hm
        · exact hkept hm
        · rw [List.mem_singleton.1 hm]
          exact hmore.2
      · exact hkept hm
    · exact hkept hm

theorem Bounded.move (h : x.Bounded) (ht : x.Tidy) (m : Move) : (x.move m).Bounded := by
  have hlimit := (x.frame_move m).1
  refine ⟨fun s' hs' message hm => ?_, fun k d hd => ?_⟩
  · rw [hlimit]
    rcases ht.mem_move hs' with ⟨s, hs, rfl⟩ | ⟨_, _, hempty⟩
    · exact h.queueAfter hs m hm
    · rw [hempty] at hm
      cases hm
  · rw [hlimit]
    rcases x.delivery?_move m hd with hd | ⟨b, hreceive, _⟩
    · exact h.handed k d hd
    · obtain ⟨s, hs, hmem⟩ := Bus.mem_of_receive hreceive
      exact h.queued s hs _ hmem

theorem bounded_run (limit : Nat) (ms : List Move) : ((start limit).run ms).Bounded := by
  induction ms using List.reverseRecOn with
  | nil => exact bounded_start limit
  | append_singleton ms m ih =>
    rw [run_concat]
    exact ih.move (tidy_run limit ms) m

/-- The attempts that messages carry fit into thirty-two bits, also the next one of a message that
is to be queued again, whether or not its queue is still there. -/
structure CountersFit (x : Exchange) : Prop where
  queued : ∀ s ∈ x.bus.subscriptions, ∀ m ∈ s.queue, m.attempt < UInt32.size
  handed : ∀ k d, x.delivery? k = some d → d.message.attempt < UInt32.size ∧
    (d.message.attempt < x.bus.limit → d.message.attempt + 1 < UInt32.size)

/-- The numbers of deliveries that the bus tells of a message that is handed back, and those that a
consumer of any subscription tells of a message that it cannot handle. -/
structure ReportsFit (x : Exchange) : Prop where
  dropped : ∀ k d, x.delivery? k = some d → ∀ notice ∈ (x.bus.nack d).2, ∀ n ∈ notice.deliveries,
    n < UInt32.size
  failed : ∀ c c' b notices, Consumer.take c x.bus = some (c', b, notices) → ∀ notice ∈ notices,
    ∀ n ∈ notice.deliveries, n < UInt32.size

theorem Bounded.countersFit (h : x.Bounded) (hlimit : x.bus.limit < UInt32.size) : x.CountersFit :=
  ⟨fun s hs m hm => Nat.lt_of_le_of_lt (h.queued s hs m hm) hlimit, fun k d hd =>
    ⟨Nat.lt_of_le_of_lt (h.handed k d hd) hlimit, fun hmore => Nat.lt_of_le_of_lt hmore hlimit⟩⟩

theorem Bounded.reportsFit (h : x.Bounded) (hlimit : x.bus.limit + 1 < UInt32.size) :
    x.ReportsFit := by
  refine ⟨fun k d hd notice hnotice n hn => ?_, fun c c' b notices ht notice hnotice n hn => ?_⟩
  · rw [Bus.nack_deliveries hnotice hn]
    exact Nat.lt_of_le_of_lt (Nat.succ_le_succ (h.handed k d hd)) hlimit
  · obtain ⟨rest, d, hreceive, ⟨_, rfl⟩ | ⟨_, err, rfl⟩⟩ := Consumer.exists_receive_of_take ht
    · cases hnotice
    · obtain ⟨s, hs, hmem⟩ := Bus.mem_of_receive hreceive
      have hcount : n = d.message.attempt + 1 := by
        rcases List.mem_cons.1 hnotice with rfl | hnotice
        · exact List.mem_singleton.1 hn
        · exact Bus.nack_deliveries hnotice hn
      rw [hcount]
      exact Nat.lt_of_le_of_lt (Nat.succ_le_succ (h.queued s hs _ hmem)) hlimit

/-- A group joins a topic, one message is published, and its receiver hands it back so many
times. -/
def handBacks (payload : List UInt8) : Nat → List Move
  | 0 => [.subscribe "rows" "mend", .publish "rows" payload]
  | n + 1 => handBacks payload n ++ [.receive 0, .nack n]

def returned (limit : Nat) (payload : List UInt8) (n : Nat) : Exchange :=
  ⟨⟨limit, [⟨0, "rows", "mend", [⟨payload, n⟩]⟩], 1⟩, List.replicate n none⟩

def retaken (limit : Nat) (payload : List UInt8) (n : Nat) : Exchange :=
  ⟨⟨limit, [⟨0, "rows", "mend", []⟩], 1⟩, List.replicate n none ++ [some ⟨0, ⟨payload, n⟩⟩]⟩

section
variable (limit : Nat) (payload : List UInt8) (n : Nat)

theorem receive_returned : (returned limit payload n).bus.receive 0 =
    some ((retaken limit payload n).bus, ⟨0, ⟨payload, n⟩⟩) := rfl

theorem delivery?_retaken : (retaken limit payload n).delivery? n = some ⟨0, ⟨payload, n⟩⟩ := by
  simp [delivery?, retaken]

theorem nack_retaken (h : n < limit) :
    (retaken limit payload n).move (.nack n) = returned limit payload (n + 1) := by
  have hset : (retaken limit payload n).handed.set n none = List.replicate (n + 1) none := by
    rw [retaken, List.set_append_right _ _ (by simp), List.length_replicate, Nat.sub_self,
      List.replicate_succ']
    rfl
  have hmore : (retaken limit payload n).bus.nack ⟨0, ⟨payload, n⟩⟩ =
      ((returned limit payload (n + 1)).bus, []) := Bus.nack_again h
  simp only [move, delivery?_retaken, hmore, hset]
  rfl

/-- Up to the limit the message joins its queue again, one attempt further. -/
theorem run_handBacks (h : n ≤ limit) :
    (start limit).run (handBacks payload n) = returned limit payload n := by
  induction n with
  | zero => rfl
  | succ n ih =>
    have htwo : (returned limit payload n).run [.receive 0, .nack n] =
        (retaken limit payload n).move (.nack n) := rfl
    rw [handBacks, run_append, ih (Nat.le_of_lt h), htwo, nack_retaken limit payload n h]

/-- At the limit the bus drops the message and tells one delivery more. -/
theorem nack_retaken_limit : (retaken limit payload limit).bus.nack ⟨0, ⟨payload, limit⟩⟩ =
    ((retaken limit payload limit).bus, [.deadLetter (limit + 1) payload]) :=
  Bus.nack_last (Nat.le_refl limit)

theorem take_returned_limit {c : Consumer} (hc : c.subscription = 0) {err : Error}
    (herr : Consumer.understand payload = .error err) : c.take (returned limit payload limit).bus =
      some (c, (retaken limit payload limit).bus,
        [.messageFailed c.topic (limit + 1) err, .deadLetter (limit + 1) payload]) := by
  simp only [Consumer.take, hc, receive_returned, herr, nack_retaken_limit]

end

/-- Whatever the settings are, no run of the bus takes the counter of a message, or the sum by which
it grows, beyond thirty-two bits. The numbers of deliveries that the bus and its consumers tell stay
within thirty-two bits in every run exactly if the limit is not the largest number. -/
theorem attempts_fit_below_the_largest_limit (s : Settings) :
    (∀ ms, ((start s.maxRedeliveries.toNat).run ms).CountersFit) ∧
      ((∀ ms, ((start s.maxRedeliveries.toNat).run ms).ReportsFit) ↔
        s.maxRedeliveries ≠ 4294967295) := by
  have hbound := s.maxRedeliveries.toNat_lt
  have hlimit : ∀ ms, ((start s.maxRedeliveries.toNat).run ms).bus.limit =
    s.maxRedeliveries.toNat :=
    fun ms => limit_run _ ms
  refine ⟨fun ms => (bounded_run _ ms).countersFit (by rw [hlimit]; exact hbound),
    fun hfit he => ?_, fun hne ms => (bounded_run _ ms).reportsFit ?_⟩
  · have hrun : (start s.maxRedeliveries.toNat).run (handBacks [] s.maxRedeliveries.toNat ++
      [.receive 0]) =
        retaken s.maxRedeliveries.toNat [] s.maxRedeliveries.toNat := by
      rw [run_concat, run_handBacks _ _ _ (Nat.le_refl _)]
      rfl
    have hdropped := (hfit _).dropped s.maxRedeliveries.toNat _
      (by rw [hrun]; exact delivery?_retaken ..)
    rw [hrun, nack_retaken_limit] at hdropped
    have hsum := hdropped _ (List.mem_singleton_self _) _ (List.mem_singleton_self _)
    have htop : s.maxRedeliveries.toNat = 4294967295 := congrArg UInt32.toNat he
    rw [htop] at hsum
    exact absurd hsum (by decide)
  · have htop : s.maxRedeliveries.toNat ≠ 4294967295 := fun he => hne (UInt32.toNat_inj.1 he)
    rw [hlimit]
    change _ < 4294967296
    omega

/-- The largest limit can be configured. A message that its consumer cannot read is then delivered
once more than thirty-two bits can tell: by then it has been handed back as often as the limit
allows. -/
theorem largest_limit_leaves_no_room_for_reports :
    let s := (Settings.load (some "[migrator]\nmax_redeliveries = 4294967295\n") []).1
    let x := (start s.maxRedeliveries.toNat).run (handBacks [120] 4294967295)
    let c : Consumer := ⟨"rows", 0, ⟨.src, .dst, []⟩, ⟨.dst, .src, []⟩, .waiting, false⟩
    s.maxRedeliveries = 4294967295 ∧
      c.take x.bus = some (c, (retaken 4294967295 [120] 4294967295).bus,
        [.messageFailed "rows" 4294967296 (.json ⟨.noValue, 1, 1, []⟩),
          .deadLetter 4294967296 [120]]) ∧
      ¬ x.ReportsFit := by
  intro s x c
  have hmax : s.maxRedeliveries = 4294967295 := by decide +kernel
  have hx : x = returned 4294967295 [120] 4294967295 := by
    have htop : s.maxRedeliveries.toNat = 4294967295 := by
      rw [hmax]
      rfl
    rw [show x = (start s.maxRedeliveries.toNat).run (handBacks [120] 4294967295) from rfl, htop]
    exact run_handBacks _ _ _ (Nat.le_refl _)
  have herr : Consumer.understand [120] = .error (.json ⟨.noValue, 1, 1, []⟩) := by decide +kernel
  have htake := take_returned_limit 4294967295 [120] (c := c) rfl herr
  rw [← hx] at htake
  refine ⟨hmax, htake, fun hfit => ?_⟩
  have hsum := hfit.failed _ _ _ _ htake _ List.mem_cons_self 4294967296 (List.mem_singleton_self _)
  exact absurd hsum (by decide)

end Exchange
end DualWrite
