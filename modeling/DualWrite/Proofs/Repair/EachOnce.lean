import DualWrite.Proofs.Event.Wire
import DualWrite.Proofs.Repair.Duty
import DualWrite.Proofs.Store.Holding

/-!
# Every event is repaired once

Whatever bytes are published among the events, a consumer has each event that names a store repaired
exactly once, in the order of publication; everything else is delivered once more than it may be
handed back and is gone. So the stores become what these repairs, one after the other, make of them.
-/
namespace DualWrite

/-- A consumer that was made waits, and it has a subscription of its own. -/
theorem Consumer.subscribed {b b' : Bus} {topic group : String} {src dst : Store} {c : Consumer}
    (h : make b topic group src dst = .ok (b', c)) :
    b.subscribe topic group = .ok (b', c.subscription) ∧ c.handling = .waiting ∧
    c.cancelled = false := by
  simp only [make, bind, Except.bind] at h
  split at h
  · cases h
  · split at h
    · cases h
    · split at h
      · cases h
      · next hsubscribe =>
        obtain ⟨rfl, rfl⟩ := Prod.mk.inj (Except.ok.inj h)
        exact ⟨hsubscribe, rfl, rfl⟩

theorem Exchange.Tidy.shows {x : Exchange} (hx : x.Tidy) {topic group : String} {b : Bus} {id : Nat}
    (h : x.bus.subscribe topic group = .ok (b, id)) :
    Account.empty.Shows x.bus.limit b id topic := by
  rw [Bus.subscribe] at h
  split at h
  · cases h
  · obtain ⟨rfl, rfl⟩ := Prod.mk.inj (Except.ok.inj h)
    refine ⟨rfl, ⟨x.bus.nextId, topic, group, []⟩, ?_, rfl, rfl⟩
    have hold : x.bus.subscriptions.find? (fun s => s.id = x.bus.nextId) = none :=
      List.find?_eq_none.2 fun s hs => by simpa using Nat.ne_of_lt (hx.below s hs)
    rw [Bus.find?, List.find?_append, hold]
    simp

namespace Duty
variable {limit : Nat} {c : Consumer} {n : Nat} {topic : String}
    {posts : List (List UInt8)} {k : Nat}
  {x : Duty} {a : Account} {h : Handling}

def Places (posts : List (List UInt8)) (x : Duty) (places : List Nat) : Prop :=
  places.map (posts[·]?) = x.given.map (some ·.payload)

/-- What a consumer has done when all that was published has been dealt with. -/
structure Discharged (limit : Nat) (c : Consumer) (n : Nat) (posts : List (List UInt8)) (x : Duty) :
    Prop where
  employed : x.world.consumers.lookup n = some c
  emptied : (x.world.bus.find? c.subscription).map (·.queue) = some []
  /-- An event that is understood was delivered once, everything else once more than the limit. -/
  deliveries : ∃ places, x.Places posts places ∧ ∀ i payload, posts[i]? = some payload →
    places.count i = Consumer.deliveriesFor limit payload
  /-- What is understood went to a fixer, each event once and in the order of publication. -/
  begun : x.begun = posts.filterMap Consumer.meaning?

namespace OnDuty
variable (hx : OnDuty limit c n topic posts k x a h)
include hx

theorem places : x.Places posts (a.taken.map (·.serial)) := by
  have htaken : ∀ l ∈ a.taken, posts[l.serial]? = some l.message.payload :=
    hx.posted ▸ hx.served.taken
  rw [Places, hx.given, List.map_map, List.map_map]
  exact List.map_congr_left htaken

theorem begun_prefix : x.begun <+: posts.filterMap Consumer.meaning? := by
  have horder := hx.served.order
  rw [List.filterMap_append, ← hx.begun, hx.posted, List.append_assoc] at horder
  exact ⟨_, horder⟩

theorem discharged (hwaiting : c.handling = .waiting) (hrest : x.Resting n) :
    Discharged limit c n posts x ∧ h.finish c x.world.store = x.world.store := by
  obtain ⟨rfl, hq⟩ := hx.resting_iff.1 hrest
  obtain ⟨s, hfound, _, hqueue⟩ := hx.shown.found
  refine ⟨⟨?_, ?_, ⟨_, hx.places, ?_⟩, ?_⟩, rfl⟩
  · rw [hx.employed, ← hwaiting]
  · rw [hfound, Option.map_some, hqueue, hq, List.map_nil]
  · intro i payload hi
    exact hx.served.count_taken_eq hq (hx.posted ▸ hi)
  · have horder := hx.served.order
    rw [hq, List.append_nil, ← hx.begun, hx.posted] at horder
    simpa [Handling.next?] using horder

end OnDuty
end Duty

namespace Consumer
variable {limit : Nat} {pre : List Exchange.Move} {topic group : String} {src dst : Store}
    {c : Consumer}
  {n : Nat} {w : World}

theorem onDuty_start (hmade : make ((Exchange.start limit).run pre).bus topic group src dst =
    .ok (w.bus, c))
    (hemployed : w.consumers.lookup n = some c) :
    Duty.OnDuty limit c n topic [] 0 (Duty.start w) .empty .waiting := by
  obtain ⟨hsubscribe, hwaiting, hrunning⟩ := subscribed hmade
  have hlimit : ((Exchange.start limit).run pre).bus.limit = limit := Exchange.limit_run _ pre
  refine ⟨hrunning, ?_, ?_, Account.served_empty limit, rfl, rfl, rfl, Nat.le_refl 0⟩
  · rw [← hwaiting]
    exact hemployed
  · have hshows := (Exchange.tidy_run limit pre).shows hsubscribe
    rwa [hlimit] at hshows

/-- Whatever is published to its topic and whatever becomes of the repairs: a consumer turns to a
fixer for the events that name a store, in the order of their publication, and for nothing else, and
is given no publication more often than is due to it. When nothing is published any more, it is at
rest after a number of turns that is known beforehand, and then each of these events has been
repaired once and everything else has been delivered once more than it may be handed back. If nobody
else changes the stores they have become what those repairs make of them. -/
theorem repairs_each_event_once
    (hmade : make ((Exchange.start limit).run pre).bus topic group src dst = .ok (w.bus, c))
    (hemployed : w.consumers.lookup n = some c) (ms : List Duty.Move) :
    let posts := Duty.posted topic ms
    let x := (Duty.start w).run n ms
    (x.begun <+: posts.filterMap meaning? ∧ ∃ places, x.Places posts places ∧
      ∀ i payload, posts[i]? = some payload → places.count i ≤ deliveriesFor limit payload) ∧
    (∀ rest, Duty.posted topic rest = [] →
      (posts.map (turnsFor limit)).sum ≤ rest.countP Duty.Move.isTurn → (x.run n rest).Resting n) ∧
    (x.Resting n → x.Discharged limit c n posts ∧ ((∀ d s, .write d s ∉ ms) →
      x.world.store = (posts.filterMap meaning?).foldl c.repair w.store)) := by
  intro posts x
  obtain ⟨a, h, hx, hsettles⟩ := (onDuty_start hmade hemployed).run ms
  rw [List.nil_append, Nat.zero_add] at hx
  refine ⟨⟨hx.begun_prefix, _, hx.places, ?_⟩, ?_, ?_⟩
  · intro i payload hi
    exact hx.served.count_taken_le (hx.posted ▸ hi)
  · intro rest hquiet henough
    obtain ⟨a', h', hy⟩ := hx.run_quiet hquiet
    exact hy.resting_iff.2 (hy.done (Nat.sub_eq_zero_of_le henough))
  · intro hrest
    obtain ⟨hdischarged, hsettled⟩ := hx.discharged (subscribed hmade).2.1 hrest
    refine ⟨hdischarged, fun hunwritten => ?_⟩
    rw [← hsettled, ← hdischarged.begun]
    exact hsettles hunwritten w.store rfl

theorem meaning?_encode {e : Event} (hmin : minInt ≤ e.id) (hmax : e.id ≤ maxInt) :
    meaning? e.encode = (Direction.ofText e.direction).toOption.map fun d => (e, d) := by
  rw [meaning?, Event.understand_eq hmin hmax]
  cases Direction.ofText e.direction <;> rfl

open Store in
/-- Bytes that say nothing and an event that names no store come twice each, for they may be handed
back once; they do not hold up the repairs of the rows 1 and 5. -/
theorem repairs_each_event_once_among_others :
    let one : Interactive := .plain 1 0
    let five : Interactive := .plain 5 0
    let src := Store.ofEntities "src" [one]
    let dst := Store.ofEntities "dst" [five]
    let fixer (base target : Direction) : Fixer := ⟨base, target, Interactive.columns⟩
    let c : Consumer := ⟨"inconsistency", 1, fixer .src .dst, fixer .dst .src, .waiting, false⟩
    let pre : List Exchange.Move := [.subscribe "inconsistency" "audit"]
    let w : World := { World.ofStores src dst with
      bus := ⟨1, [⟨0, "inconsistency", "audit", []⟩, ⟨1, "inconsistency", "repair", []⟩], 2⟩
      consumers := [(0, c)] }
    let noise : List UInt8 := [0xff]
    let stray : Event := ⟨1, "NORTH", .unequal⟩
    let missing : Event := ⟨1, "SRC", .targetMissing⟩
    let surplus : Event := ⟨5, "SRC", .baseMissing⟩
    let publish : List UInt8 → Duty.Move := .publish "inconsistency"
    let ms := [publish noise, publish missing.encode, .turn, publish stray.encode, .turn,
      publish surplus.encode] ++ List.replicate 10 .turn
    let x := (Duty.start w).run 0 ms
    make ((Exchange.start 1).run pre).bus "inconsistency" "repair" src dst = .ok (w.bus, c) ∧
      x.Resting 0 ∧ x.Discharged 1 c 0 [noise, missing.encode, stray.encode, surplus.encode] ∧
      x.begun = [(missing, .src), (surplus, .src)] ∧
      x.world.store = [(missing, .src), (surplus, .src)].foldl c.repair w.store := by
  intro one five src dst fixer c pre w noise stray missing surplus publish ms x
  have hmade : make ((Exchange.start 1).run pre).bus "inconsistency" "repair" src dst =
    .ok (w.bus, c) := by
    decide +kernel
  have hnoise : meaning? noise = none := by decide +kernel
  have hstray : meaning? stray.encode = none := by
    rw [meaning?_encode (by decide) (by decide)]
    rfl
  have hmissing : meaning? missing.encode = some (missing, .src) := by
    rw [meaning?_encode (by decide) (by decide)]
    rfl
  have hsurplus : meaning? surplus.encode = some (surplus, .src) := by
    rw [meaning?_encode (by decide) (by decide)]
    rfl
  have hmeanings : [noise, missing.encode, stray.encode, surplus.encode].filterMap meaning? =
      [(missing, .src), (surplus, .src)] := by
    simp [hnoise, hstray, hmissing, hsurplus]
  have hturns : ([noise, missing.encode, stray.encode, surplus.encode].map (turnsFor 1)).sum =
    10 := by
    simp [turnsFor, hnoise, hstray, hmissing, hsurplus]
  have hrest : x.Resting 0 := by
    obtain ⟨_, hrests, _⟩ := repairs_each_event_once hmade (n := 0) rfl
      [publish noise, publish missing.encode, .turn, publish stray.encode, .turn,
        publish surplus.encode]
    have henough := hrests (List.replicate 10 .turn) rfl (Nat.le_of_eq hturns)
    rwa [← Duty.run_append] at henough
  have hunwritten : ∀ d s, Duty.Move.write d s ∉ ms := by
    intro d s
    simp [ms, publish]
  obtain ⟨_, _, hend⟩ := repairs_each_event_once hmade (n := 0) rfl ms
  obtain ⟨hdischarged, hstores⟩ := hend hrest
  exact ⟨hmade, hrest, hdischarged, hdischarged.begun.trans hmeanings,
    hmeanings ▸ hstores hunwritten⟩

end Consumer
end DualWrite
