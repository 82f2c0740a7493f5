import DualWrite.Proofs.Control.Migration
import DualWrite.Proofs.Event.Wire
import DualWrite.Proofs.Store.Holding
import DualWrite.Session.Vocabulary

/-!
# Repairs and the primary store

A run keeps the base that it was started on, and an event the name of that base, while the pattern
moves on. A repair writes the store that its event does not name. So as long as a store is primary,
only what is left over from the time before can turn a repair against it.
-/
namespace DualWrite

namespace Bus
variable {P : List UInt8 → Prop} {b : Bus}

def All (b : Bus) (P : List UInt8 → Prop) : Prop :=
  ∀ s ∈ b.subscriptions, ∀ m ∈ s.queue, P m.payload

namespace All
variable (h : b.All P)
include h

theorem publish (topic : String) {payload : List UInt8} (hp : P payload) :
    (b.publish topic payload).All P := by
  intro s hs m hm
  obtain ⟨s₀, hs₀, rfl⟩ := List.mem_map.1 hs
  split at hm
  · rcases List.mem_append.1 hm with hm | hm
    · exact h s₀ hs₀ m hm
    · rw [List.mem_singleton.1 hm]
      exact hp
  · exact h s₀ hs₀ m hm

theorem mapQueue (id : Nat) {f : List Message → List Message}
    (hf : ∀ q, (∀ m ∈ q, P m.payload) → ∀ m ∈ f q, P m.payload) : (b.mapQueue id f).All P := by
  intro s hs m hm
  obtain ⟨s₀, hs₀, rfl⟩ := List.mem_map.1 hs
  split at hm
  · exact hf _ (h s₀ hs₀) m hm
  · exact h s₀ hs₀ m hm

theorem unsubscribe (id : Nat) : (b.unsubscribe id).All P :=
  fun s hs => h s (List.mem_filter.1 hs).1

theorem receive {id : Nat} {b' : Bus} {d : Delivery} (hr : b.receive id = some (b', d)) :
    P d.message.payload ∧ b'.All P := by
  rw [Bus.receive] at hr
  split at hr
  · next m rest hq =>
    obtain ⟨rfl, rfl⟩ := Prod.mk.inj (Option.some.inj hr)
    obtain ⟨s, hs, hqueue⟩ := Option.map_eq_some_iff.1 hq
    have hall : ∀ m' ∈ m :: rest, P m'.payload := hqueue ▸ h s (List.mem_of_find?_eq_some hs)
    obtain ⟨hm, hrest⟩ := List.forall_mem_cons.1 hall
    exact ⟨hm, h.mapQueue id fun _ _ => hrest⟩
  · cases hr

theorem nack {d : Delivery} (hd : P d.message.payload) : (b.nack d).1.All P := by
  rw [Bus.nack]
  split
  · exact h
  · refine h.mapQueue _ fun q hq m hm => ?_
    rcases List.mem_append.1 hm with hm | hm
    · exact hq m hm
    · rw [List.mem_singleton.1 hm]
      exact hd

end All
end Bus

namespace Handling

def atHand? : Handling → Option (Event × Direction)
  | .waiting => none
  | .reading e d | .writing e d _ => some (e, d)

end Handling

namespace Consumer

/-- A consumer takes a payload that was queued, and hands back what it does not understand. -/
theorem take_cases {P : List UInt8 → Prop} {c c' : Consumer} {b b' : Bus} {ns : List Notice}
    (h : b.All P) (ht : c.take b = some (c', b', ns)) : b'.All P ∧
      (c' = c ∨ ∃ payload e d, P payload ∧ understand payload = .ok (e, d) ∧
        c' = { c with handling := .reading e d }) := by
  rw [take] at ht
  split at ht
  · cases ht
  · next b₁ d hr =>
    obtain ⟨hpayload, hrest⟩ := h.receive hr
    split at ht
    · next e dir hu =>
      cases ht
      exact ⟨hrest, .inr ⟨_, e, dir, hpayload, hu, rfl⟩⟩
    · cases ht
      exact ⟨hrest.nack hpayload, .inl rfl⟩

end Consumer

namespace World

/-- Events that name the other store: they are queued, or at hand, or may still be sent, since the
base of an unfinished run is not this store. -/
inductive Threat (w : World) (d : Direction) (e : Event) : Prop where
  | unsent {r : Run} : r ∈ w.control.runs → r.isRunning → r.validation.plan.base ≠ d → Threat w d e
  | queued {s : Subscription} {m : Message} : s ∈ w.bus.subscriptions → m ∈ s.queue →
      Consumer.understand m.payload = .ok (e, d.other) → Threat w d e
  | atHand {n : Nat} {c : Consumer} : (n, c) ∈ w.consumers →
      c.handling.atHand? = some (e, d.other) → Threat w d e

structure Confined (w : World) (d : Direction) (P : Event → Prop) : Prop where
  runs : ∀ r ∈ w.control.runs, r.isRunning → r.validation.plan.base ≠ d → ∀ e, P e
  queued : w.bus.All fun payload => ∀ e, Consumer.understand payload = .ok (e, d.other) → P e
  hands : ∀ p ∈ w.consumers, ∀ e, p.2.handling.atHand? = some (e, d.other) → P e

theorem confined_threat (w : World) (d : Direction) : w.Confined d (w.Threat d) where
  runs := fun _ hr hrunning hbase _ => .unsent hr hrunning hbase
  queued := fun _ hs _ hm _ hu => .queued hs hm hu
  hands := fun _ hp _ he => .atHand hp he

namespace Confined
variable {w : World} {d : Direction} {P : Event → Prop} (h : w.Confined d P)
include h

theorem report (ns : List Notice) : (w.report ns).Confined d P := ⟨h.runs, h.queued, h.hands⟩

theorem setStore (d' : Direction) (s : Store) : (w.setStore d' s).Confined d P :=
  ⟨h.runs, h.queued, h.hands⟩

theorem setConsumer (n : Nat) {c : Consumer}
    (hc : ∀ e, c.handling.atHand? = some (e, d.other) → P e) :
    (w.setConsumer n c).Confined d P := by
  refine ⟨h.runs, h.queued, ?_⟩
  intro p hp
  obtain ⟨p₀, hp₀, rfl⟩ := List.mem_map.1 hp
  split
  · exact hc
  · exact h.hands p₀ hp₀

theorem emit {es : List Event} (hes : Names d es) : (w.emit es).Confined d P := by
  refine ⟨h.runs, ?_, h.hands⟩
  have hall : ∀ b : Bus,
      (b.All fun payload => ∀ e, Consumer.understand payload = .ok (e, d.other) → P e) →
      (es.foldl (fun b e => b.publish w.topic e.encode) b).All
        fun payload => ∀ e, Consumer.understand payload = .ok (e, d.other) → P e := by
    induction es with
    | nil => exact fun _ hb => hb
    | cons e es ih =>
      obtain ⟨he, hrest⟩ := List.forall_mem_cons.1 hes
      refine fun b hb => ih hrest _ (hb.publish _ fun _ hu => ?_)
      exact absurd (Event.direction_of_understand he hu).symm d.ne_other
  exact hall w.bus h.queued

theorem mem_consumers {n : Nat} {c : Consumer} (hc : w.consumers.lookup n = some c) {e : Event}
    (he : c.handling.atHand? = some (e, d.other)) : P e := by
  obtain ⟨_, _, hin, _⟩ := List.lookup_eq_some_iff.1 hc
  exact h.hands (n, c) (by rw [hin]; simp) e he

theorem stepConsumer (n : Nat) : (w.stepConsumer n).1.Confined d P := by
  rw [World.stepConsumer]
  split
  · exact h
  · next c hc =>
    have hhand : ∀ e, c.handling.atHand? = some (e, d.other) → P e := fun e => h.mem_consumers hc
    split
    · split
      · exact ⟨h.runs, h.queued.unsubscribe _, fun p hp => h.hands p (List.mem_filter.1 hp).1⟩
      · split
        · exact h
        · next c' b ns ht =>
          obtain ⟨hqueued, he⟩ := Consumer.take_cases h.queued ht
          have hrest : ({ w with bus := b } : World).Confined d P := ⟨h.runs, hqueued, h.hands⟩
          have hnext : ∀ e, c'.handling.atHand? = some (e, d.other) → P e := by
            rcases he with rfl | ⟨payload, e, d', hpayload, hu, rfl⟩
            · exact hhand
            · rintro _ ⟨⟩
              exact hpayload e hu
          exact (hrest.setConsumer n hnext).report ns
    · next e d' hh =>
      have hnext : ∀ e', (c.onRead e d' (w.store d')).1.handling.atHand? = some (e', d.other) →
          P e' := by
        rw [hh] at hhand
        rw [Consumer.onRead]
        split
        · exact hhand
        · rintro _ ⟨⟩
      exact (h.setConsumer n hnext).report _
    · next e d' row _ =>
      have hnext : ∀ e', (c.onWrite e d' row (w.store d'.other)).1.handling.atHand? =
          some (e', d.other) → P e' := by
        rintro _ ⟨⟩
      exact ((h.setStore _ _).setConsumer n hnext).report _

end Confined

/-- A consumer changes a store only when it has an event at hand that names the other one. -/
theorem stepConsumer_target (w : World) (n : Nat) (d : Direction) :
    (w.stepConsumer n).1.store d = w.store d ∨
      ∃ c e row, w.consumers.lookup n = some c ∧ c.handling = .writing e d.other row := by
  rw [World.stepConsumer]
  split
  · exact .inl rfl
  · next c hc =>
    split
    · split
      · exact .inl rfl
      · split <;> exact .inl rfl
    · exact .inl rfl
    · next e d' row hh =>
      rcases d'.eq_or_eq_other d with rfl | rfl
      · left
        simp [store_setStore, d'.ne_other]
      · exact .inr ⟨c, e, row, hc, hh⟩

end World

namespace Migration
open World
variable {x : Migration} {d : Direction}

/-- While a store is primary, nothing new names the other one. -/
theorem confined_move {P : Event → Prop} (hs : x.world.Steady)
    (hd : x.world.control.scheduler.pattern.base = d) (h : x.world.Confined d P) (m : Move) :
    (x.move m).world.Confined d P := by
  cases m with
  | call c => exact ⟨h.runs, h.queued, h.hands⟩
  | wait ms => exact ⟨h.runs, h.queued, h.hands⟩
  | command k =>
    refine ⟨k.forall_run h.runs (fun _ => id) ?_, h.queued, h.hands⟩
    intro n plan hbase _ _ hother
    exact absurd (hbase.trans hd) hother
  | announce id =>
    rcases x.world.announceRun_cases id with hsame | ⟨r, ns, hr, hrunning, he⟩
    · rw [move, hsame]
      exact h
    · rw [move, he]
      have hrun := h.runs r (List.mem_of_find?_eq_some hr) hrunning
      exact ⟨hs.numbered.forall_mapRun h.runs hr fun _ => hrun, h.queued, h.hands⟩
  | scan id side =>
    rcases hs.scanRun_cases id side with hsame | ⟨r, hr, hrunning, v, es, ns, f, _,
      hplan, hes, hf, he⟩
    · rw [move, hsame]
      exact h
    · rw [move, he]
      by_cases hbase : r.validation.plan.base = d
      · have hsent := h.emit (hbase ▸ hplan ▸ hes)
        refine ⟨ControlPlane.forall_mapRun _ _ h.runs ?_, hsent.queued, hsent.hands⟩
        intro r' _ _ hother
        rw [(hf r').1, hplan] at hother
        exact absurd hbase hother
      · have hany := h.runs r hr hrunning hbase
        exact ⟨fun _ _ _ _ => hany, fun _ _ _ _ e _ => hany e, fun _ _ e _ => hany e⟩
  | consume n => exact h.stepConsumer n

/-- A store stays primary as long as the pattern is only switched to one with that base. -/
theorem primary_move (hs : x.world.Steady)
    (hd : x.world.control.scheduler.pattern.base = d) {m : Move}
    (hm : ∀ q, m = .command (.switchTo q) → q.base = d) :
    (x.move m).world.control.scheduler.pattern.base = d := by
  cases m with
  | call c => exact hd
  | wait ms => exact hd
  | command k =>
    rcases (k.run_frame hs.live).2.2 with hsame | hk
    · exact (congrArg Pattern.base hsame).trans hd
    · exact hm _ (congrArg Move.command hk)
  | announce id =>
    exact (congrArg (·.pattern.base) (x.world.announceRun_frame id).scheduler).trans hd
  | scan id side => exact (congrArg (·.pattern.base) (hs.scanRun_frame id side).scheduler).trans hd
  | consume n =>
    obtain ⟨p, _, hcontrol⟩ := x.world.stepConsumer_control n
    rw [move, hcontrol]
    exact hd

/-- Apart from calls of the pool, a store is changed only by a repair that names the other one. -/
theorem store_move (hs : x.world.Steady) {m : Move} (hm : ∀ c, m ≠ .call c) (d : Direction) :
    (x.move m).world.store d = x.world.store d ∨
      ∃ n c e row, m = .consume n ∧ x.world.consumers.lookup n = some c ∧
        c.handling = .writing e d.other row := by
  cases m with
  | call c => exact absurd rfl (hm c)
  | wait ms => exact .inl rfl
  | command k => exact .inl ((k.run_frame hs.live).1 d)
  | announce id => exact .inl (congrArg (·.store d) (x.world.announceRun_frame id).pool)
  | scan id side => exact .inl (congrArg (·.store d) (hs.scanRun_frame id side).pool)
  | consume n =>
    refine (x.world.stepConsumer_target n d).imp_right ?_
    rintro ⟨c, e, row, hc, hh⟩
    exact ⟨n, c, e, row, rfl, hc, hh⟩

theorem confined_run {P : Event → Prop} {ms : List Move} (hs : x.world.Steady)
    (hd : x.world.control.scheduler.pattern.base = d)
    (hstay : ∀ q, .command (.switchTo q) ∈ ms → q.base = d) (h : x.world.Confined d P) :
    (x.run ms).world.Confined d P := by
  induction ms generalizing x with
  | nil => exact h
  | cons m ms ih =>
    have hprimary := primary_move hs hd fun q hm => hstay q (hm ▸ List.mem_cons_self)
    exact ih (steady_move hs m) hprimary (fun q hq => hstay q (List.mem_cons_of_mem _ hq))
      (confined_move hs hd h m)

/-- As long as the store stays primary that was primary at some moment, such as that of a write that
succeeded, calls of the pool alone change it, apart from repairs of events that at that moment named
the other store already, or might still be sent by a run of that time. -/
theorem acknowledged_writes_survive {w : World} {p : Pool Store} {batch : Int}
    (hmade : ControlPlane.make p batch = .ok w.control) (ht : w.tripwires = [])
    {before after : List Move} {q : Pattern}
    (hlive : ((start w).run before).world.control.pool.pattern = .ok q)
    (hstay : ∀ q', .command (.switchTo q') ∈ after → q'.base = q.base) :
    let x := (start w).run before
    ∀ pre m, pre ++ [m] <+: after → (∀ c, m ≠ .call c) →
      (x.run (pre ++ [m])).world.store q.base = (x.run pre).world.store q.base ∨
        ∃ n c e row, m = .consume n ∧ (x.run pre).world.consumers.lookup n = some c ∧
          c.handling = .writing e q.base.other row ∧ x.world.Threat q.base e := by
  intro x pre m hpre hm
  have hs : x.world.Steady := steady_run (steady_made hmade ht) before
  have hd : x.world.control.scheduler.pattern.base = q.base :=
    congrArg Pattern.base (Except.ok.inj (hs.live.symm.trans hlive))
  have hconfined : (x.run pre).world.Confined q.base (x.world.Threat q.base) :=
    confined_run hs hd (fun q' hq => hstay q' (hpre.subset (List.mem_append_left _ hq)))
      (confined_threat _ _)
  rw [run_concat]
  refine (store_move (steady_run hs pre) hm q.base).imp_right ?_
  rintro ⟨n, c, e, row, hn, hc, hh⟩
  exact ⟨n, c, e, row, hn, hc, hh, hconfined.mem_consumers hc (by rw [hh]; rfl)⟩

/-- A pass from the time before has ended when the row is written; a new one then has the other
store repaired. -/
theorem acknowledged_writes_survive_a_new_pass :
    let fixer (base target : Direction) : Fixer := ⟨base, target, Interactive.columns⟩
    let c : Consumer := ⟨"inconsistency", 0, fixer .src .dst, fixer .dst .src, .waiting, false⟩
    let w : World := { World.ofStores (.ofEntities "src" []) (.ofEntities "dst" []) with
      bus := ⟨3, [⟨0, "inconsistency", "repair", []⟩], 1⟩, consumers := [(0, c)] }
    let before : List Move := [.command .startFull, .announce 0, .scan 0 .forward, .scan 0 .reverse,
      .command (.switchTo .dstOnly),
      .call (.act (.exec Session.insert (Interactive.plain 1 0).values))]
    let after : List Move := [.command .startFull, .announce 1, .scan 1 .forward, .scan 1 .forward,
      .scan 1 .forward, .consume 0, .consume 0, .consume 0]
    let x := (start w).run before
    (∀ pre m, pre ++ [m] <+: after →
      (x.run (pre ++ [m])).world.store .dst = (x.run pre).world.store .dst) ∧
    ((x.run after).world.store .src).entity? 1 = some (.ok (.plain 1 0)) := by
  intro fixer c w before after x
  have hlive : x.world.control.pool.pattern = .ok .dstOnly := by decide +kernel
  have hruns : ∀ r ∈ x.world.control.runs, r.isRunning → r.validation.plan.base = .dst := by
    decide +kernel
  have hqueues : ∀ s ∈ x.world.bus.subscriptions, s.queue = [] := by decide +kernel
  have hhands : ∀ q ∈ x.world.consumers, q.2.handling = .waiting := by decide +kernel
  have hrepaired : ((x.run after).world.store .src).entity? 1 = some (.ok (.plain 1 0)) := by
    decide +kernel
  have hx : x = (start w).run before := rfl
  rw [hx] at hlive hruns hqueues hhands hrepaired ⊢
  have hsafe : ∀ e, ¬ ((start w).run before).world.Threat .dst e := by
    rintro e (⟨hr, hrunning, hbase⟩ | ⟨hs, hm, _⟩ | ⟨hp, he⟩)
    · exact hbase (hruns _ hr hrunning)
    · rw [hqueues _ hs] at hm
      cases hm
    · rw [hhands _ hp] at he
      cases he
  refine ⟨fun pre m hpre => ?_, hrepaired⟩
  have hm : ∀ c, m ≠ .call c := by
    rintro c rfl
    simpa [after] using hpre.subset (List.mem_append_right _ (List.mem_singleton_self _))
  have hmade : ControlPlane.make w.control.pool 1 = .ok w.control := rfl
  have hsurvives := acknowledged_writes_survive hmade rfl hlive (by simp [after]) pre m hpre hm
  refine hsurvives.resolve_right ?_
  rintro ⟨_, _, e, _, _, _, _, hthreat⟩
  exact hsafe e hthreat

/-- A run that was started before the switch deletes the row, which its base does not have. -/
theorem run_of_the_old_base_deletes :
    let fixer (base target : Direction) : Fixer := ⟨base, target, Interactive.columns⟩
    let c : Consumer := ⟨"inconsistency", 0, fixer .src .dst, fixer .dst .src, .waiting, false⟩
    let w : World := { World.ofStores (.ofEntities "src" []) (.ofEntities "dst" []) with
      bus := ⟨3, [⟨0, "inconsistency", "repair", []⟩], 1⟩, consumers := [(0, c)] }
    let write : Service.Call := .act (.exec Session.insert (Interactive.plain 1 0).values)
    let before : List Move := [.command .startFull, .command (.switchTo .dstOnly)]
    let after : List Move := [.announce 0, .scan 0 .reverse, .scan 0 .reverse, .scan 0 .reverse,
      .consume 0, .consume 0, .consume 0]
    let x := (start w).run before
    let y := x.move (.call write)
    (x.service.call write).2 = .ok (.count 1) ∧ y.world.control.pool.pattern = .ok .dstOnly ∧
      (y.world.store .dst).entity? 1 = some (.ok (.plain 1 0)) ∧
      (y.run after).world.control.pool.pattern = .ok .dstOnly ∧
      ((y.run after).world.store .dst).entity? 1 = none := by
  decide +kernel

end Migration
end DualWrite
