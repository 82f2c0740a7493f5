import DualWrite.Proofs.Event.Wire
import DualWrite.Proofs.Repair.Fixing
import DualWrite.Proofs.Validation.Survey
import Mathlib.Tactic.IntervalCases

/-!
# Repairs converge

While one full pass reports, a consumer repairs the target that is being scanned. Every event that
was sent is queued, or at hand, or its id agrees; and an id that agrees is never parted again, since
a row that is put in drives out no row that the base holds.
-/
namespace DualWrite
open Store Scene

def Event.message (e : Event) : Message := ⟨e.encode, 0⟩

namespace Handling

def event? : Handling → Option Event
  | .waiting => none
  | .reading e _ => some e
  | .writing e _ _ => some e

/-- What is at hand is for the base's direction, and what was read is what the base holds. -/
def Faithful (d : Direction) (base : Table) : Handling → Prop
  | .waiting => True
  | .reading _ d' => d' = d
  | .writing e d' row => d' = d ∧ row = (base.row? e.id).map (·.values)

end Handling

/-- A table as it is made whose rows can all be read and have ids above the least. -/
structure Store.Table.Readable (t : Table) : Prop extends t.Standard where
  ids : ∀ r ∈ t.rows, minInt < r.number ∧ r.number ≤ maxInt
  entity : ∀ r ∈ t.rows, ∃ e, t.entity r = .ok e

namespace Store
variable {t base : Table}

/-- A row that can be read is the row of its entity. -/
theorem Table.Standard.eq_row (ht : t.Standard) {r : Row} (hr : r ∈ t.rows) {e : Interactive}
    (he : t.entity r = .ok e) : r = e.row := by
  have hid := ht.keyed.id_of_entity hr he
  have hlength : r.values.length = 8 := by
    rw [(ht.fits r hr).whole, ht.schema]
    rfl
  rw [Table.entity, ht.schema, Interactive.ofRow_eq_ok] at he
  simp only [Interactive.intAt_eq_ok, Interactive.textAt_eq_ok] at he
  have hplace : ∀ i (hi : i < Interactive.columns.length),
      Interactive.schema.place? Interactive.columns[i] = some i := by decide
  have hvalue : ∀ i (hi : i < Interactive.columns.length) v,
      (∃ k, Interactive.schema.place? Interactive.columns[i] = some k ∧ r.value k = v) →
        r.value i = v := by
    rintro i hi v ⟨k, hk, hv⟩
    rw [hplace i hi] at hk
    exact Option.some.inj hk ▸ hv
  have hvalues : r.values = e.values := by
    obtain ⟨h0, h1, h2, h3, h4, h5, h6, h7⟩ := he
    have hget : ∀ i (hi : i < r.values.length), r.values[i] = r.value i := fun i hi => by
      simp [Row.value, hi]
    refine List.ext_getElem (hlength.trans rfl) fun i hi _ => ?_
    rw [hget i hi]
    rw [hlength] at hi
    interval_cases i
    · exact hvalue 0 (by decide) _ h0
    · exact hvalue 1 (by decide) _ h1
    · exact hvalue 2 (by decide) _ h2
    · exact hvalue 3 (by decide) _ h3
    · exact hvalue 4 (by decide) _ h4
    · exact hvalue 5 (by decide) _ h5
    · exact hvalue 6 (by decide) _ h6
    · exact hvalue 7 (by decide) _ h7
  rcases r with ⟨number, values⟩
  simp only at hvalues hid
  rw [hvalues, ← hid, Interactive.row]

section Readable
variable (ht : t.Readable) (hb : base.Readable)
include ht hb

theorem entity_eq (r : Row) : base.entity r = t.entity r := by
  rw [Table.entity, Table.entity, ht.schema, hb.schema]

/-- Two views of an id that are the same are views of the same row. -/
theorem row?_eq_of_entity {i : Int} (h : (base.row? i).map base.entity = (t.row? i).map t.entity) :
    t.row? i = base.row? i := by
  cases hx : t.row? i with
  | none =>
    rw [hx, Option.map_none, Option.map_eq_none_iff] at h
    exact h.symm
  | some x =>
    rw [hx, Option.map_some, Option.map_eq_some_iff] at h
    obtain ⟨r, hr, hsame⟩ := h
    have hin := (ht.keyed.row?_eq_some.1 hx).1
    have hrin := (hb.keyed.row?_eq_some.1 hr).1
    obtain ⟨e, he⟩ := ht.entity x hin
    rw [hr, ht.eq_row hin he, hb.eq_row hrin (hsame.trans he)]

/-- Tables that agree on every id above the least have the same rows. -/
theorem rows_eq (h : ∀ i, minInt < i → t.row? i = base.row? i) : t.rows = base.rows := by
  refine eq_of_ascending ht.keyed.ascending hb.keyed.ascending fun r => ?_
  constructor
  · intro hr
    have hrow := ht.keyed.row?_eq_some.2 ⟨hr, rfl⟩
    rw [h _ (ht.ids r hr).1] at hrow
    exact (hb.keyed.row?_eq_some.1 hrow).1
  · intro hr
    have hrow := hb.keyed.row?_eq_some.2 ⟨hr, rfl⟩
    rw [← h _ (hb.ids r hr).1] at hrow
    exact (ht.keyed.row?_eq_some.1 hrow).1

theorem Table.Readable.repaired {i : Int} : (t.repaired base i).Readable where
  toStandard := ht.toStandard.repaired hb.toStandard
  ids := fun _ hr => (mem_repaired hr).elim (ht.ids _) (hb.ids _)
  entity := fun r hr => (mem_repaired hr).elim (ht.entity r) fun hr =>
    (hb.entity r hr).imp fun _ he => (entity_eq ht hb r).symm.trans he

end Readable

end Store

structure CanRepair (w : World) (p : Plan) (c : Consumer) (base : Table) : Prop where
  label : p.label = p.base
  columns : (c.fixer p.base).columns = Interactive.columns
  running : c.cancelled = false
  holds : (w.store p.base).table? = some base
  readable : base.Readable
  unique : base.Unique

/-- How far a target has been brought to agree with its base: the events that are queued, what is at
hand, and the table that the target then is. -/
structure Mending (w : World) (p : Plan) (k : Nat) (c : Consumer) (group : String) (base : Table)
    (x : Scene) (queued : List Event) (h : Handling) (t : Table) : Prop where
  topic : x.world.topic = w.topic
  store : x.world.store p.base = w.store p.base
  target : (x.world.store p.base.other).table? = some t
  readable : t.Readable
  reach : ∀ side, (x.validation.scan side).cursor.id ≤ maxInt
  consumers : x.world.consumers = [(k, { c with handling := h })]
  subscriptions : x.world.bus.subscriptions =
    [⟨c.subscription, w.topic, group, queued.map Event.message⟩]
  sent : ∀ e ∈ queued, e ∈ x.news w
  faithful : h.Faithful p.base base
  pending : ∀ e ∈ x.news w, e ∈ queued ∨ h.event? = some e ∨ t.row? e.id = base.row? e.id

section Steps
variable {w : World} {p : Plan} {k : Nat} {c : Consumer} {group : String}
    {base t : Table} {x : Scene}
  {queued : List Event} {h : Handling}

theorem publish_single (b : Bus) (topic : String) (es : List Event) {id : Nat} {q : List Message}
    (hb : b.subscriptions = [⟨id, topic, group, q⟩]) :
    (es.foldl (fun b e => b.publish topic e.encode) b).subscriptions =
      [⟨id, topic, group, q ++ es.map Event.message⟩] := by
  induction es generalizing b q with
  | nil => simpa using hb
  | cons e es ih =>
    have hpublished : (b.publish topic e.encode).subscriptions =
        [⟨id, topic, group, q ++ [e.message]⟩] := by
      simp [Bus.publish, hb, Event.message]
    rw [List.foldl_cons, ih _ hpublished, List.map_cons, List.append_assoc, List.singleton_append]

/-- A consumer understands the events that were sent. -/
theorem Mending.understand (hm : Mending w p k c group base x queued h t)
    (hc : CanRepair w p c base)
    (hs : Orderly w p x) {e : Event} (he : e ∈ x.news w) :
    Consumer.understand e.encode = .ok (e, p.base) := by
  obtain ⟨side, hside⟩ := Side.exists_reports e.kind
  have hsound := hs side
  have htold : e ∈ x.told w side ++ (x.validation.scan side).found :=
    List.mem_append_left _ (List.mem_filter.2 ⟨he, hside⟩)
  obtain ⟨hlow, hhigh⟩ := hsound.within e.id (List.mem_append_left _ (List.mem_append_left _
    (List.mem_map_of_mem htold)))
  refine Event.understand_encode (Int.le_of_lt hlow) (Int.le_trans hhigh (hm.reach side)) ?_
  rw [(hsound.labelled e htold).1]
  exact congrArg Direction.name hc.label

theorem Mending.ids_le (hm : Mending w p k c group base x queued h t) (hc : CanRepair w p c base)
    (d : Direction) (i : Int) (hi : ((x.world.store d).entity? i).isSome) : i ≤ maxInt := by
  have hrows : ∀ u : Table, u.Readable → (x.world.store d).table? = some u → i ≤ maxInt := by
    intro u hu ht
    rw [entity?_eq ht, Option.isSome_map, Option.isSome_iff_exists] at hi
    obtain ⟨r, hr⟩ := hi
    obtain ⟨hin, rfl⟩ := hu.keyed.row?_eq_some.1 hr
    exact (hu.ids r hin).2
  rcases d.eq_or_eq_other p.base with rfl | rfl
  · exact hrows base hc.readable (hm.store ▸ hc.holds)
  · exact hrows t hm.readable hm.target

theorem Mending.scan (hm : Mending w p k c group base x queued h t) (hc : CanRepair w p c base)
    (hp : p.mode = .full) (hb : 1 ≤ p.batch) (hcalm : Calm w p x) (side : Side) :
    ∃ more, Mending w p k c group base (x.move (.scan side)) (queued ++ more) h t := by
  by_cases hr : x.validation.result?.isSome
  · refine ⟨[], ?_⟩
    rw [Scene.move_ended side hr, List.append_nil]
    exact hm
  · obtain ⟨es, ns, s, turn, he⟩ := hcalm.move_scan side (by simpa using hr)
    have hnews : (x.move (.scan side)).news w = x.news w ++ es :=
      hcalm.news_append (by rw [he]; rfl)
    have hreach : s.cursor.id ≤ maxInt := by
      refine Scan.Turn.reach hp hb hcalm.keyed (hm.ids_le hc) ?_ turn
      rw [Scene.observed, Scan.observe_cursor]
      exact hm.reach side
    refine ⟨es, ?_⟩
    rw [he] at hnews ⊢
    refine ⟨hm.topic, hm.store, hm.target, hm.readable, ?_, hm.consumers, ?_, ?_, hm.faithful, ?_⟩
    · exact Validation.forall_setScan (P := fun _ s => s.cursor.id ≤ maxInt) hreach
        fun other _ => hm.reach other
    · rw [List.map_append]
      change (es.foldl (fun b e => b.publish x.world.topic e.encode) x.world.bus).subscriptions = _
      rw [hm.topic]
      exact publish_single _ _ es hm.subscriptions
    · intro e hin
      rw [hnews]
      exact List.mem_append.2 ((List.mem_append.1 hin).imp_left (hm.sent e))
    · intro e hin
      rw [hnews] at hin
      rcases List.mem_append.1 hin with hin | hin
      · exact (hm.pending e hin).imp_left (List.mem_append_left _)
      · exact .inl (List.mem_append_right _ hin)

theorem setConsumer_single (v : World) (c' c'' : Consumer) (hv : v.consumers = [(k, c')]) :
    (v.setConsumer k c'').consumers = [(k, c'')] := by
  simp [World.setConsumer, hv]

theorem receive_single {b : Bus} {id : Nat} {topic : String} {m : Message} {q : List Message}
    (hb : b.subscriptions = [⟨id, topic, group, m :: q⟩]) :
    ∃ b', b.receive id = some (b', ⟨id, m⟩) ∧ b'.subscriptions = [⟨id, topic, group, q⟩] := by
  refine ⟨b.mapQueue id fun _ => q, ?_, by simp [Bus.mapQueue, hb]⟩
  simp [Bus.receive, Bus.find?, hb]

/-- The consumer takes the next event, if there is one. -/
theorem Mending.take (hm : Mending w p k c group base x queued .waiting t)
    (hc : CanRepair w p c base)
    (hs : Orderly w p x) :
    ∃ queued' h', Mending w p k c group base (x.move (.consume k)) queued' h' t := by
  have hlookup : x.world.consumers.lookup k = some { c with handling := .waiting } := by
    simp [hm.consumers]
  cases queued with
  | nil =>
    have hnone : x.world.bus.receive c.subscription = none := by
      simp [Bus.receive, Bus.find?, hm.subscriptions]
    have hstill : (x.world.stepConsumer k).1 = x.world := by
      simp only [World.stepConsumer, hlookup, hc.running, Consumer.take, hnone]
      rfl
    refine ⟨[], .waiting, ?_⟩
    rw [Scene.move, hstill]
    exact hm
  | cons e rest =>
    obtain ⟨b, hreceive, hb⟩ := receive_single hm.subscriptions
    have hunderstood := hm.understand hc hs (hm.sent e List.mem_cons_self)
    have hstep : (x.world.stepConsumer k).1 =
        ({ x.world with bus := b }.setConsumer k { c with handling := .reading e p.base }).report
          [] := by
      simp only [World.stepConsumer, hlookup, hc.running, Consumer.take, hreceive, Event.message,
        hunderstood]
      rfl
    refine ⟨rest, .reading e p.base, ?_⟩
    rw [Scene.move, hstep, World.report_nil]
    refine ⟨hm.topic, hm.store, hm.target, hm.readable, hm.reach,
      setConsumer_single _ _ _ hm.consumers, hb, fun e he => hm.sent e (List.mem_cons_of_mem _ he),
      rfl, ?_⟩
    intro e' he'
    rcases hm.pending e' he' with hin | hhand | hagree
    · rcases List.mem_cons.1 hin with rfl | hin
      · exact .inr (.inl rfl)
      · exact .inl hin
    · cases hhand
    · exact .inr (.inr hagree)

/-- The consumer reads the base row of the event at hand. -/
theorem Mending.read {e : Event} {d : Direction}
    (hm : Mending w p k c group base x queued (.reading e d) t) (hc : CanRepair w p c base) :
    Mending w p k c group base (x.move (.consume k)) queued
      (.writing e d ((base.row? e.id).map (·.values))) t := by
  obtain rfl : d = p.base := hm.faithful
  have hlookup : x.world.consumers.lookup k = some { c with handling := .reading e p.base } := by
    simp [hm.consumers]
  have hread := hc.readable.toStandard.read (hm.store ▸ hc.holds) hc.columns e.id
  have hstep : (x.world.stepConsumer k).1 = (x.world.setConsumer k
      { c with handling := .writing e p.base ((base.row? e.id).map (·.values)) }).report [] := by
    simp only [World.stepConsumer, hlookup, Consumer.onRead, Consumer.fixer_at_work, hread]
  rw [Scene.move, hstep, World.report_nil]
  exact ⟨hm.topic, hm.store, hm.target, hm.readable, hm.reach,
    setConsumer_single _ _ _ hm.consumers, hm.subscriptions, hm.sent, ⟨rfl, rfl⟩, hm.pending⟩

/-- The consumer writes what it has read: the id at hand agrees then, and so does every id that
agreed before. -/
theorem Mending.write {e : Event} {d : Direction} {row : Option (List Value)}
    (hm : Mending w p k c group base x queued (.writing e d row) t) (hc : CanRepair w p c base)
    (hn : (x.move (.consume k)).world.notices = x.world.notices) :
    Mending w p k c group base (x.move (.consume k)) queued .waiting (t.repaired base e.id) := by
  obtain ⟨rfl, rfl⟩ := hm.faithful
  have hlookup : x.world.consumers.lookup k = some
      { c with handling := .writing e p.base ((base.row? e.id).map (·.values)) } := by
    simp [hm.consumers]
  rcases hw : (c.fixer p.base).write (x.world.store p.base.other) e.id
    ((base.row? e.id).map (·.values)) with ⟨s, r⟩
  have hstep : (x.world.stepConsumer k).1 = ((x.world.setStore p.base.other s).setConsumer k
      { c with handling := .waiting }).report
        (match r with | .ok () => [] | .error err => [.fixFailed e err]) := by
    simp only [World.stepConsumer, hlookup, Consumer.onWrite, Consumer.fixer_at_work, hw]
    cases r <;> rfl
  rw [Scene.move] at hn ⊢
  rw [hstep] at hn ⊢
  cases r with
  | error err => simp [World.report, World.setConsumer, World.setStore] at hn
  | ok u =>
    have hwritten := hm.readable.toStandard.write hc.readable.toStandard hm.target hc.columns hw
    have hagree : ∀ i, t.row? i = base.row? i → (t.repaired base e.id).row? i = base.row? i :=
      fun i hi => row?_repaired hm.readable.toStandard hc.readable.toStandard hc.unique hi
    refine ⟨hm.topic, ?_, ?_, hm.readable.repaired hc.readable, hm.reach,
      setConsumer_single _ _ _ hm.consumers, hm.subscriptions, hm.sent, trivial, ?_⟩
    · simp only [World.store_report, World.store_setConsumer, World.store_setStore,
        if_neg p.base.ne_other]
      exact hm.store
    · simp only [World.store_report, World.store_setConsumer, World.store_setStore, if_true]
      exact hwritten
    · intro e' he'
      rcases hm.pending e' he' with hin | hhand | hi
      · exact .inl hin
      · obtain rfl := Option.some.inj hhand
        exact .inr (.inr (row?_repaired_self hm.readable.toStandard hc.readable.toStandard))
      · exact .inr (.inr (hagree _ hi))

/-- Whatever a consumer does in its turn, an id that agrees stays in agreement. -/
theorem Mending.consume (hm : Mending w p k c group base x queued h t) (hc : CanRepair w p c base)
    (hs : Orderly w p x) (n : Nat)
    (hn : (x.move (.consume n)).world.notices = x.world.notices) :
    ∃ queued' h' t', Mending w p k c group base (x.move (.consume n)) queued' h' t' ∧
      ∀ i, t.row? i = base.row? i → t'.row? i = base.row? i := by
  by_cases hnk : n = k
  · subst hnk
    cases h with
    | waiting =>
      obtain ⟨queued', h', hm'⟩ := hm.take hc hs
      exact ⟨queued', h', t, hm', fun _ hi => hi⟩
    | reading e d => exact ⟨_, _, _, hm.read hc, fun _ hi => hi⟩
    | writing e d row =>
      exact ⟨_, _, _, hm.write hc hn, fun _ hi =>
        row?_repaired hm.readable.toStandard hc.readable.toStandard hc.unique hi⟩
  · have hnone : x.world.consumers.lookup n = none := by
      rw [hm.consumers]
      simp [hnk]
    have hstill : (x.world.stepConsumer n).1 = x.world := by
      simp only [World.stepConsumer, hnone]
    refine ⟨queued, h, t, ?_, fun _ hi => hi⟩
    rw [Scene.move, hstill]
    exact hm

theorem Mending.move (hm : Mending w p k c group base x queued h t) (hc : CanRepair w p c base)
    (hp : p.mode = .full) (hb : 1 ≤ p.batch) (hcalm : Calm w p x) (hs : Orderly w p x) {m : Move}
    (hcancel : m ≠ .cancel) (hwrite : ∀ d s, m ≠ .write d s)
    (hn : (x.move m).world.notices = x.world.notices) :
    ∃ queued' h' t', Mending w p k c group base (x.move m) queued' h' t' ∧
      ∀ i, t.row? i = base.row? i → t'.row? i = base.row? i := by
  cases m with
  | scan side =>
    obtain ⟨more, hm'⟩ := hm.scan hc hp hb hcalm side
    exact ⟨_, _, _, hm', fun _ hi => hi⟩
  | consume n => exact hm.consume hc hs n hn
  | wait ms =>
    exact ⟨queued, h, t, ⟨hm.topic, hm.store, hm.target, hm.readable, hm.reach, hm.consumers,
      hm.subscriptions, hm.sent, hm.faithful, hm.pending⟩, fun _ hi => hi⟩
  | write d s => exact absurd rfl (hwrite d s)
  | cancel => exact absurd rfl hcancel

end Steps

/-- What a consumer is when it has just been made for two stores. -/
theorem made_ok {b : Bus} {c : Consumer} {limit : Nat} {topic group : String} {src dst : Store}
    {s d : Table} (hs : src.table? = some s) (hd : dst.table? = some d)
    (hss : s.schema = Interactive.schema) (hds : d.schema = Interactive.schema)
    (h : Consumer.make (.empty limit) topic group src dst = .ok (b, c)) :
    b.subscriptions = [⟨c.subscription, topic, group, []⟩] ∧ c.handling = .waiting ∧
      c.cancelled = false ∧ ∀ d, (c.fixer d).columns = Interactive.columns := by
  rw [Consumer.make, Fixer.make_standard .src .dst hs hss,
    Fixer.make_standard .dst .src hd hds] at h
  obtain ⟨rfl, rfl⟩ := Prod.mk.inj (Except.ok.inj h)
  refine ⟨rfl, rfl, rfl, ?_⟩
  rintro (_ | _) <;> rfl

/-- A full pass over two tables that nobody but the consumer of its events writes. -/
structure RepairedPass (w : World) (p : Plan) (k : Nat) (c : Consumer) (group : String)
    (base target : Table) (moves : List Move) : Prop extends CanRepair w p c base where
  full : p.mode = .full
  once : p.interval = 0
  batch : 1 ≤ p.batch
  tripwires : w.tripwires = []
  waiting : c.handling = .waiting
  consumers : w.consumers = [(k, c)]
  subscriptions : w.bus.subscriptions = [⟨c.subscription, w.topic, group, []⟩]
  targeted : (w.store p.base.other).table? = some target
  targetReadable : target.Readable
  uncancelled : .cancel ∉ moves
  unwritten : ∀ d s, .write d s ∉ moves

namespace RepairedPass
variable {w : World} {p : Plan} {k : Nat} {c : Consumer} {group : String} {base target : Table}
  {moves : List Move} (h : RepairedPass w p k c group base target moves)
include h

theorem keyed (d : Direction) : (w.store d).Keyed := by
  rcases d.eq_or_eq_other p.base with rfl | rfl
  · exact ⟨base, h.holds, h.readable.keyed⟩
  · exact ⟨target, h.targeted, h.targetReadable.keyed⟩

theorem fullPass : FullPass w p moves :=
  ⟨h.full, h.once, h.batch, h.tripwires, h.keyed, h.uncancelled,
    fun d s hm => absurd hm (h.unwritten d s)⟩

theorem start : Mending w p k c group base (start w p) [] .waiting target where
  topic := rfl
  store := rfl
  target := h.targeted
  readable := h.targetReadable
  reach := by
    have hcursor : ∀ side, ((Scene.start w p).validation.scan side).cursor.id = minInt := by
      rintro (_ | _) <;> exact congrArg (fun mode => (Cursor.start mode p.watermark).id) h.full
    intro side
    rw [hcursor side]
    decide
  consumers := by
    rw [show ({ c with handling := .waiting } : Consumer) = c from h.waiting ▸ rfl]
    exact h.consumers
  subscriptions := h.subscriptions
  sent := by simp
  faithful := trivial
  pending := by simp [Scene.start, news]

/-- All along the pass, ids that have come to agree still do. -/
theorem run (hn : ((Scene.start w p).run moves).world.notices = w.notices) :
    ∀ pre, pre <+: moves → ∃ queued hand t,
      Mending w p k c group base ((Scene.start w p).run pre) queued hand t ∧
      ∀ q, q <+: pre → ∀ t', (((Scene.start w p).run q).world.store p.base.other).table? = some t' →
        ∀ i, t'.row? i = base.row? i → t.row? i = base.row? i := by
  have hnotices := notices_eq h.fullPass.calm hn
  refine at_every_moment ⟨[], .waiting, target, h.start, ?_⟩ ?_
  · intro q hq t' ht' i hi
    obtain rfl := List.prefix_nil.1 hq
    obtain rfl := Option.some.inj (ht'.symm.trans h.targeted)
    exact hi
  · rintro pre m hpre ⟨queued, hand, t, hm, hagree⟩
    have hbefore : pre <+: moves := (List.prefix_append _ _).trans hpre
    have hin : m ∈ moves := hpre.subset (by simp)
    have hsame : (((Scene.start w p).run pre).move m).world.notices =
        ((Scene.start w p).run pre).world.notices := by
      rw [← run_concat, hnotices _ hpre, hnotices _ hbefore]
    obtain ⟨queued', hand', t', hm', hkept⟩ := hm.move h.toCanRepair h.full h.batch
      (h.fullPass.calm pre hbefore) (h.fullPass.orderly pre hbefore)
      (fun he => h.uncancelled (he ▸ hin)) (fun d s he => h.unwritten d s (he ▸ hin)) hsame
    rw [run_concat]
    refine ⟨queued', hand', t', hm', ?_⟩
    intro q hq u hu i hi
    rcases List.prefix_concat_iff.1 hq with rfl | hq
    · rw [run_concat] at hu
      obtain rfl := Option.some.inj (hu.symm.trans hm'.target)
      exact hi
    · exact hkept i (hagree q hq u hu i hi)

/-- Once the pass has ended and nothing is left to repair, every id above the least agrees. -/
theorem agree (hn : ((Scene.start w p).run moves).world.notices = w.notices)
    (hok : ((Scene.start w p).run moves).validation.result? = some (.ok ())) {t : Table}
    (hm : Mending w p k c group base ((Scene.start w p).run moves) [] .waiting t) {i : Int}
    (hi : minInt < i) : t.row? i = base.row? i := by
  have hbase : ∀ pre, pre <+: moves →
      (((Scene.start w p).run pre).world.store p.base).entity? i =
      (base.row? i).map base.entity := by
    intro pre hpre
    obtain ⟨_, _, _, hmpre, _⟩ := h.run hn pre hpre
    rw [hmpre.store, entity?_eq h.holds]
  obtain ⟨pre, hpre, hsent⟩ := h.fullPass.survey hn hok hi hbase
  obtain ⟨_, _, u, hmpre, _⟩ := h.run hn pre hpre
  rw [entity?_eq hmpre.target] at hsent
  by_cases hsame : (base.row? i).map base.entity = (u.row? i).map u.entity
  · obtain ⟨_, _, t', hmend, hagree⟩ := h.run hn moves (List.prefix_refl _)
    obtain rfl := Option.some.inj (hm.target.symm.trans hmend.target)
    exact hagree pre hpre u hmpre.target i (row?_eq_of_entity hmpre.readable h.readable hsame)
  · obtain ⟨kind, hkind⟩ := Option.ne_none_iff_exists'.1 (mt Event.Kind.between?_eq_none.1 hsame)
    have hin : p.event kind i ∈ (((Scene.start w p).run moves).news w).filter (·.id = i) := by
      rw [hsent, Plan.verdict, hkind]
      exact List.mem_singleton.2 rfl
    rcases hm.pending _ (List.mem_filter.1 hin).1 with hqueued | hhand | hagree
    · cases hqueued
    · cases hhand
    · exact hagree

end RepairedPass

/-- While a full pass reports to one consumer, which repairs the target in between, nobody else
writes and nothing fails: once the pass has returned and no event is queued or at hand, the target
has the rows of the base, however scans and repairs took turns. -/
theorem repairs_converge {w : World} {p : Plan} {n : Int} {k limit : Nat} {group : String}
    {c : Consumer} {base target : Table} {moves : List Move} (hfull : p.mode = .full)
    (honce : p.interval = 0) (hlabel : p.label = p.base) (htripwires : w.tripwires = [])
    (hmade : Consumer.make (.empty limit) w.topic group (w.store .src) (w.store .dst) =
      .ok (w.bus, c))
    (hconsumers : w.consumers = [(k, c)]) (hbase : (w.store p.base).table? = some base)
    (hreadable : base.Readable) (hunique : base.Unique)
    (htarget : (w.store p.base.other).table? = some target) (htreadable : target.Readable)
    (huncancelled : .cancel ∉ moves) (hunwritten : ∀ d s, .write d s ∉ moves)
    (hnotices : ((start w (p.withBatch n)).run moves).world.notices = w.notices)
    (hreturned : ((start w (p.withBatch n)).run moves).validation.result?.isSome)
    (hqueue : ∀ s ∈ ((start w (p.withBatch n)).run moves).world.bus.subscriptions, s.queue = [])
    (hidle : ∀ q ∈ ((start w (p.withBatch n)).run moves).world.consumers, q.2.handling = .waiting) :
    let x := (start w (p.withBatch n)).run moves
    x.world.store p.base = w.store p.base ∧
      ∃ t, (x.world.store p.base.other).table? = some t ∧ t.rows = base.rows := by
  intro x
  obtain ⟨hsubscriptions, hwaiting, hrunning, hcolumns⟩ : w.bus.subscriptions =
      [⟨c.subscription, w.topic, group, []⟩] ∧ c.handling = .waiting ∧ c.cancelled = false ∧
        ∀ d, (c.fixer d).columns = Interactive.columns := by
    cases hd : p.base with
    | src =>
      rw [hd] at hbase htarget
      exact made_ok hbase htarget hreadable.schema htreadable.schema hmade
    | dst =>
      rw [hd] at hbase htarget
      exact made_ok htarget hbase htreadable.schema hreadable.schema hmade
  have h : RepairedPass w (p.withBatch n) k c group base target moves :=
    { label := hlabel, columns := hcolumns _, running := hrunning, holds := hbase
      readable := hreadable, unique := hunique, full := hfull, once := honce
      batch := Int.le_max_right _ _, tripwires := htripwires, waiting := hwaiting
      consumers := hconsumers, subscriptions := hsubscriptions, targeted := htarget
      targetReadable := htreadable, uncancelled := huncancelled, unwritten := hunwritten }
  have hok : x.validation.result? = some (.ok ()) := Validation.result?_of_unfailed _
    (unfailed_run h.fullPass.calm hnotices moves (List.prefix_refl _)) hreturned
  obtain ⟨queued, hand, t, hm, _⟩ := h.run hnotices moves (List.prefix_refl _)
  obtain rfl : queued = [] := by
    rw [hm.subscriptions] at hqueue
    simpa using hqueue
  obtain rfl : hand = .waiting := by
    rw [hm.consumers] at hidle
    simpa using hidle
  exact ⟨hm.store, t, hm.target, rows_eq hm.readable hreadable fun i hi =>
    h.agree hnotices hok hm hi⟩

theorem Store.fits_row (e : Interactive) : e.row.Fits Interactive.schema where
  whole := rfl
  kept := by
    intro i c hc
    have hi : i < 8 := (List.getElem?_eq_some_iff.1 hc).1
    interval_cases i <;> (obtain rfl := Option.some.inj hc; rfl)
  present := by
    intro i c hc _
    have hi : i < 8 := (List.getElem?_eq_some_iff.1 hc).1
    interval_cases i <;> simp [Interactive.row, Interactive.values, Row.value]

theorem Store.readable_ofEntities {es : List Interactive} (h : (es.map (·.id)).Pairwise (· < ·))
    (hids : ∀ e ∈ es, minInt < e.id ∧ e.id ≤ maxInt) : (Table.ofEntities es).Readable where
  schema := rfl
  keyed := Table.keyed_ofEntities h
  fits := by
    intro r hr
    obtain ⟨e, _, rfl⟩ := List.mem_map.1 hr
    exact fits_row e
  ids := by
    intro r hr
    obtain ⟨e, he, rfl⟩ := List.mem_map.1 hr
    exact hids e he
  entity := by
    intro r hr
    obtain ⟨e, _, rfl⟩ := List.mem_map.1 hr
    exact ⟨e, Interactive.ofRow_values e⟩

/-- The repair of the row 1 drives out the row 5, which is about the same object, after the reverse
scan has read it. -/
theorem repairs_converge_where_objects_collide :
    let one : Interactive := .plain 1 0
    let five : Interactive := { one with id := 5 }
    let src := Store.ofEntities "src" [one]
    let dst := Store.ofEntities "dst" [five]
    let fixer (base target : Direction) : Fixer := ⟨base, target, Interactive.columns⟩
    let c : Consumer := ⟨"inconsistency", 0, fixer .src .dst, fixer .dst .src, .waiting, false⟩
    let w : World := { World.ofStores src dst with
      bus := ⟨3, [⟨0, "inconsistency", "repair", []⟩], 1⟩, consumers := [(0, c)] }
    let repair : List Move := List.replicate 3 (.consume 0)
    let moves : List Move := .scan .reverse :: List.replicate 3 (.scan .forward) ++ repair ++
      List.replicate 2 (.scan .reverse) ++ repair ++ [.scan .reverse, .scan .forward]
    let x := (start w ((Plan.whole .src).withBatch 1)).run moves
    x.validation.result? = some (.ok ()) ∧
      ∃ t, (x.world.store .dst).table? = some t ∧ t.rows = [one.row] := by
  intro one five src dst fixer c w repair moves x
  have hok : x.validation.result? = some (.ok ()) := by decide +kernel
  have hnotices : x.world.notices = w.notices := List.isEmpty_iff.1 (by decide +kernel)
  have hqueue : ∀ s ∈ x.world.bus.subscriptions, s.queue = [] := by decide +kernel
  have hidle : ∀ q ∈ x.world.consumers, q.2.handling = .waiting := by decide +kernel
  have hbase : (Table.ofEntities [one]).Readable := readable_ofEntities (by decide) (by decide)
  have htarget : (Table.ofEntities [five]).Readable := readable_ofEntities (by decide) (by decide)
  have hunique : (Table.ofEntities [one]).Unique := by
    intro a ha b hb _
    simp only [Table.ofEntities, List.map_cons, List.map_nil, List.mem_singleton] at ha hb
    rw [ha, hb]
  have hsrc : (w.store .src).table? = some (Table.ofEntities [one]) := table?_ofEntities _ _
  have hdst : (w.store .dst).table? = some (Table.ofEntities [five]) := table?_ofEntities _ _
  have hmade : Consumer.make (.empty 3) w.topic "repair" (w.store .src) (w.store .dst) =
      .ok (w.bus, c) := by decide +kernel
  have hx : x = (start w ((Plan.whole .src).withBatch 1)).run moves := rfl
  rw [hx] at hnotices hok hqueue hidle
  obtain ⟨_, t, ht, hrows⟩ := repairs_converge (p := .whole .src) (n := 1) rfl rfl rfl rfl hmade rfl
    hsrc hbase hunique hdst htarget (by simp [moves, repair]) (by simp [moves, repair]) hnotices
    (hok ▸ rfl) hqueue hidle
  exact ⟨hok, t, ht, hrows⟩

end DualWrite
