import DualWrite.Proofs.Store.Writing
import DualWrite.Proofs.Validation.Turn
import Mathlib.Data.List.Induction

/-!
# Validations in a moving world

A scene is a validation at work in a world where other things happen too. A move is a turn of one
of its scans, or whatever may come between two turns: a store is written, a consumer takes a step,
time passes, the validation is cancelled.
-/
namespace DualWrite

structure Scene where
  world : World
  validation : Validation
  cancelled : Bool

inductive Move where
  | scan (side : Side)
  /-- What a store holds afterwards. -/
  | write (d : Direction) (s : Store)
  | consume (n : Nat)
  | wait (ms : Nat)
  | cancel

def Plan.whole (base : Direction) : Plan := ⟨base, base, .full, 0, 1, 0⟩

namespace World

def ofStores (src dst : Store) : World where
  control := ⟨⟨src, dst, 0⟩, ⟨.srcOnly, none, none, false, 1⟩, [], 0⟩
  bus := .empty 3
  topic := "inconsistency"
  clock := 0
  consumers := []
  awaited := none
  tripwires := []
  events := []
  notices := []

def emit (w : World) (es : List Event) : World :=
  { w with
    events := w.events ++ es
    bus := es.foldl (fun b e => b.publish w.topic e.encode) w.bus }

variable (w : World) (es : List Event) (ns : List Notice)

theorem emit_nil : w.emit [] = w := by simp [emit]

theorem emit_one (e : Event) : w.emit [e] = w.record e := rfl

theorem report_nil : w.report [] = w := by simp [report]

theorem publish_eq (h : w.tripwires = []) (e : Event) : w.publish e = (w.record e, .done) := by
  simp [publish, h]

end World

namespace Scene

def start (w : World) (p : Plan) : Scene := ⟨w, .start p, false⟩

/-- A validation that has ended takes no more turns. -/
def move (x : Scene) : Move → Scene
  | .scan side =>
    if x.validation.result?.isSome then x
    else
      let m := x.world.stepScan x.validation x.cancelled side
      { x with world := m.world, validation := m.validation }
  | .write d s => { x with world := x.world.setStore d s }
  | .consume n => { x with world := (x.world.stepConsumer n).1 }
  | .wait ms => { x with world := x.world.moveTo (x.world.clock + ms) }
  | .cancel => { x with cancelled := true }

def run (x : Scene) (ms : List Move) : Scene := ms.foldl move x

def observed (x : Scene) (side : Side) : Scan :=
  (x.validation.scan side).observe x.cancelled x.world.clock

@[simp] theorem run_nil (x : Scene) : x.run [] = x := rfl

@[simp] theorem run_cons (x : Scene) (m : Move) (ms : List Move) :
    x.run (m :: ms) = (x.move m).run ms := rfl

theorem run_append (x : Scene) (ms ns : List Move) : x.run (ms ++ ns) = (x.run ms).run ns :=
  List.foldl_append

theorem run_concat (x : Scene) (ms : List Move) (m : Move) :
    x.run (ms ++ [m]) = (x.run ms).move m := x.run_append ms [m]

end Scene

namespace Validation
variable (v : Validation) (s : Scan) (side : Side)

@[simp] theorem scan_setScan : (v.setScan s side).scan side = s := by cases side <;> rfl

@[simp] theorem setScan_plan : (v.setScan s side).plan = v.plan := by cases side <;> rfl

@[simp] theorem setScan_setScan (s' : Scan) :
    (v.setScan s side).setScan s' side = v.setScan s' side := by
  cases side <;> rfl

theorem scan_setScan_of_ne {other : Side} (h : other ≠ side) :
    (v.setScan s side).scan other = v.scan other := by
  cases side <;> cases other <;> first | rfl | exact absurd rfl h

/-- What holds of the scan that is set and of every other holds of all. -/
theorem forall_setScan {v : Validation} {s : Scan} {side : Side} {P : Side → Scan → Prop}
    (hs : P side s) (h : ∀ other ≠ side, P other (v.scan other)) (other : Side) :
    P other ((v.setScan s side).scan other) := by
  by_cases ho : other = side
  · subst ho
    rwa [scan_setScan]
  · rw [scan_setScan_of_ne _ _ _ ho]
    exact h other ho

/-- A validation that goes well has gone well on both sides. -/
theorem result?_eq_ok :
    v.result? = some (.ok ()) ↔ ∀ side, (v.scan side).phase = .ended (.ok ()) := by
  constructor
  · intro h
    unfold result? at h
    split at h <;> simp_all
    rintro (_ | _)
    · assumption
    · assumption
  · intro h
    have hf : v.forward.phase = .ended (.ok ()) := h .forward
    have hr : v.reverse.phase = .ended (.ok ()) := h .reverse
    simp [result?, hf, hr]

/-- A validation ends badly only with a scan that has given up. -/
theorem result?_of_unfailed (h : ∀ side, (v.scan side).Unfailed) (hr : v.result?.isSome) :
    v.result? = some (.ok ()) := by
  unfold result? at hr ⊢
  split at hr
  · next e he => exact absurd he (h .forward e)
  · next e he _ => exact absurd he (h .reverse e)
  · rfl
  · cases hr

end Validation

namespace Scan
variable (cancelled : Bool) (now : Nat) (s : Scan)

@[simp] theorem observe_side : (s.observe cancelled now).side = s.side := by
  unfold observe; repeat' split
  all_goals rfl

theorem observe_unfailed (h : s.Unfailed) : (s.observe cancelled now).Unfailed := by
  unfold observe; repeat' split
  all_goals first | exact h | (intro e he; cases he)

@[simp] theorem observe_cursor : (s.observe cancelled now).cursor = s.cursor := by
  unfold observe; repeat' split
  all_goals rfl

/-- Without a cancellation only a pause that is over ends. -/
theorem observe_false : s.observe false now = s ∨
    (∃ t, s.phase = .pausing t) ∧ s.observe false now = { s with phase := .ready } := by
  rw [observe]
  split
  · exact .inl rfl
  · next t ht =>
    simp only [Bool.false_eq_true, if_false]
    split
    · exact .inr ⟨⟨t, ht⟩, rfl⟩
    · exact .inl rfl
  · exact .inl rfl

end Scan

namespace World
variable {w : World} {v : Validation} (side : Side) (cancelled : Bool)

/-- What a turn of a scan does to the world: it sends an event, or reports something. -/
theorem stepScan_eq (ht : w.tripwires = []) (hs : (v.scan side).side = side) :
    let s := (v.scan side).observe cancelled w.clock
    let after := s.served v.plan w.source w.clock
    (w.stepScan v cancelled side).world = (w.emit s.sent).report after.2 ∧
      (w.stepScan v cancelled side).validation = v.setScan after.1 side ∧
      (w.stepScan v cancelled side).panic = none := by
  intro s after
  have hside : s.side = side := by rw [← hs]; exact Scan.observe_side ..
  have hread : ∀ r, s.request = r → (∀ e, r ≠ .publish e) → s.sent = [] := by
    intro r hr hne
    cases r with
    | publish e => exact absurd rfl (hne e)
    | _ => simp only [Scan.sent, hr]
  rcases hr : s.request with c | c | i | is | e | _
  case publish =>
    have hsent : s.sent = [e] := by simp [Scan.sent, hr]
    have hafter : after = s.onPublish (.ok ()) := by simp [after, Scan.served, hr]
    have hnone : (s.onPublish (.ok ())).2 = [] := by
      unfold Scan.onPublish; split <;> rfl
    have hstep : w.stepScan v cancelled side =
        ⟨w.record e, (v.setScan s side).setScan (s.onPublish (.ok ())).1 side, none, true⟩ := by
      simp only [stepScan]
      rw [show ((v.scan side).observe cancelled w.clock).request = .publish e from hr]
      simp only [publish_eq w ht]
      rfl
    rw [hstep, hsent, hafter, hnone, report_nil, emit_one]
    exact ⟨rfl, Validation.setScan_setScan .., rfl⟩
  case nothing =>
    have hsent := hread _ hr (by simp)
    have hafter : after = (s, []) := by simp [after, Scan.served, hr, Scan.reply]
    have hstep : w.stepScan v cancelled side = ⟨w, v.setScan s side, none, false⟩ := by
      simp only [stepScan]
      rw [show ((v.scan side).observe cancelled w.clock).request = .nothing from hr]
    rw [hstep, hsent, hafter, emit_nil, report_nil]
    exact ⟨rfl, rfl, rfl⟩
  all_goals
    have hsent := hread _ hr (by simp)
    obtain ⟨answer, ha⟩ : ∃ a, Scan.reply v.plan w.source side s.request = some a := by
      rw [hr]; exact ⟨_, rfl⟩
    have hafter : after = s.receive v.plan w.clock answer := by
      rw [← hside, hr] at ha
      simp only [after, Scan.served, hr, ha]
    have hstep : w.stepScan v cancelled side = ⟨w.report (s.receive v.plan w.clock answer).2,
        (v.setScan s side).setScan (s.receive v.plan w.clock answer).1 side, none, true⟩ := by
      rw [hr] at ha
      simp only [stepScan, Validation.setScan_plan]
      rw [show ((v.scan side).observe cancelled w.clock).request = _ from hr]
      simp only [ha]
      rfl
    rw [hstep, hsent, hafter, emit_nil]
    exact ⟨rfl, Validation.setScan_setScan .., rfl⟩

end World

namespace Scene
variable {x : Scene}

theorem move_ended (side : Side) (hr : x.validation.result?.isSome) : x.move (.scan side) = x :=
  if_pos hr

theorem move_scan (side : Side) (hr : x.validation.result? = none) (ht : x.world.tripwires = [])
    (hs : (x.validation.scan side).side = side) :
    ∃ es ns s, Scan.Turn x.validation.plan x.world.source x.world.clock (x.observed side) es ns s ∧
      x.move (.scan side) = { x with
        world := (x.world.emit es).report ns, validation := x.validation.setScan s side } := by
  refine ⟨_, _, _, Scan.turn_served _ _ _ (x.observed side), ?_⟩
  obtain ⟨hw, hv, _⟩ := World.stepScan_eq side x.cancelled ht hs
  simp [move, hr, hw, hv, observed]

end Scene

namespace World
variable (w : World) (n : Nat)

@[simp] theorem store_setStore (d d' : Direction) (s : Store) :
    (w.setStore d s).store d' = if d' = d then s else w.store d' := by
  cases d <;> cases d' <;> rfl

@[simp] theorem store_report (d : Direction) (ns : List Notice) :
    (w.report ns).store d = w.store d := rfl

@[simp] theorem store_setConsumer (d : Direction) (c : Consumer) :
    (w.setConsumer n c).store d = w.store d := rfl

theorem lookup_setConsumer {w : World} {n : Nat} (c : Consumer) {c' : Consumer}
    (h : w.consumers.lookup n = some c') : (w.setConsumer n c).consumers.lookup n = some c := by
  simp only [setConsumer]
  generalize w.consumers = ps at h ⊢
  induction ps with
  | nil => cases h
  | cons p ps ih =>
    rw [List.lookup_cons] at h
    rw [List.map_cons, List.lookup_cons]
    by_cases hp : p.1 = n
    · simp [hp]
    · have hne : (n == p.1) = false := beq_false_of_ne (Ne.symm hp)
      rw [hne] at h
      rw [if_neg hp, hne]
      exact ih h

/-- A step of a consumer sends nothing and drops no notice. -/
theorem stepConsumer_frame : (w.stepConsumer n).1.tripwires = w.tripwires ∧
    (w.stepConsumer n).1.events = w.events ∧ (w.stepConsumer n).1.clock = w.clock ∧
    w.notices <+: (w.stepConsumer n).1.notices := by
  rw [stepConsumer]
  repeat' split
  all_goals simp [report, setConsumer, setStore]

theorem stepConsumer_store (d : Direction) : (w.stepConsumer n).1.store d = w.store d ∨
    ∃ st args, (w.stepConsumer n).1.store d = ((w.store d).exec none st args).1 := by
  rw [stepConsumer]
  split
  · exact .inl rfl
  · split
    · split
      · exact .inl rfl
      · split <;> exact .inl rfl
    · exact .inl rfl
    · next c _ e from' row _ =>
      simp only [store_report, store_setConsumer, store_setStore]
      by_cases hd : d = from'.other
      · subst hd
        simp only [if_true, Consumer.onWrite, Fixer.write]
        cases row with
        | none => exact .inr ⟨_, _, rfl⟩
        | some values => exact .inr ⟨_, _, rfl⟩
      · exact .inl (if_neg hd)

end World

namespace Scene

/-- Events sent since a world that lies back. -/
def news (w : World) (x : Scene) : List Event := x.world.events.drop w.events.length

/-- Nobody has meddled with the validation that was started in a world. -/
structure Calm (w : World) (p : Plan) (x : Scene) : Prop where
  plan : x.validation.plan = p
  uncancelled : x.cancelled = false
  tripwires : x.world.tripwires = []
  side : ∀ side, (x.validation.scan side).side = side
  keyed : ∀ d, (x.world.store d).Keyed
  events : x.world.events = w.events ++ x.news w
  notices : w.notices <+: x.world.notices

variable {w : World} {p : Plan} {x : Scene}

theorem calm_start (ht : w.tripwires = []) (hk : ∀ d, (w.store d).Keyed) :
    Calm w p (start w p) where
  plan := rfl
  uncancelled := rfl
  tripwires := ht
  side := by rintro (_ | _) <;> rfl
  keyed := hk
  events := by simp [start, news]
  notices := List.prefix_refl _

theorem news_append (h : x.world.events = w.events ++ x.news w) {y : Scene} {es : List Event}
    (hy : y.world.events = x.world.events ++ es) : y.news w = x.news w ++ es := by
  have hlen : w.events.length ≤ x.world.events.length := by
    rw [h]
    simp
  rw [news, hy]
  exact List.drop_append_of_le_length hlen

theorem Calm.news_append (h : Calm w p x) {y : Scene} {es : List Event}
    (hy : y.world.events = x.world.events ++ es) : y.news w = x.news w ++ es :=
  Scene.news_append h.events hy

theorem Calm.move_scan (h : Calm w p x) (side : Side) (hr : x.validation.result? = none) :
    ∃ es ns s, Scan.Turn p x.world.source x.world.clock (x.observed side) es ns s ∧
      x.move (.scan side) = { x with
        world := (x.world.emit es).report ns, validation := x.validation.setScan s side } :=
  h.plan ▸ Scene.move_scan side hr h.tripwires (h.side side)

theorem Calm.notices_move (h : Calm w p x) (m : Move) :
    x.world.notices <+: (x.move m).world.notices := by
  cases m with
  | consume n => exact (x.world.stepConsumer_frame n).2.2.2
  | scan side =>
    by_cases hr : x.validation.result?.isSome
    · exact ⟨[], by rw [Scene.move_ended side hr, List.append_nil]⟩
    · obtain ⟨es, ns, s, _, he⟩ := h.move_scan side (by simpa using hr)
      rw [he]
      exact List.prefix_append _ _
  | _ => exact List.prefix_refl _

theorem Calm.move (h : Calm w p x) {m : Move} (hc : m ≠ .cancel)
    (hw : ∀ d s, m = .write d s → s.Keyed) : Calm w p (x.move m) := by
  have hnews : ∀ es, x.world.events ++ es = w.events ++
    (x.world.events ++ es).drop w.events.length := by
    intro es
    conv => lhs; rw [h.events]
    conv => rhs; rw [h.events]
    simp
  have hnotices := h.notices.trans (h.notices_move m)
  cases m with
  | cancel => exact absurd rfl hc
  | write d s =>
    refine ⟨h.plan, h.uncancelled, h.tripwires, h.side, ?_, h.events, hnotices⟩
    intro d'
    rw [Scene.move, World.store_setStore]
    split
    · exact hw d s rfl
    · exact h.keyed d'
  | wait ms => exact ⟨h.plan, h.uncancelled, h.tripwires, h.side, h.keyed, h.events, hnotices⟩
  | consume n =>
    obtain ⟨htrip, hevents, _⟩ := x.world.stepConsumer_frame n
    refine ⟨h.plan, h.uncancelled, htrip.trans h.tripwires, h.side, ?_, ?_, hnotices⟩
    · intro d
      rcases x.world.stepConsumer_store n d with hs | ⟨st, args, hs⟩
      · rw [Scene.move, hs]
        exact h.keyed d
      · rw [Scene.move, hs]
        exact (h.keyed d).exec st args
    · rw [Scene.move, news, hevents]
      exact h.events
  | scan side =>
    by_cases hr : x.validation.result?.isSome
    · rw [Scene.move_ended side hr]
      exact h
    · obtain ⟨es, ns, s, turn, he⟩ := h.move_scan side (by simpa using hr)
      rw [he] at hnotices ⊢
      refine ⟨?_, h.uncancelled, h.tripwires, ?_, h.keyed, hnews es, hnotices⟩
      · exact (Validation.setScan_plan ..).trans h.plan
      · have hside : s.side = side :=
          turn.side_eq.trans ((Scan.observe_side ..).trans (h.side side))
        exact Validation.forall_setScan (P := fun other s => s.side = other) hside
          fun other _ => h.side other

/-- What holds at the start and is kept by every move of a run holds at each of its moments. -/
theorem at_every_moment {moves : List Move} {P : List Move → Prop} (h0 : P [])
    (hs : ∀ pre m, pre ++ [m] <+: moves → P pre → P (pre ++ [m])) :
    ∀ pre, pre <+: moves → P pre := by
  intro pre
  induction pre using List.reverseRecOn with
  | nil => exact fun _ => h0
  | append_singleton pre m ih =>
    exact fun hpre => hs pre m hpre (ih ((List.prefix_append _ _).trans hpre))

/-- A run that nobody meddles with is calm at each moment. -/
theorem calm_run {moves : List Move} (ht : w.tripwires = []) (hk : ∀ d, (w.store d).Keyed)
    (hc : .cancel ∉ moves) (hw : ∀ d s, .write d s ∈ moves → s.Keyed) :
    ∀ pre, pre <+: moves → Calm w p ((start w p).run pre) := by
  refine at_every_moment (calm_start ht hk) fun pre m hpre h => ?_
  have hm : m ∈ moves := hpre.subset (by simp)
  rw [run_concat]
  exact h.move (fun he => hc (he ▸ hm)) fun d s he => hw d s (he ▸ hm)

/-- Where nothing has been reported in the end, nothing was reported on the way. -/
theorem notices_eq {moves : List Move}
    (hcalm : ∀ pre, pre <+: moves → Calm w p ((start w p).run pre))
    (hn : ((start w p).run moves).world.notices = w.notices) :
    ∀ pre, pre <+: moves → ((start w p).run pre).world.notices = w.notices := by
  have hgrow : ∀ pre rest, pre ++ rest <+: moves →
      ((start w p).run pre).world.notices <+: ((start w p).run (pre ++ rest)).world.notices := by
    intro pre rest
    induction rest using List.reverseRecOn with
    | nil => simp
    | append_singleton rest m ih =>
      intro hpre
      rw [← List.append_assoc] at hpre ⊢
      have hrest := (List.prefix_append _ _).trans hpre
      rw [run_concat]
      exact (ih hrest).trans ((hcalm _ hrest).notices_move m)
  rintro pre ⟨rest, rfl⟩
  have hlower := (hcalm pre (List.prefix_append _ _)).notices
  have hupper := hgrow pre rest (List.prefix_refl _)
  rw [hn] at hupper
  exact hupper.eq_of_length (Nat.le_antisymm hupper.length_le hlower.length_le)

/-- Where nothing has been reported no scan has given up. -/
theorem unfailed_run {moves : List Move}
    (hcalm : ∀ pre, pre <+: moves → Calm w p ((start w p).run pre))
    (hn : ((start w p).run moves).world.notices = w.notices) :
    ∀ pre, pre <+: moves → ∀ side, (((start w p).run pre).validation.scan side).Unfailed := by
  have hnotices := notices_eq hcalm hn
  refine at_every_moment ?_ fun pre m hpre h => ?_
  · rintro (_ | _) <;> exact Scan.unfailed_of_isEnded _ rfl
  · have hbefore : pre <+: moves := (List.prefix_append _ _).trans hpre
    have hsame : (((start w p).run pre).move m).world.notices =
      ((start w p).run pre).world.notices := by
      rw [← run_concat, hnotices _ hpre, hnotices _ hbefore]
    rw [run_concat]
    cases m with
    | scan side =>
      by_cases hr : ((start w p).run pre).validation.result?.isSome
      · rw [move_ended side hr]
        exact h
      · obtain ⟨es, ns, s, turn, he⟩ := (hcalm pre hbefore).move_scan side (by simpa using hr)
        rw [he] at hsame ⊢
        have hns : ns = [] := List.append_right_eq_self.1 hsame
        have hs : s.Unfailed := turn.unfailed (Scan.observe_unfailed _ _ _ (h side)) hns
        exact Validation.forall_setScan (P := fun _ s => s.Unfailed) hs fun other _ => h other
    | _ => exact h

end Scene

/-- A running validation makes a turn of the forward scan and then one of the reverse scan. -/
theorem World.stepValidation_eq {w : World} {v : Validation} {cancelled : Bool}
    (hr : v.result? = none) (ht : w.tripwires = []) (hf : v.forward.side = .forward) :
    let m := w.stepValidation v cancelled
    (⟨m.world, m.validation, cancelled⟩ : Scene) =
      (⟨w, v, cancelled⟩ : Scene).run [.scan .forward, .scan .reverse] := by
  intro m
  obtain ⟨_, _, hpanic⟩ := stepScan_eq .forward cancelled ht hf
  simp only [m, stepValidation, hpanic, Scene.run_cons, Scene.run_nil, Scene.move, hr]
  by_cases h : (w.stepScan v cancelled .forward).validation.result?.isSome <;> simp [h]

end DualWrite
