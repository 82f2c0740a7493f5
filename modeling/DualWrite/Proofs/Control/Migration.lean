import DualWrite.Proofs.Control.Commands
import DualWrite.Proofs.Pool.Service
import DualWrite.Proofs.Validation.Labels

/-!
# A migration in motion

Callers use the pool, an operator gives the commands of the control plane, runs make their requests,
consumers repair and time passes, in any order. Meanwhile the pool and the scheduler are of one mind
about the pattern, and every run names the store in its events that it was started on.
-/
namespace DualWrite

namespace World

def withPool (w : World) (p : Pool Store) : World :=
  { w with control := { w.control with pool := p } }

def command (w : World) (k : Http.Call) : World :=
  { w with control := (k.run w.control).after }.report (k.run w.control).notices

end World

/-- A world and the transactions that callers have opened through its pool, by their numbers. -/
structure Migration where
  world : World
  opened : List (Option Pool.Transaction)

namespace Migration

inductive Move where
  | call (c : Service.Call)
  | command (k : Http.Call)
  /-- A run is looked at for the first time. -/
  | announce (id : RunId)
  | scan (id : RunId) (side : Side)
  | consume (n : Nat)
  | wait (ms : Nat)

def Move.isBackground : Move → Bool
  | .announce _ | .scan _ _ | .consume _ => true
  | .call _ | .command _ | .wait _ => false

def start (w : World) : Migration := ⟨w, []⟩

def service (x : Migration) : Service Store := ⟨x.world.control.pool, x.opened⟩

def move (x : Migration) : Move → Migration
  | .call c =>
    let y := (x.service.call c).1
    ⟨x.world.withPool y.pool, y.opened⟩
  | .command k => { x with world := x.world.command k }
  | .announce id => { x with world := x.world.announceRun id }
  | .scan id side => { x with world := x.world.scanRun id side }
  | .consume n => { x with world := (x.world.stepConsumer n).1 }
  | .wait ms => { x with world := x.world.moveTo (x.world.clock + ms) }

def run (x : Migration) (ms : List Move) : Migration := ms.foldl move x

@[simp] theorem run_nil (x : Migration) : x.run [] = x := rfl

theorem run_append (x : Migration) (ms ns : List Move) : x.run (ms ++ ns) = (x.run ms).run ns :=
  List.foldl_append

theorem run_concat (x : Migration) (ms : List Move) (m : Move) :
    x.run (ms ++ [m]) = (x.run ms).move m := x.run_append ms [m]

end Migration

namespace World

/-- Nobody meddles with publications, the pool and the scheduler agree on the pattern, and every run
has a number of its own and names its base in its events. -/
structure Steady (w : World) : Prop where
  tripwires : w.tripwires = []
  live : w.control.pool.pattern = .ok w.control.scheduler.pattern
  labelled : ∀ r ∈ w.control.runs, r.validation.Labelled
  numbered : w.control.Numbered

theorem steady_made {w : World} {p : Pool Store} {batch : Int}
    (hmade : ControlPlane.make p batch = .ok w.control) (ht : w.tripwires = []) : w.Steady := by
  rw [ControlPlane.make] at hmade
  split at hmade
  · cases hmade
  · next q hq =>
    obtain hcontrol := Except.ok.inj hmade
    constructor
    · exact ht
    · rw [← hcontrol]
      exact hq
    · rw [← hcontrol]
      exact fun r hr => absurd hr List.not_mem_nil
    · rw [← hcontrol]
      exact ⟨List.nodup_nil, fun r hr => absurd hr List.not_mem_nil⟩

/-- A consumer changes nothing of the control plane but the stores. -/
theorem stepConsumer_control (w : World) (n : Nat) : ∃ p, p.code = w.control.pool.code ∧
    (w.stepConsumer n).1.control = { w.control with pool := p } := by
  have hsame : ∃ p : Pool Store, p.code = w.control.pool.code ∧
      w.control = { w.control with pool := p } := ⟨_, rfl, rfl⟩
  rw [stepConsumer]
  split
  · exact hsame
  · split
    · split
      · exact hsame
      · split <;> exact hsame
    · exact hsame
    · exact ⟨_, Pool.setStore_code .., rfl⟩

theorem announceRun_cases (w : World) (id : RunId) : w.announceRun id = w ∨
    ∃ r ns, w.control.run? id = some r ∧ r.isRunning ∧
      w.announceRun id = (w.mapRun id (Run.setState .active)).report ns := by
  rw [announceRun]
  split
  · next hr => exact .inr ⟨_, _, hr, rfl, rfl⟩
  · exact .inl rfl

structure RunsOnly (w w' : World) : Prop where
  pool : w'.control.pool = w.control.pool
  scheduler : w'.control.scheduler = w.control.scheduler
  awaited : w'.awaited = w.awaited

theorem announceRun_frame (w : World) (id : RunId) : RunsOnly w (w.announceRun id) := by
  rcases w.announceRun_cases id with he | ⟨_, _, _, _, he⟩ <;> (rw [he]; exact ⟨rfl, rfl, rfl⟩)

theorem closeRun_eq (w : World) (id : RunId) (mode : ScanMode) {m : Moved} (hp : m.panic = none) :
    ∃ f ns, (∀ r, (f r).validation = m.validation ∧ (f r).id = r.id) ∧
      w.closeRun id mode m = (w.mapRun id f).report ns := by
  rw [closeRun, hp]
  cases m.validation.result? with
  | none => exact ⟨Run.setValidation m.validation, [], fun _ => ⟨rfl, rfl⟩, (report_nil _).symm⟩
  | some result =>
    refine ⟨fun r => (r.setValidation m.validation).setState .finished, [ending mode result],
      fun _ => ⟨rfl, rfl⟩, ?_⟩
    exact congrArg (report · _) (mapRun_mapRun w id fun _ => rfl)

namespace Steady
variable {w : World} (h : w.Steady)
include h

theorem run? {id : RunId} {r : Run} (hr : w.control.run? id = some r) : r.validation.Labelled :=
  h.labelled r (List.mem_of_find?_eq_some hr)

/-- A request of a run's scan is a turn of that scan. -/
theorem scanRun_turn (id : RunId) (side : Side) : w.scanRun id side = w ∨
    ∃ r, w.control.run? id = some r ∧ r.state = .active ∧ ∃ s ns f,
      Scan.Turn r.validation.plan w.source w.clock
        ((r.validation.scan side).observe r.cancelled w.clock)
        ((r.validation.scan side).observe r.cancelled w.clock).sent ns s ∧
      (∀ r', (f r').validation = r.validation.setScan s side ∧ (f r').id = r'.id) ∧
      ∃ ns', w.scanRun id side =
        ((w.emit ((r.validation.scan side).observe r.cancelled w.clock).sent).mapRun id f).report
          ns' := by
  rw [scanRun]
  split
  · next i mode v cancelled hr =>
    have hlabelled : v.Labelled := h.run? hr
    obtain ⟨hworld, hvalidation, hpanic⟩ :=
      stepScan_eq side cancelled h.tripwires (hlabelled.side side)
    obtain ⟨f, ns, hf, hclosed⟩ := closeRun_eq (w.stepScan v cancelled side).world id mode hpanic
    refine .inr ⟨_, hr, rfl, _, _, f, Scan.turn_served v.plan w.source w.clock _, fun r' => ?_, ?_⟩
    · exact ⟨(hf r').1.trans hvalidation, (hf r').2⟩
    · rw [hclosed, hworld]
      exact ⟨_, by simp only [report, mapRun, List.append_assoc]; rfl⟩
  · exact .inl rfl

/-- What a request of a run's scan does: it sends events that name the base of that run, and the run
goes on. -/
theorem scanRun_cases (id : RunId) (side : Side) : w.scanRun id side = w ∨
    ∃ r ∈ w.control.runs, r.isRunning ∧ ∃ v es ns f, v.Labelled ∧ v.plan = r.validation.plan ∧
      Names v.plan.base es ∧ (∀ r', (f r').validation = v ∧ (f r').id = r'.id) ∧
      w.scanRun id side = ((w.emit es).mapRun id f).report ns := by
  rcases h.scanRun_turn id side with hsame | ⟨r, hr, hactive, s, _, f, turn, hf, ns, he⟩
  · exact .inl hsame
  · obtain ⟨hlabelled, hnames⟩ := (h.run? hr).turn turn
    have hplan : (r.validation.setScan s side).plan = r.validation.plan :=
      r.validation.setScan_plan s side
    have hrunning : r.isRunning := by rw [Run.isRunning, hactive]
    exact .inr ⟨r, List.mem_of_find?_eq_some hr, hrunning, _, _, ns, f, hlabelled, hplan,
      hplan ▸ hnames, hf, he⟩

theorem scanRun_frame (id : RunId) (side : Side) : RunsOnly w (w.scanRun id side) := by
  rcases h.scanRun_cases id side with he | ⟨_, _, _, _, _, _, _, _, _, _, _, he⟩ <;>
    (rw [he]; exact ⟨rfl, rfl, rfl⟩)

theorem mapRun {id : RunId} {f : Run → Run} {ns : List Notice}
    (hf : ∀ r, r.validation.Labelled → (f r).validation.Labelled) (hid : ∀ r, (f r).id = r.id) :
    ((w.mapRun id f).report ns).Steady :=
  ⟨h.tripwires, h.live, ControlPlane.forall_mapRun _ _ h.labelled hf, h.numbered.mapRun id hid⟩

end Steady
end World

namespace Migration
open World

theorem steady_move {x : Migration} (h : x.world.Steady) (m : Move) : (x.move m).world.Steady := by
  cases m with
  | call c =>
    refine ⟨h.tripwires, ?_, h.labelled, ⟨h.numbered.distinct, h.numbered.below⟩⟩
    have hcode := x.service.call_code h.live c
    change Pattern.ofCode (x.service.call c).1.pool.code = _
    rw [hcode]
    exact h.live
  | command k =>
    refine ⟨h.tripwires, (k.run_frame h.live).2.1, ?_, k.run_numbered h.numbered⟩
    refine k.forall_run h.labelled (fun _ => id) fun n plan _ hlabel => ?_
    exact Validation.labelled_start hlabel
  | announce id =>
    rcases x.world.announceRun_cases id with hsame | ⟨_, ns, _, _, he⟩
    · rw [move, hsame]
      exact h
    · rw [move, he]
      exact h.mapRun (fun _ hv => hv) fun _ => rfl
  | scan id side =>
    rcases h.scanRun_cases id side with hsame | ⟨r, _, _, v, es, ns, f, hv, _, _, hf, he⟩
    · rw [move, hsame]
      exact h
    · have hsent : (x.world.emit es).Steady := ⟨h.tripwires, h.live, h.labelled, h.numbered⟩
      rw [move, he]
      exact hsent.mapRun (fun r' _ => (hf r').1 ▸ hv) fun r' => (hf r').2
  | consume n =>
    obtain ⟨p, hcode, hcontrol⟩ := x.world.stepConsumer_control n
    refine ⟨(x.world.stepConsumer_frame n).1.trans h.tripwires, ?_, ?_, ?_⟩
    · rw [move, hcontrol]
      change Pattern.ofCode p.code = _
      rw [hcode]
      exact h.live
    · rw [move, hcontrol]
      exact h.labelled
    · rw [move, hcontrol]
      exact ⟨h.numbered.distinct, h.numbered.below⟩
  | wait ms => exact ⟨h.tripwires, h.live, h.labelled, h.numbered⟩

theorem steady_run {x : Migration} (h : x.world.Steady) (ms : List Move) :
    (x.run ms).world.Steady := by
  induction ms generalizing x with
  | nil => exact h
  | cons m ms ih => exact ih (steady_move h m)

/-- No background work waits for a validation that a caller awaits. -/
theorem awaited_move {x : Migration} (h : x.world.Steady) {m : Move} (hm : m.isBackground)
    (ha : x.world.awaited = none) : (x.move m).world.awaited = none := by
  cases m with
  | announce id => exact (x.world.announceRun_frame id).awaited.trans ha
  | scan id side => exact (h.scanRun_frame id side).awaited.trans ha
  | consume n =>
    rw [move, World.stepConsumer]
    repeat' split
    all_goals exact ha
  | _ => cases hm

def Background (x : Migration) (w : World) : Prop :=
  ∃ ms, (∀ m ∈ ms, m.isBackground) ∧ (⟨w, x.opened⟩ : Migration) = x.run ms

theorem Background.refl (x : Migration) : Background x x.world := ⟨[], by simp, rfl⟩

theorem Background.trans {x : Migration} {w w' : World} (h : Background x w)
    (h' : Background ⟨w, x.opened⟩ w') : Background x w' := by
  obtain ⟨ms, hms, he⟩ := h
  obtain ⟨ns, hns, he'⟩ := h'
  refine ⟨ms ++ ns, ?_, ?_⟩
  · intro m hm
    exact (List.mem_append.1 hm).elim (hms m) (hns m)
  · rw [run_append, ← he]
    exact he'

theorem Background.steady {x : Migration} {w : World} (h : Background x w) (hx : x.world.Steady) :
    w.Steady := by
  obtain ⟨ms, _, he⟩ := h
  have hrun := steady_run hx ms
  rwa [← he] at hrun

theorem Background.awaited {x : Migration} {w : World} (h : Background x w) (hx : x.world.Steady)
    (ha : x.world.awaited = none) : w.awaited = none := by
  obtain ⟨ms, hms, he⟩ := h
  have hrun : (x.run ms).world.awaited = none := by
    clear he
    induction ms generalizing x with
    | nil => exact ha
    | cons m ms ih =>
      obtain ⟨hm, hrest⟩ := List.forall_mem_cons.1 hms
      exact ih (steady_move hx m) (awaited_move hx hm ha) hrest
  rwa [← he] at hrun

theorem background_stepRun {x : Migration} (h : x.world.Steady) (id : RunId) :
    Background x (x.world.stepRun id).1 := by
  cases hr : x.world.control.run? id with
  | none =>
    rw [stepRun, hr]
    exact .refl x
  | some r =>
    rcases r with ⟨i, mode, v, cancelled, state⟩
    cases state with
    | waiting =>
      refine ⟨[.announce id], by simp [Move.isBackground], ?_⟩
      rw [stepRun_waiting hr rfl]
      rfl
    | active =>
      refine ⟨[.scan id .forward, .scan id .reverse], by simp [Move.isBackground], ?_⟩
      rw [stepRun_active hr h.tripwires (h.run? hr).side]
      rfl
    | finished | panicked =>
      rw [stepRun, hr]
      exact .refl x

theorem background_stepConsumer (x : Migration) (n : Nat) :
    Background x (x.world.stepConsumer n).1 :=
  ⟨[.consume n], by simp [Move.isBackground], rfl⟩

theorem background_foldl {α : Type} (step : World → α → World × Bool)
    (hstep : ∀ x : Migration, x.world.Steady → ∀ a, Background x (step x.world a).1) (as : List α)
    {x : Migration} (h : x.world.Steady) (b : Bool) :
    Background x (as.foldl (fun y a => ((step y.1 a).1, y.2 || (step y.1 a).2))
      (x.world, b)).1 := by
  induction as generalizing x b with
  | nil => exact .refl x
  | cons a as ih =>
    have hfirst := hstep x h a
    exact hfirst.trans (ih (x := ⟨_, x.opened⟩) (hfirst.steady h) _)

theorem background_pass {x : Migration} (h : x.world.Steady) (ha : x.world.awaited = none) :
    Background x x.world.pass.1 := by
  have hidle : x.world.stepAwaited = (x.world, false) := by rw [stepAwaited, ha]
  simp only [World.pass, hidle]
  have hruns := background_foldl stepRun (fun _ hx id => background_stepRun hx id)
    ((x.world.control.runs.filter Run.isRunning).map (·.id)) h false
  exact hruns.trans (background_foldl (fun w (c : Nat × Consumer) => w.stepConsumer c.1)
    (fun x _ c => x.background_stepConsumer c.1) _ (x := ⟨_, x.opened⟩) (hruns.steady h) _)

/-- Whatever goes on by itself until nothing can move is a run of such moves. -/
theorem background_settle {x : Migration} (h : x.world.Steady) (ha : x.world.awaited = none)
    (fuel : Nat) : Background x (x.world.settle fuel) := by
  induction fuel generalizing x with
  | zero => exact .refl x
  | succ fuel ih =>
    have hpass := background_pass h ha
    simp only [settle]
    split
    · exact hpass.trans (ih (x := ⟨_, x.opened⟩) (hpass.steady h) (hpass.awaited h ha))
    · exact hpass

end Migration

end DualWrite
