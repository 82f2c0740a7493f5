import DualWrite.Proofs.Control.Calls
import DualWrite.Proofs.Control.Migration
import DualWrite.Proofs.Store.Holding

/-!
# The books of the scheduler

Between the calls of the scheduler the runs go on by themselves, consumers repair and callers use
the pool. None of that touches the books: a run keeps its number, its kind and its token. So what
every call keeps holds at every moment, however calls, shutdowns and everything else take turns.
-/
namespace DualWrite

/-- A run that went on by itself; one that has ended stays so. -/
structure Run.Onward (r r' : Run) : Prop where
  id : r'.id = r.id
  mode : r'.mode = r.mode
  cancelled : r'.cancelled = r.cancelled
  running : r'.isRunning → r.isRunning

theorem Run.Onward.refl (r : Run) : r.Onward r := ⟨rfl, rfl, rfl, fun h => h⟩

theorem Run.Onward.trans {r r' r'' : Run} (h : r.Onward r') (h' : r'.Onward r'') : r.Onward r'' :=
  ⟨h'.id.trans h.id, h'.mode.trans h.mode, h'.cancelled.trans h.cancelled,
    fun hr => h.running (h'.running hr)⟩

namespace ControlPlane

structure Onward (c c' : ControlPlane) : Prop where
  code : c'.pool.code = c.pool.code
  scheduler : c'.scheduler = c.scheduler
  nextRun : c'.nextRun = c.nextRun
  runs : List.Forall₂ Run.Onward c.runs c'.runs

namespace Onward
variable {c c' c'' : ControlPlane}

theorem refl (c : ControlPlane) : c.Onward c :=
  ⟨rfl, rfl, rfl, List.forall₂_same.2 fun r _ => .refl r⟩

theorem trans (h : c.Onward c') (h' : c'.Onward c'') : c.Onward c'' := by
  refine ⟨h'.code.trans h.code, h'.scheduler.trans h.scheduler, h'.nextRun.trans h.nextRun, ?_⟩
  obtain ⟨_, _, _, hruns⟩ := h
  obtain ⟨_, _, _, hruns'⟩ := h'
  generalize c.runs = rs, c'.runs = rs', c''.runs = rs'' at hruns hruns' ⊢
  induction hruns generalizing rs'' with
  | nil => exact hruns'
  | cons hr _ ih =>
    obtain ⟨r'', rs, hr', hrest, rfl⟩ := List.forall₂_cons_left_iff.1 hruns'
    exact .cons (hr.trans hr') (ih _ hrest)

theorem stores {p : Pool Store} (hp : p.code = c.pool.code) : c.Onward { c with pool := p } :=
  ⟨hp, rfl, rfl, (refl c).runs⟩

theorem mapRun {id : RunId} {f : Run → Run} (hf : ∀ r ∈ c.runs, r.id = id → r.Onward (f r)) :
    c.Onward (c.mapRun id f) := by
  refine ⟨rfl, rfl, rfl, List.forall₂_map_right_iff.2 (List.forall₂_same.2 fun r hr => ?_)⟩
  split
  · next hid => exact hf r hr hid
  · exact .refl r

theorem ids (h : c.Onward c') : c'.runs.map (·.id) = c.runs.map (·.id) := by
  obtain ⟨_, _, _, hruns⟩ := h
  generalize c.runs = rs, c'.runs = rs' at hruns ⊢
  induction hruns with
  | nil => rfl
  | cons hr _ ih => rw [List.map_cons, List.map_cons, hr.id, ih]

theorem exists_of_mem (h : c.Onward c') {r' : Run} (hr' : r' ∈ c'.runs) :
    ∃ r ∈ c.runs, r.Onward r' := by
  obtain ⟨_, _, _, hruns⟩ := h
  generalize c.runs = rs, c'.runs = rs' at hruns hr' ⊢
  induction hruns with
  | nil => cases hr'
  | cons hr _ ih =>
    rcases List.mem_cons.1 hr' with rfl | hr'
    · exact ⟨_, List.mem_cons_self, hr⟩
    · obtain ⟨r₀, hr₀, ho⟩ := ih hr'
      exact ⟨r₀, List.mem_cons_of_mem _ hr₀, ho⟩

theorem numbered (h : c.Onward c') (hc : c.Numbered) : c'.Numbered := by
  refine ⟨h.ids ▸ hc.distinct, fun r' hr' => ?_⟩
  obtain ⟨r, hr, ho⟩ := h.exists_of_mem hr'
  rw [ho.id, h.nextRun]
  exact hc.below r hr

end Onward

theorem Kept.onward {left : List RunId} {c c' : ControlPlane} (h : Kept left c) (ho : c.Onward c') :
    Kept left c' := by
  refine ⟨?_, ?_, ?_, ?_, ?_, ?_⟩
  · rw [Pool.pattern, ho.code, ho.scheduler]
    exact h.agreed
  · rw [ho.ids, ho.nextRun]
    exact h.listed
  · intro mode id hid r' hr' he
    obtain ⟨r, hr, hrun⟩ := ho.exists_of_mem hr'
    rw [ho.scheduler] at hid
    exact hrun.mode.trans (h.filed hid r hr (hrun.id.symm.trans he))
  · intro mode id hid
    rw [ho.scheduler] at hid
    rw [ho.nextRun]
    exact h.begun hid
  · intro r' hr' hslot
    obtain ⟨r, hr, hrun⟩ := ho.exists_of_mem hr'
    rw [ho.scheduler, hrun.mode, hrun.id] at hslot
    rw [hrun.cancelled, hrun.id]
    exact h.retired r hr hslot
  · intro id hid
    rw [ho.scheduler, ho.nextRun]
    exact h.apart id hid

end ControlPlane

namespace World
open ControlPlane

def StoresOnly (w w' : World) : Prop :=
  ∃ p : Pool Store, p.code = w.control.pool.code ∧ w'.control = { w.control with pool := p }

theorem StoresOnly.refl (w : World) : w.StoresOnly w := ⟨w.control.pool, rfl, rfl⟩

theorem StoresOnly.trans {w w' w'' : World} (h : w.StoresOnly w') (h' : w'.StoresOnly w'') :
    w.StoresOnly w'' := by
  obtain ⟨p, hp, hc⟩ := h
  obtain ⟨p', hp', hc'⟩ := h'
  rw [hc] at hp' hc'
  exact ⟨p', hp'.trans hp, hc'⟩

theorem StoresOnly.onward {w w' : World} (h : w.StoresOnly w') : w.control.Onward w'.control := by
  obtain ⟨p, hp, hc⟩ := h
  rw [hc]
  exact .stores hp

/-- Even where somebody meddles with a publication. -/
theorem publish_stores (w : World) (e : Event) : w.StoresOnly (w.publish e).1 := by
  rw [publish]
  split
  · exact .refl w
  · next t _ =>
    cases t.act with
    | fail | panic | cancel => exact .refl w
    | exec d st args =>
      have hset : w.StoresOnly (w.setStore d ((w.store d).exec none st args).1) :=
        ⟨_, Pool.setStore_code .., rfl⟩
      dsimp only
      split <;> exact hset

theorem stepScan_stores (w : World) (v : Validation) (cancelled : Bool) (side : Side) :
    w.StoresOnly (w.stepScan v cancelled side).world := by
  rw [stepScan]
  split
  · exact .refl w
  · next e _ =>
    have hpublish := w.publish_stores e
    split
    all_goals next he => rw [he] at hpublish; exact hpublish
  · split <;> exact .refl w

theorem stepValidation_stores (w : World) (v : Validation) (cancelled : Bool) :
    w.StoresOnly (w.stepValidation v cancelled).world := by
  rw [stepValidation]
  split
  · exact w.stepScan_stores v cancelled .forward
  · exact (w.stepScan_stores v cancelled .forward).trans (stepScan_stores _ _ _ _)

theorem closeRun_onward (w : World) (id : RunId) (mode : ScanMode) (m : Moved) :
    w.control.Onward (w.closeRun id mode m).control := by
  have hset : w.control.Onward (w.mapRun id (Run.setValidation m.validation)).control :=
    .mapRun fun _ _ _ => ⟨rfl, rfl, rfl, fun h => h⟩
  rw [closeRun]
  split
  · refine hset.trans (.mapRun fun _ _ _ => ⟨rfl, rfl, rfl, fun hactive => ?_⟩)
    cases hactive
  · refine hset.trans (.mapRun fun _ _ _ => ⟨rfl, rfl, rfl, fun hactive => ?_⟩)
    cases hactive
  · exact hset

theorem announceRun_onward {w : World} (h : w.control.Numbered) (id : RunId) :
    w.control.Onward (w.announceRun id).control := by
  rcases w.announceRun_cases id with he | ⟨r, ns, hr, hrunning, he⟩
  · rw [he]
    exact .refl _
  · rw [he]
    refine .mapRun fun r' hr' hid => ⟨rfl, rfl, rfl, fun _ => ?_⟩
    rw [h.eq_of_run? hr hr' hid]
    exact hrunning

theorem scanRun_onward (w : World) (id : RunId) (side : Side) :
    w.control.Onward (w.scanRun id side).control := by
  rw [scanRun]
  split
  · exact (w.stepScan_stores _ _ _).onward.trans (closeRun_onward _ _ _ _)
  · exact .refl _

theorem stepRun_onward {w : World} (h : w.control.Numbered) (id : RunId) :
    w.control.Onward (w.stepRun id).1.control := by
  cases hr : w.control.run? id with
  | none =>
    rw [stepRun, hr]
    exact .refl _
  | some r =>
    rcases r with ⟨i, mode, v, cancelled, state⟩
    cases state with
    | waiting =>
      rw [stepRun_waiting hr rfl]
      exact announceRun_onward h id
    | active =>
      rw [stepRun_eq hr]
      exact (w.stepValidation_stores v cancelled).onward.trans (closeRun_onward _ _ _ _)
    | finished | panicked =>
      rw [stepRun, hr]
      exact .refl _

theorem stepAwaited_onward (w : World) : w.control.Onward w.stepAwaited.1.control := by
  rw [stepAwaited]
  split
  · exact .refl _
  · split
    · exact .refl _
    · exact (w.stepValidation_stores _ _).onward

theorem stepConsumer_onward (w : World) (n : Nat) :
    w.control.Onward (w.stepConsumer n).1.control := by
  obtain ⟨p, hp, hc⟩ := w.stepConsumer_control n
  rw [hc]
  exact .stores hp

theorem foldl_onward {α : Type} (step : World → α → World × Bool)
    (hstep : ∀ w : World, w.control.Numbered → ∀ a, w.control.Onward (step w a).1.control)
    (as : List α) {w : World} (h : w.control.Numbered) (b : Bool) : w.control.Onward
      (as.foldl (fun y a => ((step y.1 a).1, y.2 || (step y.1 a).2)) (w, b)).1.control := by
  induction as generalizing w b with
  | nil => exact .refl _
  | cons a as ih =>
    have hfirst := hstep w h a
    exact hfirst.trans (ih (hfirst.numbered h) _)

theorem pass_onward {w : World} (h : w.control.Numbered) : w.control.Onward w.pass.1.control := by
  have hawaited := w.stepAwaited_onward
  have hruns := foldl_onward stepRun (fun _ hw id => stepRun_onward hw id)
    ((w.stepAwaited.1.control.runs.filter Run.isRunning).map (·.id)) (hawaited.numbered h)
    w.stepAwaited.2
  exact (hawaited.trans hruns).trans
    (foldl_onward (fun w (c : Nat × Consumer) => w.stepConsumer c.1)
      (fun w _ c => w.stepConsumer_onward c.1) _ ((hawaited.trans hruns).numbered h) _)

theorem passUntilEnded_onward (id : RunId) (fuel : Nat) {w : World} (h : w.control.Numbered) :
    w.control.Onward (w.passUntilEnded id fuel).control := by
  induction fuel generalizing w with
  | zero => exact .refl _
  | succ fuel ih =>
    simp only [passUntilEnded]
    split
    · split
      · exact (pass_onward h).trans (ih ((pass_onward h).numbered h))
      · exact pass_onward h
    · exact .refl _

theorem awaitRun_onward (id : RunId) {w : World} (h : w.control.Numbered) :
    w.control.Onward (w.awaitRun id).control :=
  passUntilEnded_onward id enough h

/-- A shutdown cancels all that it took out of the slots, whatever goes on while it waits. -/
theorem shutdown_kept {left : List RunId} {w : World} (h : Kept left w.control) :
    Kept left w.shutdown.control := by
  have hall : ∀ ids (w : World), Kept (left ++ ids) w.control →
      Kept left (ids.foldl (fun w id => { w with control := w.control.cancel id }.awaitRun id)
        w).control := by
    intro ids
    induction ids with
    | nil => exact fun w hw => List.append_nil left ▸ hw
    | cons id ids ih =>
      intro w hw
      have hcancel : Kept (left ++ ids) (w.control.cancel id) := hw.cancel
      exact ih _ (hcancel.onward
        (awaitRun_onward id (w := { w with control := w.control.cancel id }) hcancel.numbered))
  exact hall w.control.takeRuns.2.1 _ h.takeRuns

theorem shutdown_poisoned {w : World} (h : w.control.scheduler.poisoned = true) :
    w.shutdown.control = w.control := by
  simp only [shutdown, takeRuns, h, if_true]
  rfl

def serve (w : World) (k : ControlPlane.Call) : World :=
  { w with control := (w.control.serve k).after }.report (w.control.serve k).notices

end World

namespace Migration
open ControlPlane

/-- Calls of the scheduler, shutdowns that are waited for, and all that goes on besides. -/
inductive Step where
  | call (k : ControlPlane.Call)
  | shutdown
  | move (m : Move)

def step (x : Migration) : Step → Migration
  | .call k => { x with world := x.world.serve k }
  | .shutdown => { x with world := x.world.shutdown }
  | .move m => x.move m

def follow (x : Migration) (ss : List Step) : Migration := ss.foldl step x

variable {left : List RunId} {x : Migration}

/-- A move is a command of the operator, which the scheduler serves like any call, or none of its
business. -/
theorem move_cases (h : Kept left x.world.control) (m : Move) :
    (∃ k, m = .command k ∧ (x.move m).world.control = (x.world.control.serve k.call).after) ∨
      (∀ k, m ≠ .command k) ∧ x.world.control.Onward (x.move m).world.control := by
  cases m with
  | call c => exact .inr ⟨nofun, .stores (x.service.call_code h.agreed c)⟩
  | command k => exact .inl ⟨k, rfl, k.run_after x.world.control⟩
  | announce id => exact .inr ⟨nofun, World.announceRun_onward h.numbered id⟩
  | scan id side => exact .inr ⟨nofun, x.world.scanRun_onward id side⟩
  | consume n => exact .inr ⟨nofun, x.world.stepConsumer_onward n⟩
  | wait ms => exact .inr ⟨nofun, .refl _⟩

theorem move_kept (h : Kept left x.world.control) (m : Move) :
    Kept left (x.move m).world.control := by
  rcases move_cases h m with ⟨k, _, he⟩ | ⟨_, ho⟩
  · rw [he]
    exact h.serve k.call
  · exact h.onward ho

theorem step_kept (h : Kept left x.world.control) (s : Step) :
    Kept left (x.step s).world.control := by
  cases s with
  | call k => exact h.serve k
  | shutdown => exact World.shutdown_kept h
  | move m => exact move_kept h m

theorem follow_kept (h : Kept left x.world.control) (ss : List Step) :
    Kept left (x.follow ss).world.control := by
  induction ss generalizing x with
  | nil => exact h
  | cons s ss ih => exact ih (step_kept h s)

theorem step_poisoned (h : Kept left x.world.control)
    (hp : x.world.control.scheduler.poisoned = true)
    (s : Step) : x.world.control.Onward (x.step s).world.control := by
  cases s with
  | call k =>
    have hserve : (x.step (.call k)).world.control = x.world.control := by
      simp only [step, World.serve, serve_poisoned hp]
      rfl
    rw [hserve]
    exact .refl _
  | shutdown =>
    rw [step, World.shutdown_poisoned hp]
    exact .refl _
  | move m =>
    rcases move_cases h m with ⟨k, _, he⟩ | ⟨_, ho⟩
    · rw [step, he, serve_poisoned hp]
      exact .refl _
    · exact ho

theorem follow_poisoned (h : Kept left x.world.control)
    (hp : x.world.control.scheduler.poisoned = true) (ss : List Step) :
    x.world.control.Onward (x.follow ss).world.control := by
  induction ss generalizing x with
  | nil => exact .refl _
  | cons s ss ih =>
    have hfirst := step_poisoned h hp s
    exact hfirst.trans (ih (h.onward hfirst) (hfirst.scheduler ▸ hp))

/-- At every moment the pool and the scheduler agree on the pattern, and every run that is in no
slot is cancelled. What is done to one kind of runs leaves the slot and the runs of the other kind
alone, and what is done to no kind leaves all of them alone. Once the lock is poisoned all calls are
refused, and the pattern, the pool's code, the slots and the tokens stay as they are. -/
theorem books_are_kept {w : World} {p : Pool Store} {batch : Int}
    (hmade : ControlPlane.make p batch = .ok w.control) (ss : List Step) :
    let x := (start w).follow ss
    let c := x.world.control
    c.pool.pattern = .ok c.scheduler.pattern ∧
    c.runs.map (·.id) = List.range c.nextRun ∧
    (∀ r ∈ c.runs, c.scheduler.slot r.mode ≠ some r.id → r.cancelled = true) ∧
    (∀ (k : ControlPlane.Call) mode other, k.mode? = some mode → other ≠ mode →
      (c.serve k).after.scheduler.slot other = c.scheduler.slot other ∧
      (c.serve k).after.runs.filter (·.mode = other) = c.runs.filter (·.mode = other)) ∧
    (∀ k : ControlPlane.Call, k.mode? = none → (c.serve k).after.runs = c.runs ∧
      ∀ mode, (c.serve k).after.scheduler.slot mode = c.scheduler.slot mode) ∧
    (c.scheduler.poisoned = true →
      (∀ k, c.serve k = ⟨c, some (.error .poisoned), []⟩) ∧ x.world.shutdown.control = c ∧
      ∀ more, c.Onward (x.follow more).world.control) := by
  intro x c
  have h : Kept [] c := follow_kept (x := start w) (kept_made hmade) ss
  refine ⟨h.agreed, h.listed, fun r hr hslot => ?_, fun k mode other => h.serve_other,
    fun k => serve_spares, fun hp => ⟨serve_poisoned hp, World.shutdown_poisoned hp,
      follow_poisoned h hp⟩⟩
  exact (h.retired r hr hslot).resolve_right List.not_mem_nil

/-- Two runs are shut down, a third goes on until a start that panics cancels it. -/
theorem books_are_kept_when_a_start_panics :
    let w := World.ofStores (.ofEntities "src" [.plain 1 0]) (.ofEntities "dst" [])
    let ss : List Step := [.call .startFull, .call (.startIncremental 0 1000), .shutdown,
      .call (.switchTo .dstFirst), .call .startFull, .move (.announce 2),
      .call (.brokenStart .full)]
    let x := (start w).follow ss
    let c := x.world.control
    c.runs.map (·.id) = [0, 1, 2] ∧ (∀ r ∈ c.runs, r.cancelled = true) ∧
      c.pool.pattern = .ok .dstFirst ∧
      c.serve (.switchTo .srcOnly) = ⟨c, some (.error .poisoned), []⟩ ∧
      (x.follow [.call .startFull, .shutdown]).world.control.scheduler = c.scheduler := by
  intro w ss x c
  have hmade : ControlPlane.make w.control.pool 1 = .ok w.control := rfl
  have hkept := books_are_kept hmade ss
  have hpattern : c.scheduler.pattern = .dstFirst := by decide +kernel
  have hnext : c.nextRun = 3 := by decide +kernel
  have hslots : c.scheduler.full = none ∧ c.scheduler.incremental = none := by decide +kernel
  have hp : c.scheduler.poisoned = true := by decide +kernel
  have hx : x = (start w).follow ss := rfl
  dsimp only at hkept
  rw [← hx] at hkept
  clear_value x
  obtain ⟨hagreed, hlisted, hretired, _, _, hpoisoned⟩ := hkept
  have hslot : ∀ mode, c.scheduler.slot mode = none := by
    rintro (_ | _)
    · exact hslots.1
    · exact hslots.2
  obtain ⟨hrefused, _, hstays⟩ := hpoisoned hp
  refine ⟨?_, fun r hr => hretired r hr ?_, ?_, hrefused _, (hstays _).scheduler⟩
  · rw [hlisted, hnext]
    rfl
  · rw [hslot]
    simp
  · rw [hagreed, hpattern]

end Migration
end DualWrite
