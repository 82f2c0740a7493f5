import DualWrite.Proofs.Control.Bookkeeping
import Mathlib.Data.List.Infix

/-!
# Shutdowns and the runs that go on

A shutdown empties both slots under the lock. After that, without the lock, it cancels the runs that
it took out, one after the other, and waits for the end of each before it turns to the next.
Meanwhile other calls are served. The runs that are neither ended nor cancelled are counted here at
every moment.
-/
namespace DualWrite

def Run.isLive (r : Run) : Bool := r.isRunning && !r.cancelled

def ControlPlane.live (c : ControlPlane) (mode : ScanMode) : Nat :=
  c.runs.countP fun r => r.isLive && decide (r.mode = mode)

/-- A shutdown on its way: the run whose end it waits for, and those that it has not cancelled
yet. -/
structure Shutdown where
  awaited : Option RunId
  left : List RunId
deriving Repr, DecidableEq

/-- A migration and the shutdowns that were begun. -/
structure Operation where
  migration : Migration
  shutdowns : List Shutdown

namespace Operation

inductive Move where
  | call (k : ControlPlane.Call)
  /-- A shutdown begins: it empties the slots. -/
  | shutdown
  /-- A shutdown does what comes next, unless it has to wait. -/
  | proceed (n : Nat)
  | migrate (m : Migration.Move)

def start (w : World) : Operation := ⟨.start w, []⟩

def world (x : Operation) : World := x.migration.world

def withWorld (x : Operation) (w : World) : Operation := { x with migration.world := w }

/-- The runs that shutdowns have taken out of their slots and not cancelled yet. -/
def left (x : Operation) : List RunId := x.shutdowns.flatMap (·.left)

def proceed (x : Operation) (n : Nat) : Operation :=
  match x.shutdowns[n]? with
  | none => x
  | some ⟨some id, ids⟩ =>
    if x.world.control.isRunning (some id) then x
    else
      ⟨{ x.migration with world := x.world.report (x.world.control.awaited id) },
        x.shutdowns.set n ⟨none, ids⟩⟩
  | some ⟨none, []⟩ => x
  | some ⟨none, id :: ids⟩ =>
    ⟨{ x.migration with world := { x.world with control := x.world.control.cancel id } },
      x.shutdowns.set n ⟨some id, ids⟩⟩

def move (x : Operation) : Move → Operation
  | .call k => x.withWorld (x.world.serve k)
  | .shutdown =>
    let (c, ids, ns) := x.world.control.takeRuns
    ⟨{ x.migration with world := { x.world with control := c }.report ns },
      x.shutdowns ++ [⟨none, ids⟩]⟩
  | .proceed n => x.proceed n
  | .migrate m => { x with migration := x.migration.move m }

def run (x : Operation) (ms : List Move) : Operation := ms.foldl move x

theorem run_append (x : Operation) (ms ns : List Move) : x.run (ms ++ ns) = (x.run ms).run ns :=
  List.foldl_append

theorem run_concat (x : Operation) (ms : List Move) (m : Move) :
    x.run (ms ++ [m]) = (x.run ms).move m := x.run_append ms [m]

def Move.isPatient (n : Nat) : Move → Bool
  | .proceed n' => n' = n
  | .migrate m => m.isBackground
  | .call _ | .shutdown => false

theorem run_migrate (x : Operation) (ms : List Migration.Move) :
    x.run (ms.map .migrate) = { x with migration := x.migration.run ms } := by
  induction ms generalizing x with
  | nil => rfl
  | cons m ms ih => exact ih { x with migration := x.migration.move m }

end Operation

theorem World.Steady.cancel {w : World} (h : w.Steady) (id : RunId) :
    ({ w with control := w.control.cancel id } : World).Steady := by
  have hreport : ((w.mapRun id fun r => { r with cancelled := true }).report []).Steady :=
    h.mapRun (fun _ hv => hv) fun _ => rfl
  rwa [World.report_nil] at hreport

def World.endRun (w : World) (id : RunId) : World :=
  { w with control := w.control.cancel id }.awaitRun id

namespace Migration

theorem background_passUntilEnded {x : Migration} (h : x.world.Steady) (ha : x.world.awaited = none)
    (id : RunId) (fuel : Nat) : Background x (x.world.passUntilEnded id fuel) := by
  induction fuel generalizing x with
  | zero => exact .refl x
  | succ fuel ih =>
    have hpass := background_pass h ha
    simp only [World.passUntilEnded]
    split
    · split
      · exact hpass.trans (ih (x := ⟨_, x.opened⟩) (hpass.steady h) (hpass.awaited h ha))
      · exact hpass
    · exact .refl x

end Migration

namespace Operation
open ControlPlane
variable {w : World} (opened : List (Option Pool.Transaction)) (ss : List Shutdown)

theorem endRun_in_moves (h : w.Steady) (ha : w.awaited = none) {id : RunId}
    (hended : (w.endRun id).control.isRunning (some id) = false) (ids : List RunId) :
    (w.endRun id).Steady ∧ (w.endRun id).awaited = none ∧
      ∃ ms, (∀ m ∈ ms, m.isPatient ss.length) ∧
        (⟨⟨w, opened⟩, ss ++ [⟨none, id :: ids⟩]⟩ : Operation).run ms =
          ⟨⟨w.endRun id, opened⟩, ss ++ [⟨none, ids⟩]⟩ := by
  have hcancel := h.cancel id
  have hwait := Migration.background_passUntilEnded
    (x := ⟨{ w with control := w.control.cancel id }, opened⟩) hcancel ha id World.enough
  have hsteady := hwait.steady hcancel
  refine ⟨⟨hsteady.tripwires, hsteady.live, hsteady.labelled, hsteady.numbered⟩,
    hwait.awaited hcancel ha, ?_⟩
  obtain ⟨ms, hms, hrun⟩ := hwait
  refine ⟨.proceed ss.length :: (ms.map .migrate ++ [.proceed ss.length]), ?_, ?_⟩
  · intro m hm
    rcases List.mem_cons.1 hm with rfl | hm
    · simp [Move.isPatient]
    · rcases List.mem_append.1 hm with hm | hm
      · obtain ⟨b, hb, rfl⟩ := List.mem_map.1 hm
        exact hms b hb
      · obtain rfl := List.mem_singleton.1 hm
        simp [Move.isPatient]
  · have hfirst : (⟨⟨w, opened⟩, ss ++ [⟨none, id :: ids⟩]⟩ : Operation).move (.proceed ss.length) =
        ⟨⟨{ w with control := w.control.cancel id }, opened⟩, ss ++ [⟨some id, ids⟩]⟩ := by
      simp [move, proceed, world]
    rw [run, List.foldl_cons, hfirst, ← run, run_append, run_migrate, ← hrun]
    have hdone : (({ w with control := w.control.cancel id } : World).passUntilEnded id
        World.enough).control.isRunning (some id) = false := hended
    simp [run, move, proceed, world, hdone, World.endRun, World.awaitRun]

/-- A shutdown that nobody disturbs does just what it does move by move, provided that no wait is
given up before its run has ended. -/
theorem shutdown_in_moves {x : Operation} (h : x.world.Steady) (ha : x.world.awaited = none)
    (hended : ∀ pre id, pre ++ [id] <+: x.world.control.takeRuns.2.1 →
      ((pre ++ [id]).foldl World.endRun
        ({ x.world with control := x.world.control.takeRuns.1 }.report
        x.world.control.takeRuns.2.2)).control.isRunning (some id) = false) :
    ∃ ms, (∀ m ∈ ms, m.isPatient x.shutdowns.length) ∧
      x.run (.shutdown :: ms) =
        ⟨⟨x.world.shutdown, x.migration.opened⟩, x.shutdowns ++ [⟨none, []⟩]⟩ := by
  have hall : ∀ ids (w : World), w.Steady → w.awaited = none →
      (∀ pre id, pre ++ [id] <+: ids →
        ((pre ++ [id]).foldl World.endRun w).control.isRunning (some id) = false) →
      ∃ ms, (∀ m ∈ ms, m.isPatient x.shutdowns.length) ∧
        (⟨⟨w, x.migration.opened⟩, x.shutdowns ++ [⟨none, ids⟩]⟩ : Operation).run ms =
          ⟨⟨ids.foldl World.endRun w, x.migration.opened⟩, x.shutdowns ++ [⟨none, []⟩]⟩ := by
    intro ids
    induction ids with
    | nil => exact fun w _ _ _ => ⟨[], by simp, rfl⟩
    | cons id ids ih =>
      intro w hw hidle hends
      obtain ⟨hw', hidle', ms, hms, hrun⟩ := endRun_in_moves x.migration.opened x.shutdowns hw hidle
        (hends [] id (by simp)) ids
      obtain ⟨ns, hns, hrest⟩ := ih (w.endRun id) hw' hidle' fun pre id' hpre =>
        hends (id :: pre) id' (by simpa using hpre)
      refine ⟨ms ++ ns, fun m hm => (List.mem_append.1 hm).elim (hms m) (hns m), ?_⟩
      rw [run_append, hrun, hrest]
      rfl
  have htaken : ({ x.world with control := x.world.control.takeRuns.1 }.report
      x.world.control.takeRuns.2.2).Steady := by
    rcases x.world.control.takeRuns_cases with he | he
    · rw [he]
      exact ⟨h.tripwires, h.live, h.labelled, h.numbered⟩
    · rw [he]
      exact ⟨h.tripwires, h.live, h.labelled, h.numbered.distinct, h.numbered.below⟩
  exact hall _ _ htaken ha hended

def Move.call? : Move → Option ControlPlane.Call
  | .call k => some k
  | .migrate (.command k) => some k.call
  | .shutdown | .proceed _ | .migrate _ => none

/-- A start that is served while a run of its kind is out of its slot, but not cancelled yet. -/
def overlaps (x : Operation) (m : Move) : Bool :=
  (m.call?.bind ControlPlane.Call.launches?).any fun mode => !x.world.control.scheduler.poisoned &&
    x.world.control.runs.any fun r => r.isLive && decide (r.mode = mode) && decide (r.id ∈ x.left)

end Operation

def Run.Fades (r r' : Run) : Prop := r'.mode = r.mode ∧ (r'.isLive → r.isLive)

namespace ControlPlane
variable {c c' : ControlPlane} {mode : ScanMode}

theorem live_le (h : List.Forall₂ Run.Fades c.runs c'.runs) (mode : ScanMode) :
    c'.live mode ≤ c.live mode := by
  rw [live, live]
  generalize c.runs = rs, c'.runs = rs' at h ⊢
  induction h with
  | nil => exact Nat.le_refl 0
  | @cons r r' rs rs' hr _ ih =>
    obtain ⟨hmode, hlive⟩ := hr
    have hone : (r'.isLive && decide (r'.mode = mode)) = true →
        (r.isLive && decide (r.mode = mode)) = true := by
      rw [Bool.and_eq_true, Bool.and_eq_true, hmode]
      exact fun h => ⟨hlive h.1, h.2⟩
    rw [List.countP_cons, List.countP_cons]
    refine Nat.add_le_add ih ?_
    split
    · next hr' => exact Nat.le_of_eq (if_pos (hone hr')).symm
    · exact Nat.zero_le _

theorem Onward.fades (h : c.Onward c') : List.Forall₂ Run.Fades c.runs c'.runs :=
  h.runs.imp fun r r' hr => ⟨hr.mode, fun hlive => by
    rw [Run.isLive, Bool.and_eq_true] at hlive ⊢
    exact ⟨hr.running hlive.1, hr.cancelled ▸ hlive.2⟩⟩

theorem fades_cancelled (r : Run) : r.Fades { r with cancelled := true } :=
  ⟨rfl, fun h => by simp [Run.isLive] at h⟩

variable (c) in
theorem fades_map (p : Run → Prop) [DecidablePred p] : List.Forall₂ Run.Fades c.runs
    (c.runs.map fun r => if p r then { r with cancelled := true } else r) := by
  refine List.forall₂_map_right_iff.2 (List.forall₂_same.2 fun r _ => ?_)
  split
  · exact fades_cancelled r
  · exact ⟨rfl, fun h => h⟩

theorem live_serve {k : Call} (hk : k.launches? = none) (mode : ScanMode) :
    (c.serve k).after.live mode ≤ c.live mode := by
  have heffect := serve_effect (c := c) k
  generalize (c.serve k).after = c' at heffect ⊢
  cases heffect with
  | none | switched => exact Nat.le_refl _
  | launched hl => cases hk.symm.trans hl
  | stopped | broken =>
    rw [vacate_eq]
    exact live_le (c.fades_map _) mode

theorem live_eq (c : ControlPlane) (mode : ScanMode) :
    c.live mode = (c.runs.filter (·.mode = mode)).countP Run.isLive := by
  rw [live, List.countP_filter]

/-- A run that is started is live, and so are those of its kind that were left over. -/
theorem live_launch (plan : Plan) : (c.launch plan).1.live plan.mode =
    (c.retired plan.mode).countP (fun r => r.isLive && decide (r.mode = plan.mode)) + 1 := by
  rw [live, launch_eq, List.countP_append]
  simp [Run.isLive, Run.isRunning]

/-- A start makes two runs of a kind live exactly if one is live that was left over. -/
theorem Kept.live_launch_le_one {left : List RunId} (h : Kept left c) (plan : Plan) :
    (c.launch plan).1.live plan.mode ≤ 1 ↔
      (c.runs.any fun r => r.isLive && decide (r.mode = plan.mode) && decide (r.id ∈ left)) =
      false := by
  rw [live_launch, Nat.succ_le_succ_iff, Nat.le_zero, List.countP_eq_zero, List.any_eq_false]
  constructor
  · intro hnone r hr hleft
    obtain ⟨hlive, hin⟩ := Bool.and_eq_true_iff.1 hleft
    have hslot := (h.apart r.id (of_decide_eq_true hin)).2 plan.mode
    exact hnone r (mem_retired_of_ne hr hslot) hlive
  · intro hnone r hr hlive
    obtain ⟨hrun, hmode⟩ := Bool.and_eq_true_iff.1 hlive
    have hcancelled : r.cancelled = false := by
      simpa using (Bool.and_eq_true_iff.1 hrun).2
    have hin : r.id ∈ left :=
      (h.cancelled_of_mem_retired hr (of_decide_eq_true hmode)).resolve_left (by simp [hcancelled])
    obtain ⟨r₀, hr₀, he⟩ := mem_retired hr
    by_cases hslot : c.scheduler.slot plan.mode = some r₀.id
    · rw [he, if_pos hslot] at hcancelled
      cases hcancelled
    · rw [if_neg hslot] at he
      exact hnone r (he ▸ hr₀) (Bool.and_eq_true_iff.2 ⟨hlive, decide_eq_true hin⟩)

end ControlPlane

namespace Operation
open ControlPlane
variable {x : Operation}

theorem left_of_getElem? {n : Nat} {s : Shutdown} (hs : x.shutdowns[n]? = some s) :
    ∃ l l', x.left = l ++ s.left ++ l' ∧
      ∀ s' : Shutdown, (x.shutdowns.set n s').flatMap (·.left) = l ++ s'.left ++ l' := by
  obtain ⟨hn, hs⟩ := List.getElem?_eq_some_iff.1 hs
  have hset : ∀ s' : Shutdown, (x.shutdowns.set n s').flatMap (·.left) =
      (x.shutdowns.take n).flatMap (·.left) ++ s'.left ++
        (x.shutdowns.drop (n + 1)).flatMap (·.left) := by
    intro s'
    rw [List.set_eq_take_append_cons_drop, if_pos hn, List.flatMap_append, List.flatMap_cons,
      List.append_assoc]
  refine ⟨_, _, ?_, hset⟩
  rw [← hset s, ← hs, List.set_getElem_self]
  rfl

/-- What a shutdown does next: it waits, or reports what it waited for, or cancels a run. -/
theorem proceed_cases (x : Operation) (n : Nat) : x.proceed n = x ∨
    (x.proceed n).world.control = x.world.control ∧ (x.proceed n).left = x.left ∨
    ∃ l id l', x.left = l ++ id :: l' ∧ (x.proceed n).left = l ++ l' ∧
      (x.proceed n).world.control = x.world.control.cancel id := by
  rw [proceed]
  split
  · exact .inl rfl
  · next id ids hs =>
    obtain ⟨l, l', hleft, hset⟩ := left_of_getElem? hs
    split
    · exact .inl rfl
    · exact .inr (.inl ⟨rfl, (hset _).trans hleft.symm⟩)
  · exact .inl rfl
  · next id ids hs =>
    obtain ⟨l, l', hleft, hset⟩ := left_of_getElem? hs
    refine .inr (.inr ⟨l, id, ids ++ l', ?_, ?_, rfl⟩)
    · rw [hleft, List.append_assoc, List.cons_append]
    · exact (hset _).trans (List.append_assoc ..)

/-- A move is a call that the scheduler serves, or it makes no run live. -/
theorem move_cases (h : Kept x.left x.world.control) (m : Move) :
    (∃ k, m.call? = some k ∧ (x.move m).left = x.left ∧
      (x.move m).world.control = (x.world.control.serve k).after) ∨
    m.call? = none ∧ Kept (x.move m).left (x.move m).world.control ∧
      List.Forall₂ Run.Fades x.world.control.runs (x.move m).world.control.runs := by
  have hsame : List.Forall₂ Run.Fades x.world.control.runs x.world.control.runs :=
    List.forall₂_same.2 fun r _ => ⟨rfl, fun hr => hr⟩
  cases m with
  | call k => exact .inl ⟨k, rfl, rfl, rfl⟩
  | shutdown =>
    refine .inr ⟨rfl, ?_, ?_⟩
    · have hleft : (x.move .shutdown).left = x.left ++ x.world.control.takeRuns.2.1 := by
        simp [left, move]
      rw [hleft]
      exact h.takeRuns
    · change List.Forall₂ Run.Fades _ x.world.control.takeRuns.1.runs
      rcases x.world.control.takeRuns_cases with he | he <;> (rw [he]; exact hsame)
  | proceed n =>
    refine .inr ⟨rfl, ?_⟩
    change Kept (x.proceed n).left (x.proceed n).world.control ∧
      List.Forall₂ Run.Fades _ (x.proceed n).world.control.runs
    rcases x.proceed_cases n with he | ⟨hcontrol, hleft⟩ | ⟨l, id, l', hleft, hleft', hcontrol⟩
    · rw [he]
      exact ⟨h, hsame⟩
    · rw [hcontrol, hleft]
      exact ⟨h, hsame⟩
    · rw [hcontrol, hleft']
      rw [hleft] at h
      exact ⟨h.cancel, x.world.control.fades_map _⟩
  | migrate m =>
    rcases Migration.move_cases (x := x.migration) h m with ⟨k, rfl, he⟩ | ⟨hm, ho⟩
    · exact .inl ⟨k.call, rfl, rfl, he⟩
    · refine .inr ⟨?_, h.onward ho, ho.fades⟩
      cases m with
      | command k => exact absurd rfl (hm k)
      | _ => rfl

theorem move_kept (h : Kept x.left x.world.control) (m : Move) :
    Kept (x.move m).left (x.move m).world.control := by
  rcases move_cases h m with ⟨k, _, hleft, hcontrol⟩ | ⟨_, hkept, _⟩
  · rw [hleft, hcontrol]
    exact h.serve k
  · exact hkept

theorem run_kept (h : Kept x.left x.world.control) (ms : List Move) :
    Kept (x.run ms).left (x.run ms).world.control := by
  induction ms generalizing x with
  | nil => exact h
  | cons m ms ih => exact ih (move_kept h m)

/-- Where there is one live run of a kind at most, that stays so unless a start overlaps with a run
that is left over. -/
theorem move_live (h : Kept x.left x.world.control) (hone : ∀ mode, x.world.control.live mode ≤ 1)
    (m : Move) : (∀ mode, (x.move m).world.control.live mode ≤ 1) ↔ x.overlaps m = false := by
  rw [overlaps]
  rcases move_cases h m with ⟨k, hk, _, hcontrol⟩ | ⟨hk, _, hfades⟩
  · rw [hcontrol, hk, Option.bind_some]
    cases hl : k.launches? with
    | none => exact iff_of_true (fun mode => Nat.le_trans (live_serve hl mode) (hone mode)) rfl
    | some mode =>
      cases hp : x.world.control.scheduler.poisoned with
      | true =>
        rw [serve_poisoned hp]
        exact iff_of_true hone rfl
      | false =>
        obtain ⟨plan, rfl, hlaunch⟩ := serve_launches hl hp
        rw [Option.any_some, Bool.not_false, Bool.true_and, ← h.live_launch_le_one plan, ← hlaunch]
        refine ⟨fun hall => hall plan.mode, fun hlaunched other => ?_⟩
        by_cases ho : other = plan.mode
        · exact ho ▸ hlaunched
        · rw [live_eq, (h.serve_other (Call.mode?_of_launches? hl) ho).2, ← live_eq]
          exact hone other
  · rw [hk]
    exact iff_of_true (fun mode => Nat.le_trans (live_le hfades mode) (hone mode)) rfl

/-- Calls and shutdowns leave at most one live run of each kind at every moment, exactly if no start
is served while a run of its kind is out of its slot and waits for a shutdown to cancel it. -/
theorem at_most_one_live_run {w : World} {p : Pool Store} {batch : Int}
    (hmade : ControlPlane.make p batch = .ok w.control) (ms : List Move) :
    (∀ pre, pre <+: ms → ∀ mode, ((start w).run pre).world.control.live mode ≤ 1) ↔
      ∀ pre m, pre ++ [m] <+: ms → ((start w).run pre).overlaps m = false := by
  have hkept : ∀ pre, Kept ((start w).run pre).left ((start w).run pre).world.control :=
    run_kept (x := start w) (kept_made hmade)
  constructor
  · intro hone pre m hpre
    have hbefore : pre <+: ms := (List.prefix_append pre [m]).trans hpre
    refine (move_live (hkept pre) (hone pre hbefore) m).1 ?_
    rw [← run_concat]
    exact hone _ hpre
  · intro hnone pre hpre
    -- The count at a moment depends on the one before: induction on the moves up to it.
    induction pre using List.reverseRecOn with
    | nil =>
      intro mode
      change w.control.live mode ≤ 1
      simp [live, runs_made hmade]
    | append_singleton pre m ih =>
      have hbefore := ih ((List.prefix_append pre [m]).trans hpre)
      rw [run_concat]
      exact (move_live (hkept pre) hbefore m).2 (hnone pre m hpre)

/-- A shutdown that takes its time while only runs and starts of the other kind go on. -/
theorem at_most_one_live_run_in_a_calm_shutdown :
    let w := World.ofStores (.ofEntities "src" []) (.ofEntities "dst" [])
    let ms : List Move :=
      [.call .startFull, .call .startFull, .call (.startIncremental 0 1000), .shutdown,
      .proceed 0, .call .startFull, .migrate (.announce 1), .migrate (.scan 1 .forward), .proceed 0,
      .migrate (.scan 1 .reverse), .proceed 0, .proceed 0, .call (.startIncremental 0 1000)]
    ∀ pre m, pre ++ [m] <+: ms → ((start w).run pre).overlaps m = false := by
  intro w ms
  have hmade : ControlPlane.make w.control.pool 1 = .ok w.control := rfl
  refine (at_most_one_live_run hmade ms).1 fun pre hpre mode => ?_
  have hall : ∀ pre ∈ ms.inits, ∀ mode ∈ [ScanMode.full, .incremental],
      ((start w).run pre).world.control.live mode ≤ 1 := by decide +kernel
  exact hall pre ((List.mem_inits _ _).2 hpre) mode (by cases mode <;> simp)

/-- A shutdown waits for the full run; the incremental one is out of its slot already and goes on
when a second one is started. -/
theorem second_live_run_during_a_shutdown :
    let w := World.ofStores (.ofEntities "src" [.plain 1 0]) (.ofEntities "dst" [])
    let ms : List Move :=
      [.call .startFull, .call (.startIncremental 0 1000), .migrate (.announce 0),
      .migrate (.announce 1), .shutdown, .proceed 0, .call (.startIncremental 0 1000)]
    ((start w).run ms).shutdowns = [⟨some 0, [1]⟩] ∧
      ((start w).run ms).world.control.live .incremental = 2 := by
  decide +kernel

end Operation
end DualWrite
