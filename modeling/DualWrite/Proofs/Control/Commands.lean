import DualWrite.Http.Control
import DualWrite.Proofs.Control.Runs
import DualWrite.Proofs.Pool.Routing

/-!
# Commands of the control plane

A command switches the pattern, for the pool and the scheduler alike, or starts or stops a run. No
command touches a store; a run that is started takes the base of the live pattern and a number that
no run had before.
-/
namespace DualWrite

namespace ControlPlane
variable {c : ControlPlane}

theorem locked_cases (c : ControlPlane) {α : Type} (f : Outcome ControlPlane α) :
    (c.locked f).after = c ∨ (c.locked f).after = f.after := by
  rw [locked]
  split
  · exact .inl rfl
  · exact .inr rfl

theorem vacate_frame (c : ControlPlane) (mode : ScanMode) (notice : Notice) :
    (c.vacate mode notice).1.pool = c.pool ∧
      (c.vacate mode notice).1.scheduler.pattern = c.scheduler.pattern := by
  rw [vacate]
  split
  · exact ⟨rfl, rfl⟩
  · cases mode <;> exact ⟨rfl, rfl⟩

theorem launch_frame (c : ControlPlane) (plan : Plan) :
    (c.launch plan).1.pool = c.pool ∧
      (c.launch plan).1.scheduler.pattern = c.scheduler.pattern := by
  obtain ⟨hpool, hpattern⟩ := c.vacate_frame plan.mode (.runReplaced plan.mode)
  refine ⟨hpool, ?_⟩
  rw [launch, ← hpattern]
  cases plan.mode <;> rfl

section Runs
variable {P : Run → Prop} (h : ∀ r ∈ c.runs, P r)
  (hcancel : ∀ r, P r → P { r with cancelled := true })
include h hcancel

theorem forall_vacate (mode : ScanMode) (notice : Notice) :
    ∀ r ∈ (c.vacate mode notice).1.runs, P r := by
  rw [vacate]
  split
  · exact h
  · exact forall_mapRun _ _ h hcancel

theorem forall_launch {plan : Plan}
    (hnew : P ⟨c.nextRun, plan.mode, .start plan, false, .waiting⟩) :
    ∀ r ∈ (c.launch plan).1.runs, P r := by
  have hnext : (c.vacate plan.mode (.runReplaced plan.mode)).1.nextRun = c.nextRun := by
    rw [vacate]
    split <;> rfl
  rw [launch]
  intro r hr
  rcases List.mem_append.1 hr with hr | hr
  · exact forall_vacate h hcancel _ _ r hr
  · rw [List.mem_singleton.1 hr]
    simp only [hnext]
    exact hnew

end Runs

structure Numbered (c : ControlPlane) : Prop where
  distinct : (c.runs.map (·.id)).Nodup
  below : ∀ r ∈ c.runs, r.id < c.nextRun

namespace Numbered
variable (h : c.Numbered)
include h

theorem mapRun (id : RunId) {f : Run → Run} (hf : ∀ r, (f r).id = r.id) :
    (c.mapRun id f).Numbered := by
  have hids : (c.mapRun id f).runs.map (·.id) = c.runs.map (·.id) := c.mapRun_ids id hf
  refine ⟨hids ▸ h.distinct, ?_⟩
  intro r hr
  obtain ⟨r₀, hr₀, he⟩ := List.mem_map.1 (hids ▸ List.mem_map_of_mem hr : r.id ∈ c.runs.map (·.id))
  exact he ▸ h.below r₀ hr₀

theorem vacate (mode : ScanMode) (notice : Notice) : (c.vacate mode notice).1.Numbered := by
  rw [ControlPlane.vacate]
  split
  · exact h
  · next id _ =>
    have hslot : ({ c with scheduler := c.scheduler.setSlot none mode } : ControlPlane).Numbered :=
      ⟨h.distinct, h.below⟩
    exact hslot.mapRun id fun _ => rfl

theorem launch (plan : Plan) : (c.launch plan).1.Numbered := by
  have hv := h.vacate plan.mode (.runReplaced plan.mode)
  rw [ControlPlane.launch]
  constructor
  · rw [List.map_append]
    refine hv.distinct.append (List.nodup_singleton _) ?_
    intro i hi hnew
    obtain ⟨r, hr, rfl⟩ := List.mem_map.1 hi
    exact Nat.ne_of_lt (hv.below r hr) (List.mem_singleton.1 hnew)
  · intro r hr
    rcases List.mem_append.1 hr with hr | hr
    · exact Nat.lt_succ_of_lt (hv.below r hr)
    · rw [List.mem_singleton.1 hr]
      exact Nat.lt_succ_self _

theorem eq_of_run? {id : RunId} {r r' : Run} (hr : c.run? id = some r) (hr' : r' ∈ c.runs)
    (hid : r'.id = id) : r' = r := by
  have hfound : r.id = id := by simpa using List.find?_some hr
  exact List.inj_on_of_nodup_map h.distinct hr' (List.mem_of_find?_eq_some hr)
    (hid.trans hfound.symm)

/-- A change of one run spoils nothing that holds of all, if it does not for that run. -/
theorem forall_mapRun {P : Run → Prop} (hall : ∀ r ∈ c.runs, P r) {id : RunId} {r : Run}
    (hr : c.run? id = some r) {f : Run → Run} (hf : P (f r)) :
    ∀ r ∈ (c.mapRun id f).runs, P r := by
  intro r' hr'
  obtain ⟨r₀, hr₀, rfl⟩ := List.mem_map.1 hr'
  split
  · next hid =>
    rw [h.eq_of_run? hr hr₀ hid]
    exact hf
  · exact hall r₀ hr₀

end Numbered
end ControlPlane

namespace Http.Call
variable {c : ControlPlane} (k : Call)

/-- What a command does, unless it is refused: it switches the pattern, puts a run that is started
on the live pattern into a slot, or empties a slot. -/
theorem run_cases : (k.run c).after = c ∨
    (∃ q, k = .switchTo q ∧ (k.run c).after =
      { c with scheduler := { c.scheduler with pattern := q }, pool := c.pool.setPattern q }) ∨
    (∃ plan, plan.base = c.scheduler.pattern.base ∧ plan.label = plan.base ∧
      (k.run c).after = (c.launch plan).1) ∨
    ∃ mode notice, (k.run c).after = (c.vacate mode notice).1 := by
  cases k with
  | status => exact .inl rfl
  | switchTo q => exact (c.locked_cases _).imp_right fun he => .inl ⟨q, rfl, he⟩
  | startFull => exact (c.locked_cases _).imp_right fun he => .inr (.inl ⟨_, rfl, rfl, he⟩)
  | startIncremental _ _ =>
    exact (c.locked_cases _).imp_right fun he => .inr (.inl ⟨_, rfl, rfl, he⟩)
  | stopFull => exact (c.locked_cases _).imp_right fun he => .inr (.inr ⟨_, _, he⟩)
  | stopIncremental => exact (c.locked_cases _).imp_right fun he => .inr (.inr ⟨_, _, he⟩)

/-- A command leaves the stores as they are, and the pattern to the pool and the scheduler alike. -/
theorem run_frame (hlive : c.pool.pattern = .ok c.scheduler.pattern) :
    let c' := (k.run c).after
    (∀ d, c'.pool.store d = c.pool.store d) ∧ c'.pool.pattern = .ok c'.scheduler.pattern ∧
      (c'.scheduler.pattern = c.scheduler.pattern ∨ k = .switchTo c'.scheduler.pattern) := by
  have hsame : ∀ c' : ControlPlane, c'.pool = c.pool ∧ c'.scheduler.pattern = c.scheduler.pattern →
      (∀ d, c'.pool.store d = c.pool.store d) ∧ c'.pool.pattern = .ok c'.scheduler.pattern ∧
        (c'.scheduler.pattern = c.scheduler.pattern ∨ k = .switchTo c'.scheduler.pattern) := by
    rintro c' ⟨hpool, hpattern⟩
    rw [hpool, hpattern]
    exact ⟨fun _ => rfl, hlive, .inl rfl⟩
  rcases k.run_cases (c := c) with he | ⟨q, hk, he⟩ | ⟨plan, _, _, he⟩ | ⟨mode, notice, he⟩
  · rw [he]
    exact hsame c ⟨rfl, rfl⟩
  · rw [he]
    exact ⟨fun d => Pool.store_setCode _ d _, Pattern.ofCode_code q, .inr hk⟩
  · rw [he]
    exact hsame _ (c.launch_frame plan)
  · rw [he]
    exact hsame _ (c.vacate_frame mode notice)

/-- What holds of all runs, cancelled or not, and of a run that is started on the live pattern,
holds of all runs after a command. -/
theorem forall_run {P : Run → Prop} (h : ∀ r ∈ c.runs, P r)
    (hcancel : ∀ r, P r → P { r with cancelled := true })
    (hnew : ∀ n plan, plan.base = c.scheduler.pattern.base → plan.label = plan.base →
      P ⟨n, plan.mode, .start plan, false, .waiting⟩) :
    ∀ r ∈ (k.run c).after.runs, P r := by
  rcases k.run_cases (c := c) with he | ⟨q, _, he⟩ | ⟨plan, hbase, hlabel, he⟩ | ⟨mode, notice, he⟩
  · rw [he]
    exact h
  · rw [he]
    exact h
  · rw [he]
    exact ControlPlane.forall_launch h hcancel (hnew _ plan hbase hlabel)
  · rw [he]
    exact ControlPlane.forall_vacate h hcancel mode notice

theorem run_numbered (h : c.Numbered) : (k.run c).after.Numbered := by
  rcases k.run_cases (c := c) with he | ⟨q, _, he⟩ | ⟨plan, _, _, he⟩ | ⟨mode, notice, he⟩
  · rw [he]
    exact h
  · rw [he]
    exact ⟨h.distinct, h.below⟩
  · rw [he]
    exact h.launch plan
  · rw [he]
    exact h.vacate mode notice

end Http.Call

end DualWrite
