import DualWrite.Proofs.Control.Commands

/-!
# Calls of the scheduler

Every call of the scheduler but a shutdown is served at one go, under the lock. This module says
once what each of them does to the slots and the runs, and what they keep: the pool and the
scheduler agree on the pattern, and a run that is in no slot is cancelled, or left over for a
shutdown to cancel.
-/
namespace DualWrite

namespace Scheduler

theorem slot_setSlot (s : Scheduler) (r : Option RunId) (mode mode' : ScanMode) :
    (s.setSlot r mode).slot mode' = if mode' = mode then r else s.slot mode' := by
  cases mode <;> cases mode' <;> rfl

theorem setSlot_none {s : Scheduler} {mode : ScanMode} (h : s.slot mode = none) :
    s.setSlot none mode = s := by
  cases mode <;> (rw [slot] at h; rw [setSlot, ← h])

@[simp] theorem setSlot_pattern (s : Scheduler) (r : Option RunId) (mode : ScanMode) :
    (s.setSlot r mode).pattern = s.pattern := by
  cases mode <;> rfl

end Scheduler

namespace ControlPlane

inductive Call where
  | switchTo (q : Pattern)
  | startFull
  | startIncremental (utime interval : Int)
  | stop (mode : ScanMode)
  | pattern
  | status
  /-- A start that panics before there is a run. -/
  | brokenStart (mode : ScanMode)
deriving Repr, DecidableEq

namespace Call

def mode? : Call → Option ScanMode
  | .startFull => some .full
  | .startIncremental _ _ => some .incremental
  | .stop mode | .brokenStart mode => some mode
  | .switchTo _ | .pattern | .status => none

def launches? : Call → Option ScanMode
  | .startFull => some .full
  | .startIncremental _ _ => some .incremental
  | _ => none

theorem mode?_of_launches? {k : Call} {mode : ScanMode} (h : k.launches? = some mode) :
    k.mode? = some mode := by
  cases k with
  | startFull | startIncremental => exact h
  | _ => cases h

end Call

inductive Answer where
  | done
  | pattern (q : Pattern)
  | status (s : Status)
deriving Repr, DecidableEq

/-- What a call leaves, what its caller gets unless it panics, and what is reported. -/
structure Served where
  after : ControlPlane
  reply? : Option (Except Error Answer)
  notices : List Notice

def answered {α : Type} (o : Outcome ControlPlane α) (f : α → Answer) : Served :=
  ⟨o.after, some (o.result.map f), o.notices⟩

def serve (c : ControlPlane) : Call → Served
  | .switchTo q => answered (c.switchPattern q) fun _ => .done
  | .startFull => answered c.startFull fun _ => .done
  | .startIncremental utime interval => answered (c.startIncremental utime interval) fun _ => .done
  | .stop mode => answered (c.stop mode) fun _ => .done
  | .pattern => answered c.pattern .pattern
  | .status => answered c.status .status
  | .brokenStart mode =>
    let (c, panicked, notices) := c.poison mode
    ⟨c, if panicked then none else some (.error .poisoned), notices⟩

section
variable (c : ControlPlane)

/-- The runs once that of a slot is cancelled. -/
def retired (mode : ScanMode) : List Run :=
  c.runs.map fun r => if c.scheduler.slot mode = some r.id then { r with cancelled := true } else r

theorem vacate_eq (mode : ScanMode) (notice : Notice) : (c.vacate mode notice).1 =
    { c with scheduler := c.scheduler.setSlot none mode, runs := c.retired mode } := by
  rw [vacate, retired]
  cases hslot : c.scheduler.slot mode with
  | none => simp [Scheduler.setSlot_none hslot]
  | some id =>
    simp only [cancel, mapRun, Option.some.injEq]
    congr 2
    funext r
    exact if_congr eq_comm rfl rfl

theorem launch_eq (plan : Plan) : (c.launch plan).1 =
    { c with
      scheduler := c.scheduler.setSlot (some c.nextRun) plan.mode
      runs := c.retired plan.mode ++ [⟨c.nextRun, plan.mode, .start plan, false, .waiting⟩]
      nextRun := c.nextRun + 1 } := by
  have hvacate := c.vacate_eq plan.mode (.runReplaced plan.mode)
  rw [launch]
  generalize c.vacate plan.mode (.runReplaced plan.mode) = cleared at hvacate ⊢
  obtain ⟨c', notices⟩ := cleared
  obtain rfl : c' = _ := hvacate
  cases plan.mode <;> rfl

theorem takeRuns_cases : c.takeRuns.1 = c ∨ c.takeRuns.1 =
    { c with scheduler := { c.scheduler with full := none, incremental := none } } := by
  rw [takeRuns]
  split
  · exact .inl rfl
  · exact .inr rfl

variable {c} {mode : ScanMode}

theorem mem_retired {r : Run} (h : r ∈ c.retired mode) : ∃ r₀ ∈ c.runs,
    r = if c.scheduler.slot mode = some r₀.id then { r₀ with cancelled := true } else r₀ := by
  obtain ⟨r₀, hr₀, he⟩ := List.mem_map.1 h
  exact ⟨r₀, hr₀, he.symm⟩

theorem mem_retired_of_ne {r : Run} (h : r ∈ c.runs) (hne : c.scheduler.slot mode ≠ some r.id) :
    r ∈ c.retired mode :=
  List.mem_map.2 ⟨r, h, if_neg hne⟩

theorem retired_ids : (c.retired mode).map (·.id) = c.runs.map (·.id) := by
  rw [retired, List.map_map]
  refine List.map_congr_left fun r _ => ?_
  simp only [Function.comp_apply]
  split <;> rfl

end

/-- What a call can do: nothing, as it only reads or is refused, switch the pattern, launch a run,
or empty a slot, with or without poisoning the lock. -/
inductive Effect (c : ControlPlane) : Call → ControlPlane → Prop where
  | none {k} : Effect c k c
  | switched {q} : Effect c (.switchTo q)
      { c with scheduler := { c.scheduler with pattern := q }, pool := c.pool.setPattern q }
  | launched {k plan} : k.launches? = some plan.mode → c.scheduler.poisoned = false →
      Effect c k (c.launch plan).1
  | stopped {mode} : Effect c (.stop mode) (c.vacate mode (.runStopped mode)).1
  | broken {mode} : Effect c (.brokenStart mode)
      { (c.vacate mode (.runReplaced mode)).1 with
        scheduler := { (c.vacate mode (.runReplaced mode)).1.scheduler with poisoned := true } }

variable {c : ControlPlane}

theorem serve_poisoned (h : c.scheduler.poisoned = true) (k : Call) :
    c.serve k = ⟨c, some (.error .poisoned), []⟩ := by
  cases k <;> simp [serve, answered, switchPattern, startFull, startIncremental, stop,
    pattern, status, poison, locked, h, Except.map]

theorem serve_effect (k : Call) : Effect c k (c.serve k).after := by
  cases hp : c.scheduler.poisoned with
  | true =>
    rw [serve_poisoned hp]
    exact .none
  | false =>
    have hlocked : ∀ {α : Type} (o : Outcome ControlPlane α), c.locked o = o := by
      intro α o
      simp [locked, hp]
    cases k with
    | switchTo q => simpa only [serve, answered, switchPattern, hlocked] using Effect.switched
    | startFull =>
      simpa only [serve, answered, startFull, hlocked] using Effect.launched rfl hp
    | startIncremental utime interval =>
      simpa only [serve, answered, startIncremental, hlocked] using Effect.launched rfl hp
    | stop mode => simpa only [serve, answered, stop, hlocked] using Effect.stopped
    | pattern => simpa only [serve, answered, ControlPlane.pattern, hlocked] using Effect.none
    | status => simpa only [serve, answered, status, hlocked] using Effect.none
    | brokenStart mode =>
      simpa only [serve, poison, hp, Bool.false_eq_true, if_false] using Effect.broken

/-- A start that is not refused launches a run of its kind. -/
theorem serve_launches {k : Call} {mode : ScanMode} (hk : k.launches? = some mode)
    (hp : c.scheduler.poisoned = false) :
    ∃ plan : Plan, plan.mode = mode ∧ (c.serve k).after = (c.launch plan).1 := by
  cases k with
  | startFull =>
    obtain rfl := Option.some.inj hk
    exact ⟨c.planOf .full 0 0, rfl, by simp [serve, answered, startFull, locked, hp]⟩
  | startIncremental utime interval =>
    obtain rfl := Option.some.inj hk
    exact ⟨c.planOf .incremental utime interval.toNat, rfl,
      by simp [serve, answered, startIncremental, locked, hp]⟩
  | _ => cases hk

end ControlPlane

def Http.Call.call : Http.Call → ControlPlane.Call
  | .switchTo q => .switchTo q
  | .startFull => .startFull
  | .stopFull => .stop .full
  | .startIncremental utime interval => .startIncremental utime interval
  | .stopIncremental => .stop .incremental
  | .status => .status

theorem Http.Call.run_after (k : Http.Call) (c : ControlPlane) :
    (k.run c).after = (c.serve k.call).after := by
  cases k with
  | status => simp [Http.Call.run, Http.Call.call, ControlPlane.serve, ControlPlane.answered,
      ControlPlane.status, ControlPlane.locked]; split <;> rfl
  | _ => rfl

namespace ControlPlane

/-- The books of the scheduler, with some runs left over for shutdowns to cancel. -/
structure Kept (left : List RunId) (c : ControlPlane) : Prop where
  agreed : c.pool.pattern = .ok c.scheduler.pattern
  /-- No run is ever forgotten. -/
  listed : c.runs.map (·.id) = List.range c.nextRun
  /-- A slot holds a run of its kind. -/
  filed : ∀ {mode id}, c.scheduler.slot mode = some id → ∀ r ∈ c.runs, r.id = id → r.mode = mode
  begun : ∀ {mode id}, c.scheduler.slot mode = some id → id < c.nextRun
  retired : ∀ r ∈ c.runs, c.scheduler.slot r.mode ≠ some r.id → r.cancelled = true ∨ r.id ∈ left
  /-- A run that is left over is in no slot. -/
  apart : ∀ id ∈ left, id < c.nextRun ∧ ∀ mode, c.scheduler.slot mode ≠ some id

theorem runs_made {p : Pool Store} {batch : Int} {c : ControlPlane} (h : make p batch = .ok c) :
    c.runs = [] := by
  rw [make] at h
  split at h
  · cases h
  · rw [← Except.ok.inj h]

theorem kept_made {p : Pool Store} {batch : Int} {c : ControlPlane} (h : make p batch = .ok c) :
    Kept [] c := by
  rw [make] at h
  split at h
  · cases h
  · next q hq =>
    obtain rfl := Except.ok.inj h
    refine ⟨hq, rfl, ?_, ?_, by simp, by simp⟩
    · rintro (_ | _) id hid <;> cases hid
    · rintro (_ | _) id hid <;> cases hid

namespace Kept
variable {left : List RunId} {c : ControlPlane} (h : Kept left c)
include h

theorem numbered : c.Numbered := by
  constructor
  · rw [h.listed]
    exact List.nodup_range
  · intro r hr
    have hid : r.id ∈ c.runs.map (·.id) := List.mem_map_of_mem hr
    rw [h.listed] at hid
    exact List.mem_range.1 hid

theorem switched (q : Pattern) : Kept left
    { c with scheduler := { c.scheduler with pattern := q }, pool := c.pool.setPattern q } := by
  have hslot : ∀ mode, ({ c.scheduler with pattern := q } : Scheduler).slot mode =
      c.scheduler.slot mode := by
    rintro (_ | _) <;> rfl
  refine ⟨Pattern.ofCode_code q, h.listed, ?_, ?_, ?_, ?_⟩
  all_goals simp only [hslot]
  · exact h.filed
  · exact h.begun
  · exact h.retired
  · exact h.apart

theorem poisoned : Kept left { c with scheduler := { c.scheduler with poisoned := true } } := by
  have hslot : ∀ mode, ({ c.scheduler with poisoned := true } : Scheduler).slot mode =
      c.scheduler.slot mode := by
    rintro (_ | _) <;> rfl
  refine ⟨h.agreed, h.listed, ?_, ?_, ?_, ?_⟩
  all_goals simp only [hslot]
  · exact h.filed
  · exact h.begun
  · exact h.retired
  · exact h.apart

/-- Once the run of a slot is cancelled, no run of that kind goes on but those left over. -/
theorem cancelled_of_mem_retired {mode : ScanMode} {r : Run} (hr : r ∈ c.retired mode)
    (hm : r.mode = mode) : r.cancelled = true ∨ r.id ∈ left := by
  obtain ⟨r₀, hr₀, rfl⟩ := mem_retired hr
  by_cases hslot : c.scheduler.slot mode = some r₀.id
  · rw [if_pos hslot]
    exact .inl rfl
  · rw [if_neg hslot] at hm ⊢
    exact h.retired r₀ hr₀ (hm ▸ hslot)

/-- Whatever happens to a slot, runs of the other kind that are in no slot are not touched. -/
theorem retired_of_ne {mode : ScanMode} {r : Run} (hr : r ∈ c.retired mode)
    (hslot : c.scheduler.slot r.mode ≠ some r.id) : r.cancelled = true ∨ r.id ∈ left := by
  obtain ⟨r₀, hr₀, rfl⟩ := mem_retired hr
  by_cases hs : c.scheduler.slot mode = some r₀.id
  · rw [if_pos hs]
    exact .inl rfl
  · rw [if_neg hs] at hslot ⊢
    exact h.retired r₀ hr₀ hslot

theorem filed_of_mem_retired {mode mode' : ScanMode} {id : RunId}
    (hid : c.scheduler.slot mode' = some id) {r : Run} (hr : r ∈ c.retired mode) (hr' : r.id = id) :
    r.mode = mode' := by
  obtain ⟨r₀, hr₀, rfl⟩ := mem_retired hr
  by_cases hs : c.scheduler.slot mode = some r₀.id
  · rw [if_pos hs] at hr' ⊢
    exact h.filed hid r₀ hr₀ hr'
  · rw [if_neg hs] at hr' ⊢
    exact h.filed hid r₀ hr₀ hr'

theorem vacate (mode : ScanMode) (notice : Notice) : Kept left (c.vacate mode notice).1 := by
  rw [vacate_eq]
  refine ⟨?_, retired_ids.trans h.listed, ?_, ?_, ?_, ?_⟩
  all_goals simp only [Scheduler.slot_setSlot, Scheduler.setSlot_pattern]
  · exact h.agreed
  · intro mode' id hid r hr hr'
    split at hid
    · cases hid
    · exact h.filed_of_mem_retired hid hr hr'
  · intro mode' id hid
    split at hid
    · cases hid
    · exact h.begun hid
  · intro r hr hslot
    by_cases hm : r.mode = mode
    · exact h.cancelled_of_mem_retired hr hm
    · rw [if_neg hm] at hslot
      exact h.retired_of_ne hr hslot
  · intro id hid
    refine ⟨(h.apart id hid).1, fun mode' => ?_⟩
    split
    · simp
    · exact (h.apart id hid).2 mode'

theorem launch (plan : Plan) : Kept left (c.launch plan).1 := by
  rw [launch_eq]
  have hold : ∀ r ∈ c.retired plan.mode, r.id < c.nextRun := by
    intro r hr
    obtain ⟨r₀, hr₀, rfl⟩ := mem_retired hr
    split <;> exact h.numbered.below r₀ hr₀
  refine ⟨?_, ?_, ?_, ?_, ?_, ?_⟩
  all_goals simp only [Scheduler.slot_setSlot, Scheduler.setSlot_pattern]
  · exact h.agreed
  · rw [List.map_append, retired_ids, h.listed, List.range_succ]
    rfl
  · intro mode id hid r hr hr'
    rcases List.mem_append.1 hr with hr | hr
    · split at hid
      · next hm =>
        obtain rfl := Option.some.inj hid
        exact absurd hr' (Nat.ne_of_lt (hold r hr))
      · exact h.filed_of_mem_retired hid hr hr'
    · obtain rfl := List.mem_singleton.1 hr
      split at hid
      · next hm => exact hm.symm
      · exact absurd hr' (Nat.ne_of_gt (h.begun hid))
  · intro mode id hid
    split at hid
    · obtain rfl := Option.some.inj hid
      exact Nat.lt_succ_self _
    · exact Nat.lt_succ_of_lt (h.begun hid)
  · intro r hr hslot
    rcases List.mem_append.1 hr with hr | hr
    · by_cases hm : r.mode = plan.mode
      · exact h.cancelled_of_mem_retired hr hm
      · rw [if_neg hm] at hslot
        exact h.retired_of_ne hr hslot
    · obtain rfl := List.mem_singleton.1 hr
      exact absurd (if_pos rfl) hslot
  · intro id hid
    obtain ⟨hlt, hslot⟩ := h.apart id hid
    refine ⟨Nat.lt_succ_of_lt hlt, fun mode => ?_⟩
    split
    · exact fun he => Nat.ne_of_lt hlt (Option.some.inj he).symm
    · exact hslot mode

theorem serve (k : Call) : Kept left (c.serve k).after := by
  have heffect := serve_effect (c := c) k
  generalize (c.serve k).after = c' at heffect ⊢
  cases heffect with
  | none => exact h
  | switched => exact h.switched _
  | launched => exact h.launch _
  | stopped => exact h.vacate _ _
  | broken => exact (h.vacate _ _).poisoned

/-- What a shutdown takes out of the slots is left over. -/
theorem takeRuns : Kept (left ++ c.takeRuns.2.1) c.takeRuns.1 := by
  rw [ControlPlane.takeRuns]
  split
  · simpa using h
  · have hslot : ∀ mode,
      ({ c.scheduler with full := none, incremental := none } : Scheduler).slot mode =
        none := by
      rintro (_ | _) <;> rfl
    have htaken : ∀ {mode id}, c.scheduler.slot mode = some id →
        id ∈ c.scheduler.full.toList ++ c.scheduler.incremental.toList := by
      rintro (_ | _) id hid
      · exact List.mem_append_left _ (Option.mem_toList.2 hid)
      · exact List.mem_append_right _ (Option.mem_toList.2 hid)
    refine ⟨h.agreed, h.listed, ?_, ?_, ?_, ?_⟩
    all_goals simp only [hslot]
    · intro mode id hid
      cases hid
    · intro mode id hid
      cases hid
    · intro r hr _
      by_cases hs : c.scheduler.slot r.mode = some r.id
      · exact .inr (List.mem_append_right _ (htaken hs))
      · exact (h.retired r hr hs).imp_right (List.mem_append_left _)
    · intro id hid
      refine ⟨?_, fun _ => by simp⟩
      rcases List.mem_append.1 hid with hid | hid
      · exact (h.apart id hid).1
      · rcases List.mem_append.1 hid with hid | hid
        · have hfull : c.scheduler.slot .full = some id := Option.mem_toList.1 hid
          exact h.begun hfull
        · have hincremental : c.scheduler.slot .incremental = some id := Option.mem_toList.1 hid
          exact h.begun hincremental

omit h in
theorem cancel {id : RunId} {l l' : List RunId} (h : Kept (l ++ id :: l') c) :
    Kept (l ++ l') (c.cancel id) := by
  have hsub : l ++ l' ⊆ l ++ id :: l' :=
    List.append_subset.2 ⟨List.subset_append_left _ _,
      List.Subset.trans (List.subset_cons_self id l') (List.subset_append_right _ _)⟩
  refine ⟨h.agreed, (c.mapRun_ids id fun _ => rfl : (c.cancel id).runs.map _ = _).trans h.listed,
    ?_, h.begun, ?_, ?_⟩
  · intro mode id' hid r hr hr'
    obtain ⟨r₀, hr₀, rfl⟩ := List.mem_map.1 hr
    by_cases he : r₀.id = id
    · rw [if_pos he] at hr' ⊢
      exact h.filed hid r₀ hr₀ hr'
    · rw [if_neg he] at hr' ⊢
      exact h.filed hid r₀ hr₀ hr'
  · intro r hr hslot
    obtain ⟨r₀, hr₀, rfl⟩ := List.mem_map.1 hr
    by_cases hne : r₀.id = id
    · rw [if_pos hne]
      exact .inl rfl
    · rw [if_neg hne] at hslot ⊢
      refine (h.retired r₀ hr₀ hslot).imp_right fun hin => ?_
      rcases List.mem_append.1 hin with hin | hin
      · exact List.mem_append_left _ hin
      · exact List.mem_append_right _ ((List.mem_cons.1 hin).resolve_left hne)
  · exact fun id' hid => h.apart id' (hsub hid)

end Kept

variable {c : ControlPlane}

/-- Emptying the slot of one kind changes no run of the other. -/
theorem Kept.retired_other {left : List RunId} (h : Kept left c) {mode other : ScanMode}
    (hne : other ≠ mode) :
    (c.retired mode).filter (·.mode = other) = c.runs.filter (·.mode = other) := by
  rw [ControlPlane.retired]
  have hall : ∀ rs : List Run, (∀ r ∈ rs, r ∈ c.runs) →
      (rs.map fun r =>
        if c.scheduler.slot mode = some r.id then { r with cancelled := true } else r).filter
        (·.mode = other) = rs.filter (·.mode = other) := by
    intro rs
    induction rs with
    | nil => exact fun _ => rfl
    | cons r rs ih =>
      intro hrs
      have hrest := ih fun r' hr' => hrs r' (List.mem_cons_of_mem r hr')
      by_cases hslot : c.scheduler.slot mode = some r.id
      · have hm : r.mode ≠ other := fun hm =>
          hne (hm.symm.trans (h.filed hslot r (hrs r List.mem_cons_self) rfl))
        simp only [List.map_cons, if_pos hslot, List.filter_cons, hm, decide_false]
        exact hrest
      · simp only [List.map_cons, if_neg hslot, List.filter_cons, hrest]
  exact hall c.runs fun _ hr => hr

/-- What is done to the runs of one kind is not done to those of the other. -/
theorem Kept.serve_other {left : List RunId} (h : Kept left c) {k : Call} {mode other : ScanMode}
    (hk : k.mode? = some mode) (hne : other ≠ mode) :
    (c.serve k).after.scheduler.slot other = c.scheduler.slot other ∧
      (c.serve k).after.runs.filter (·.mode = other) = c.runs.filter (·.mode = other) := by
  have heffect := serve_effect (c := c) k
  generalize (c.serve k).after = c' at heffect ⊢
  cases heffect with
  | none => exact ⟨rfl, rfl⟩
  | switched => cases hk
  | @launched _ plan hl _ =>
    obtain rfl := Option.some.inj ((Call.mode?_of_launches? hl).symm.trans hk)
    rw [launch_eq]
    refine ⟨by rw [Scheduler.slot_setSlot, if_neg hne], ?_⟩
    rw [List.filter_append, h.retired_other hne, List.filter_singleton, decide_eq_false hne.symm]
    exact List.append_nil _
  | @stopped mode' =>
    obtain rfl := Option.some.inj hk
    rw [vacate_eq]
    exact ⟨by rw [Scheduler.slot_setSlot, if_neg hne], h.retired_other hne⟩
  | @broken mode' =>
    obtain rfl := Option.some.inj hk
    rw [vacate_eq]
    refine ⟨?_, h.retired_other hne⟩
    have hslot : (c.scheduler.setSlot none mode').slot other = c.scheduler.slot other := by
      rw [Scheduler.slot_setSlot, if_neg hne]
    rw [← hslot]
    cases other <;> rfl

/-- What is done to no kind of runs is done to no run. -/
theorem serve_spares {k : Call} (hk : k.mode? = none) : (c.serve k).after.runs = c.runs ∧
    ∀ mode, (c.serve k).after.scheduler.slot mode = c.scheduler.slot mode := by
  have heffect := serve_effect (c := c) k
  generalize (c.serve k).after = c' at heffect ⊢
  cases heffect with
  | none => exact ⟨rfl, fun _ => rfl⟩
  | switched => exact ⟨rfl, by rintro (_ | _) <;> rfl⟩
  | launched hl => cases hk.symm.trans (Call.mode?_of_launches? hl)
  | stopped | broken => cases hk

end ControlPlane
end DualWrite
