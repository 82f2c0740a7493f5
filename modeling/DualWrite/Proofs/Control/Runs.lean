import DualWrite.Proofs.Validation.Scene

/-!
# Runs, one request at a time

A run in the background is first announced and then served: its forward scan makes a request, and
its reverse scan. Taken apart into these, what a run does lies between any two steps of everything
else.
-/
namespace DualWrite

namespace Run

def setValidation (v : Validation) (r : Run) : Run := { r with validation := v }

def setState (s : RunState) (r : Run) : Run := { r with state := s }

end Run

namespace ControlPlane
variable (c : ControlPlane) (id : RunId) {f g : Run → Run}

theorem mapRun_mapRun (hf : ∀ r, (f r).id = r.id) :
    (c.mapRun id f).mapRun id g = c.mapRun id fun r => g (f r) := by
  simp only [mapRun, List.map_map]
  congr 1
  apply List.map_congr_left
  intro r _
  by_cases h : r.id = id <;> simp [h, hf]

theorem run?_mapRun (hf : ∀ r, (f r).id = r.id) : (c.mapRun id f).run? id = (c.run? id).map f := by
  simp only [run?, mapRun]
  induction c.runs with
  | nil => rfl
  | cons r rs ih =>
    by_cases h : r.id = id
    · simp [h, hf]
    · simpa [h] using ih

theorem mapRun_ids (hf : ∀ r, (f r).id = r.id) :
    (c.mapRun id f).runs.map (·.id) = c.runs.map (·.id) := by
  simp only [mapRun, List.map_map]
  refine List.map_congr_left fun r _ => ?_
  by_cases h : r.id = id <;> simp [h, hf]

/-- What holds of all runs and is not spoilt by the change holds of all runs afterwards. -/
theorem forall_mapRun {P : Run → Prop} (h : ∀ r ∈ c.runs, P r) (hf : ∀ r, P r → P (f r)) :
    ∀ r ∈ (c.mapRun id f).runs, P r := by
  intro r hr
  obtain ⟨r₀, hr₀, rfl⟩ := List.mem_map.1 hr
  by_cases hid : r₀.id = id
  · rw [if_pos hid]
    exact hf r₀ (h r₀ hr₀)
  · rw [if_neg hid]
    exact h r₀ hr₀

end ControlPlane

namespace World

def mapRun (w : World) (id : RunId) (f : Run → Run) : World :=
  { w with control := w.control.mapRun id f }

def announceRun (w : World) (id : RunId) : World :=
  match w.control.run? id with
  | some ⟨_, _, v, _, .waiting⟩ => (w.mapRun id (Run.setState .active)).report [v.announcement]
  | _ => w

/-- A run after a request of its scans, which may have ended it. -/
def closeRun (w : World) (id : RunId) (mode : ScanMode) (m : Moved) : World :=
  let w := w.mapRun id (Run.setValidation m.validation)
  match m.panic, m.validation.result? with
  | some text, _ => w.mapRun id (Run.setState (.panicked text))
  | none, some result => (w.mapRun id (Run.setState .finished)).report [ending mode result]
  | none, none => w

def scanRun (w : World) (id : RunId) (side : Side) : World :=
  match w.control.run? id with
  | some ⟨_, mode, v, cancelled, .active⟩ =>
    let m := w.stepScan v cancelled side
    m.world.closeRun id mode m
  | _ => w

section
variable (w : World) (id : RunId) {f g : Run → Run}

theorem mapRun_mapRun (hf : ∀ r, (f r).id = r.id) :
    (w.mapRun id f).mapRun id g = w.mapRun id fun r => g (f r) :=
  congrArg (fun c => { w with control := c }) (w.control.mapRun_mapRun id hf)

theorem run?_setValidation (v : Validation) : (w.mapRun id (Run.setValidation v)).control.run? id =
    (w.control.run? id).map (Run.setValidation v) :=
  w.control.run?_mapRun id fun _ => rfl

theorem run?_setState (s : RunState) : (w.mapRun id (Run.setState s)).control.run? id =
    (w.control.run? id).map (Run.setState s) :=
  w.control.run?_mapRun id fun _ => rfl

theorem closeRun_congr (mode : ScanMode) {m m' : Moved} (hv : m.validation = m'.validation)
    (hp : m.panic = m'.panic) : w.closeRun id mode m = w.closeRun id mode m' := by
  simp only [closeRun, hv, hp]

/-- A validation that is set anew covers the one set before. -/
theorem closeRun_setValidation (mode : ScanMode) (v : Validation) (m : Moved) :
    (w.mapRun id (Run.setValidation v)).closeRun id mode m = w.closeRun id mode m := by
  have hcover : (w.mapRun id (Run.setValidation v)).mapRun id (Run.setValidation m.validation) =
      w.mapRun id (Run.setValidation m.validation) := mapRun_mapRun w id fun _ => rfl
  simp only [closeRun, hcover]

end

variable {w : World} {id : RunId}

theorem stepRun_waiting {r : Run} (hr : w.control.run? id = some r) (hs : r.state = .waiting) :
    (w.stepRun id).1 = w.announceRun id := by
  rcases r with ⟨i, mode, v, cancelled, state⟩
  obtain rfl : state = .waiting := hs
  simp only [stepRun, announceRun, hr]
  rfl

theorem stepRun_eq {i : RunId} {mode : ScanMode} {v : Validation} {cancelled : Bool}
    (hr : w.control.run? id = some ⟨i, mode, v, cancelled, .active⟩) :
    (w.stepRun id).1 =
      (w.stepValidation v cancelled).world.closeRun id mode (w.stepValidation v cancelled) := by
  simp only [stepRun, hr, closeRun]
  cases (w.stepValidation v cancelled).panic with
  | some text => rfl
  | none => cases (w.stepValidation v cancelled).validation.result? <;> rfl

theorem stepScan_mapRun (id : RunId) (ht : w.tripwires = []) {v : Validation} {side : Side}
    (hs : (v.scan side).side = side) (cancelled : Bool) (f : Run → Run) :
    let m := w.stepScan v cancelled side
    let m' := (w.mapRun id f).stepScan v cancelled side
    m'.world = m.world.mapRun id f ∧ m'.validation = m.validation ∧ m'.panic = m.panic := by
  obtain ⟨hworld, hvalidation, hpanic⟩ := stepScan_eq (w := w) side cancelled ht hs
  obtain ⟨hworld', hvalidation', hpanic'⟩ :=
    stepScan_eq (w := w.mapRun id f) side cancelled ht hs
  refine ⟨?_, ?_, hpanic'.trans hpanic.symm⟩
  · rw [hworld, hworld']
    rfl
  · rw [hvalidation, hvalidation']
    rfl

/-- A run that is at work makes a request of its forward scan and then one of its reverse scan. -/
theorem stepRun_active {i : RunId} {mode : ScanMode} {v : Validation} {cancelled : Bool}
    (hr : w.control.run? id = some ⟨i, mode, v, cancelled, .active⟩) (ht : w.tripwires = [])
    (hside : ∀ side, (v.scan side).side = side) :
    (w.stepRun id).1 = (w.scanRun id .forward).scanRun id .reverse := by
  obtain ⟨hworld, hvalidation, hpanic⟩ :=
    stepScan_eq (w := w) .forward cancelled ht (hside .forward)
  have hcontrol : (w.stepScan v cancelled .forward).world.control = w.control := by
    rw [hworld]
    rfl
  have htrip : (w.stepScan v cancelled .forward).world.tripwires = [] := by
    rw [hworld]
    exact ht
  have hreverse : ((w.stepScan v cancelled .forward).validation.scan .reverse).side = .reverse := by
    rw [hvalidation, Validation.scan_setScan_of_ne _ _ _ (by decide)]
    exact hside .reverse
  have hfirst : w.scanRun id .forward = (w.stepScan v cancelled .forward).world.closeRun id mode
      (w.stepScan v cancelled .forward) := by
    simp only [scanRun, hr]
  rw [stepRun_eq hr, hfirst]
  simp only [stepValidation]
  generalize w.stepScan v cancelled .forward = a at hpanic hcontrol htrip hreverse
  have hrun : (a.world.mapRun id (Run.setValidation a.validation)).control.run? id =
      some ⟨i, mode, a.validation, cancelled, .active⟩ := by
    rw [run?_setValidation, hcontrol, hr]
    rfl
  cases hresult : a.validation.result? with
  | some result =>
    have hclosed : (a.world.closeRun id mode a).control.run? id =
        some ⟨i, mode, a.validation, cancelled, .finished⟩ := by
      simp only [closeRun, hpanic, hresult]
      change ((a.world.mapRun id _).mapRun id (Run.setState .finished)).control.run? id = _
      rw [run?_setState, hrun]
      rfl
    simp only [hpanic, Option.isSome_none, Option.isSome_some, Bool.or_true, if_true]
    rw [scanRun, hclosed]
  | none =>
    have hclosed : a.world.closeRun id mode a =
      a.world.mapRun id (Run.setValidation a.validation) := by
      simp only [closeRun, hpanic, hresult]
    obtain ⟨hworld', hvalidation', hpanic'⟩ :=
      stepScan_mapRun id htrip hreverse cancelled (Run.setValidation a.validation)
    rw [hclosed, scanRun, hrun]
    simp only [hpanic, Option.isSome_none, Bool.or_false, Bool.false_eq_true, if_false]
    rw [hworld', closeRun_congr _ _ _ hvalidation' hpanic', closeRun_setValidation]
    rfl

end World
end DualWrite
