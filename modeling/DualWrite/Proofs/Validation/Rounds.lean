import DualWrite.Proofs.Validation.Flight

/-!
# Lanes that are served in rounds

A round has a look, a request and an answer for a lane, in any order and among other moves.
Whichever of the three a lane is waiting for comes in every round; so a measure that falls with each
of them runs out.
-/
namespace DualWrite
open Scan

def Stage.left : Stage → Nat
  | .resting => 2
  | .cleared => 1
  | .asking _ => 0

namespace Lane

def Awaits (l : Lane) : Step → Prop
  | .look => l.stage = .resting
  | .ask => l.stage = .cleared
  | .answer _ => ∃ since, l.stage = .asking since

/-- More steps than a lane still takes with so many rows to read. -/
def debt (rest : Nat) (l : Lane) : Nat :=
  if l.scan.isEnded then 0 else 1 + l.stage.left + 3 * l.scan.work rest

section
variable {p : Plan} {now rest : Nat} {l l' : Lane}

theorem debt_of_open (h : l.scan.isEnded = false) :
    l.debt rest = 1 + l.stage.left + 3 * l.scan.work rest := by
  simp [debt, h]

theorem debt_le (rest : Nat) (l : Lane) : l.debt rest ≤ 1 + l.stage.left +
    3 * l.scan.work rest := by
  rw [debt]
  split
  · exact Nat.zero_le _
  · exact Nat.le_refl _

theorem debt_mono {rest' : Nat} (h : rest ≤ rest') (l : Lane) :
    l.debt rest ≤ l.debt rest' := by
  have hwork : l.scan.work rest ≤ l.scan.work rest' := by
    rw [Scan.work, Scan.work]
    split <;> omega
  rw [debt, debt]
  split <;> omega

/-- Rows that are written cost no more than they take to be read. -/
theorem debt_add (rest more : Nat) (l : Lane) : l.debt (rest + more) ≤ l.debt rest + 12 * more := by
  have hwork : l.scan.work (rest + more) ≤ l.scan.work rest + 4 * more := by
    rw [Scan.work, Scan.work]
    split <;> omega
  rw [debt, debt]
  split <;> omega

theorem debt_stage {stage : Stage} (hopen : l.scan.isEnded = false)
    (h : stage.left < l.stage.left) : debt rest { l with stage := stage } < l.debt rest := by
  have hafter : debt rest { l with stage := stage } = 1 + stage.left + 3 * l.scan.work rest :=
    debt_of_open hopen
  rw [hafter, debt_of_open hopen]
  omega

theorem debt_asking {since : Nat} (hstage : l.stage = .asking since)
    (hphase : l.scan.phase = .ready) : l.debt rest = 4 + 12 * rest := by
  have hwork : l.scan.work rest = 1 + 4 * rest := by rw [Scan.work, hphase]
  rw [debt_of_open (Between.isEnded (.inl hphase)), hstage, hwork, Stage.left]
  omega

/-- A scan that rests between pages has at most its next look before it. -/
theorem debt_waiting {s : Scan} {as : List Attempt} {es : List Event}
    (h : (∃ t, s.phase = .pausing t) ∨ ∃ r, s.phase = .ended r) :
    debt rest ⟨s, .resting, as, es⟩ ≤ 3 := by
  have hwork : s.work rest = 0 := by
    rcases h with ⟨t, ht⟩ | ⟨r, hr⟩
    · rw [Scan.work, ht]
    · rw [Scan.work, hr]
  have := debt_le rest ⟨s, .resting, as, es⟩
  simp only [hwork, Stage.left] at this
  omega

theorem debt_read {s : Scan} {keys : List (Int × Int)} (h : l.scan.Loads keys s) {as : List Attempt}
    {es : List Event} : debt rest ⟨s, .resting, as, es⟩ ≤ 9 + 12 * rest + 6 * keys.length := by
  have := debt_le rest ⟨s, .resting, as, es⟩
  have := h.work rest
  simp only [Stage.left] at *
  omega

theorem debt_inside {since : Nat} (hstage : l.stage = .asking since)
    (hbusy : l.scan.isResting = false)
    {s : Scan} {sent : List Event} (h : l.scan.Proceeds sent s) {as : List Attempt}
    {es : List Event} : debt rest ⟨s, .resting, as, es⟩ < l.debt rest := by
  have hopen : l.scan.isEnded = false := by
    by_contra hended
    obtain ⟨r, hr⟩ := isEnded_iff.1 (Bool.eq_true_of_not_eq_false hended)
    simp [Scan.isResting, hr] at hbusy
  have := debt_le rest ⟨s, .resting, as, es⟩
  have := h.work rest
  rw [debt_of_open hopen, hstage]
  simp only [Stage.left] at *
  omega

end
end Lane

theorem Lane.Stepped.ended {p : Plan} {source : Direction → Source} {now : Nat} {cancelled : Bool}
    {side : Side} {l l' : Lane} (hs : Lane.Stepped p source now cancelled l l')
    (hl : l.Sound side) (h : l.scan.isEnded = true) : l' = l := by
  obtain ⟨r, hr⟩ := isEnded_iff.1 h
  have hnothing : l.scan.request = .nothing := request_ended hr
  cases hs with
  | still => rfl
  | stop _ _ hbetween => cases h.symm.trans hbetween.isEnded
  | clear _ hrequest => exact absurd hnothing hrequest
  | wake _ hphase => cases hr.symm.trans hphase
  | ask hstage => exact absurd hnothing (hl.asks (by simp [hstage]))
  | answer ha =>
    cases ha with
    | page _ hphase => cases hr.symm.trans hphase
    | inside _ hbusy => simp [Scan.isResting, hr] at hbusy

/-- A look gets a lane on unless its scan has ended or sleeps. -/
theorem Lane.Sound.look_ne {side : Side} {l : Lane} (h : l.Sound side)
    {cancelled : Bool} {now : Nat}
    (hstage : l.stage = .resting) (hopen : l.scan.isEnded = false)
    (hawake : cancelled = true ∨ ∀ t, l.scan.phase ≠ .pausing t) : l.look cancelled now ≠ l := by
  intro hsame
  have hscan : l.scan.observe cancelled now = l.scan := by
    rw [Lane.look_resting hstage] at hsame
    exact congrArg Lane.scan hsame
  have hnothing : l.scan.request = .nothing := by
    by_contra hrequest
    rw [Lane.look_resting hstage, hscan, if_neg hrequest] at hsame
    have hcleared : Stage.cleared = l.stage := congrArg Lane.stage hsame
    cases hcleared.trans hstage
  rcases hphase : l.scan.phase with _ | _ | _ | _ | t | r
  case ready => exact request_ready hphase hnothing
  case pausing =>
    rcases hawake with rfl | hawake
    · have hended : (l.scan.observe true now).isEnded = true := by
        simp [Scan.observe, hphase, Scan.endWith, Scan.isEnded]
      rw [hscan, hopen] at hended
      cases hended
    · exact hawake t hphase
  case ended => simp [Scan.isEnded, hphase] at hopen
  all_goals exact h.busy (by simp [Scan.isResting, hphase]) hnothing

namespace Flight
variable {side : Side}

/-- A round has something of everything that a lane may be waiting for. -/
def Serves (side : Side) (round : List Move) : Prop :=
  .step side .look ∈ round ∧ .step side .ask ∈ round ∧ ∃ failure,
  .step side (.answer failure) ∈ round

theorem Serves.awaited {round : List Move} (h : Serves side round) (l : Lane) :
    ∃ s, l.Awaits s ∧ .step side s ∈ round := by
  obtain ⟨hlook, hask, failure, hanswer⟩ := h
  rcases hstage : l.stage with _ | _ | since
  · exact ⟨.look, hstage, hlook⟩
  · exact ⟨.ask, hstage, hask⟩
  · exact ⟨.answer failure, ⟨since, hstage⟩, hanswer⟩

/-- A measure of what a lane has before it, of a flight and of the moves that are still to come.
Whatever a move does to the lane lowers it, and the lane is never asleep. -/
structure Falls (p : Plan) (side : Side) (Fit : Flight → List Move → Prop)
    (μ : Flight → List Move → Nat) : Prop where
  sound : ∀ {x ms}, Fit x ms → x.Sound p
  fit : ∀ {x m ms}, Fit x (m :: ms) → Fit (x.move m) ms
  awake : ∀ {x ms}, Fit x ms → x.cancelled = true ∨ ∀ t, (x.lane side).scan.phase ≠ .pausing t
  falls : ∀ {x m ms}, Fit x (m :: ms) →
    (x.move m).lane side = x.lane side ∧ μ (x.move m) ms ≤ μ x (m :: ms) ∨
      μ (x.move m) ms < μ x (m :: ms)

variable {p : Plan} {Fit : Flight → List Move → Prop} {μ : Flight → List Move → Nat} {x : Flight}

theorem Falls.run (h : Falls p side Fit μ) {ms rest : List Move} (hx : Fit x (ms ++ rest)) :
    Fit (x.run ms) rest ∧
    ((x.run ms).lane side = x.lane side ∧ μ (x.run ms) rest ≤ μ x (ms ++ rest) ∨
      μ (x.run ms) rest < μ x (ms ++ rest)) := by
  induction ms generalizing x with
  | nil => exact ⟨hx, .inl ⟨rfl, Nat.le_refl _⟩⟩
  | cons m ms ih =>
    obtain ⟨hfit, hrest⟩ := ih (h.fit hx)
    refine ⟨hfit, ?_⟩
    rw [run_cons, List.cons_append]
    rcases h.falls hx with ⟨hlane, hle⟩ | hlt
    · rcases hrest with ⟨hlane', hle'⟩ | hlt'
      · exact .inl ⟨hlane'.trans hlane, hle'.trans hle⟩
      · exact .inr (hlt'.trans_le hle)
    · rcases hrest with ⟨_, hle'⟩ | hlt'
      · exact .inr (hle'.trans_lt hlt)
      · exact .inr (hlt'.trans hlt)

theorem Sound.ended_stays (hx : x.Sound p) (h : (x.lane side).scan.isEnded = true)
    (ms : List Move) : (x.run ms).lane side = x.lane side := by
  induction ms generalizing x with
  | nil => rfl
  | cons m ms ih =>
    have hone : (x.move m).lane side = x.lane side :=
      (hx.stepped_move m side).ended (hx.lane side) h
    rw [run_cons, ih (hx.move m) (hone ▸ h), hone]

/-- The step that an open lane awaits does not leave it as it is. -/
theorem Sound.awaited_ne (hx : x.Sound p) (hgoes : x.result? = none)
    (hopen : (x.lane side).scan.isEnded = false)
    (hawake : x.cancelled = true ∨ ∀ t, (x.lane side).scan.phase ≠ .pausing t) {s : Lane.Step}
    (hawaits : (x.lane side).Awaits s) : (x.move (.step side s)).lane side ≠ x.lane side := by
  rw [move_step hgoes]
  simp only [Function.update_self]
  cases s with
  | look => exact (hx.lane side).look_ne hawaits hopen hawake
  | ask =>
    have hstage : (x.lane side).stage = .cleared := hawaits
    intro hsame
    have hasking := congrArg Lane.stage hsame
    simp only [Flight.stepped, Lane.ask, hstage] at hasking
    cases hasking
  | answer failure =>
    obtain ⟨since, hstage⟩ := hawaits
    intro hsame
    have hresting := congrArg Lane.stage hsame
    simp only [Flight.stepped, Lane.answer, hstage] at hresting
    cases hresting

theorem Falls.round (h : Falls p side Fit μ) {round rest : List Move} (hserves : Serves side round)
    (hx : Fit x (round ++ rest)) (hopen : (x.lane side).scan.isEnded = false) :
    (x.run round).result?.isSome ∨ μ (x.run round) rest < μ x (round ++ rest) := by
  obtain ⟨s, hawaits, hs⟩ := hserves.awaited (x.lane side)
  obtain ⟨before, after, rfl⟩ := List.append_of_mem hs
  rw [List.append_assoc, List.cons_append] at hx ⊢
  rw [run_append, run_cons]
  obtain ⟨hfit, hbefore⟩ := h.run hx
  by_cases hr : (x.run before).result?.isSome
  · left
    rw [(run_ended (x := (x.run before).move _) (by rwa [result?_move hr]) after).2,
      result?_move hr]
    exact hr
  · right
    obtain ⟨_, hafter⟩ := h.run (h.fit hfit)
    have hle : μ (((x.run before).move (.step side s)).run after) rest ≤
        μ ((x.run before).move (.step side s)) (after ++ rest) := by
      rcases hafter with ⟨_, hle⟩ | hlt
      · exact hle
      · exact hlt.le
    rcases hbefore with ⟨hlane, hle'⟩ | hlt
    · have hne := (h.sound hfit).awaited_ne (Option.not_isSome_iff_eq_none.1 hr) (hlane ▸ hopen)
        (h.awake hfit) (hlane ▸ hawaits)
      rcases h.falls hfit with ⟨hsame, _⟩ | hlt
      · exact absurd hsame hne
      · omega
    · rcases h.falls hfit with ⟨_, hle'⟩ | hlt' <;> omega

/-- A lane that is served in more rounds than its measure says has ended, or its validation has. -/
theorem Falls.ends (h : Falls p side Fit μ) {rounds : List (List Move)}
    (hserves : ∀ round ∈ rounds, Serves side round) (hx : Fit x rounds.flatten)
    (hmany : μ x rounds.flatten < rounds.length) :
    (x.run rounds.flatten).result?.isSome ∨
      ((x.run rounds.flatten).lane side).scan.isEnded = true := by
  induction rounds generalizing x with
  | nil => exact absurd hmany (Nat.not_lt_zero _)
  | cons round rounds ih =>
    rw [List.flatten_cons] at hx hmany ⊢
    by_cases hopen : (x.lane side).scan.isEnded = true
    · right
      rwa [(h.sound hx).ended_stays hopen]
    · have hopen := Bool.eq_false_of_not_eq_true hopen
      rw [run_append]
      rcases h.round (hserves round List.mem_cons_self) hx hopen with hr | hlt
      · left
        rwa [(run_ended hr _).2]
      · refine ih (fun r hr => hserves r (List.mem_cons_of_mem _ hr)) (h.run hx).1 ?_
        rw [List.length_cons] at hmany
        omega

end Flight
end DualWrite
