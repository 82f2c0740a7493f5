import DualWrite.Proofs.Validation.Flight
import Mathlib.Data.List.Chain

/-!
# Pages that fail

A page that fails is read again behind the same key, after a pause. A single pass gives up at its
third failure in a row; a scan with an interval never does.
-/
namespace DualWrite
open Scan

/-- Behind a failed attempt the same page is tried again, after the pause. -/
def Attempt.Follows (p : Plan) (later earlier : Attempt) : Prop :=
  earlier.failed = true →
    later.key = earlier.key ∧ earlier.ended + max p.interval retryPause ≤ later.begun

namespace Lane

def since (now : Nat) (l : Lane) : Nat :=
  match l.stage with
  | .asking since => since
  | _ => now

theorem since_mono {now now' : Nat} (h : now ≤ now') (l : Lane) : l.since now ≤ l.since now' := by
  rw [since, since]
  split
  · exact Nat.le_refl _
  · exact h

structure Persists (p : Plan) (now : Nat) (l : Lane) : Prop where
  chain : l.attempts.IsChain (Attempt.Follows p)
  failures : l.scan.failures = (l.attempts.takeWhile (·.failed)).length
  /-- After a failure the scan pauses behind the old key, then goes on, unless it gives up. -/
  due : ∀ a ∈ l.attempts.head?, a.failed = true → l.scan.cursor = a.key ∧
    (l.scan.phase = .pausing (a.ended + max p.interval retryPause) ∨
      l.scan.phase = .ready ∧ a.ended + max p.interval retryPause ≤ l.since now ∨
      l.scan.isEnded = true)
  gaveUp : ∀ e, l.scan.phase = .ended (.error e) ↔ p.interval = 0 ∧
    maxAttempts ≤ l.scan.failures ∧ ∃ a ∈ l.attempts.head?, a.outcome = .error e
  goesOn : p.interval ≠ 0 → l.scan.isEnded = false

variable {p : Plan} {source : Direction → Source} {now : Nat} {l l' : Lane}

theorem persists_start (p : Plan) (now : Nat) (side : Side) : (start p side).Persists p now where
  chain := List.isChain_nil
  failures := rfl
  due := by simp [start]
  gaveUp := by simp [start, Scan.start]
  goesOn _ := rfl

/-- A failed attempt comes where the page before was due. -/
theorem Persists.follows (h : l.Persists p now) {since : Nat} (hstage : l.stage = .asking since)
    (hphase : l.scan.phase = .ready) (outcome : Except Error (List (Int × Int))) :
    (⟨l.scan.cursor, since, now, outcome⟩ :: l.attempts).IsChain (Attempt.Follows p) := by
  refine h.chain.cons fun a ha hfailed => ?_
  obtain ⟨hkey, hpausing | ⟨_, hpause⟩ | hended⟩ := h.due a ha hfailed
  · cases hphase.symm.trans hpausing
  · refine ⟨hkey, ?_⟩
    simpa only [Lane.since, hstage] using hpause
  · simp [Scan.isEnded, hphase] at hended

theorem Persists.failed (h : l.Persists p now) {since : Nat} (hstage : l.stage = .asking since)
    (hphase : l.scan.phase = .ready) (e : Error) :
    Persists p now ⟨(l.scan.backOff p now e).1, .resting,
      ⟨l.scan.cursor, since, now, .error e⟩ :: l.attempts, l.sent⟩ where
  chain := h.follows hstage hphase _
  failures := by
    rw [backOff_failures, h.failures, List.takeWhile_cons_of_pos rfl, List.length_cons]
  due := by
    rintro _ ⟨⟩ _
    refine ⟨backOff_cursor .., ?_⟩
    rw [Scan.isEnded, backOff_phase]
    split
    · exact .inr (.inr rfl)
    · exact .inl rfl
  gaveUp e' := by
    rw [backOff_phase, backOff_failures]
    split
    · next hlast => simp [hlast]
    · next hmore => simp; grind
  goesOn hi := by
    rw [Scan.isEnded, backOff_phase, if_neg fun h => hi h.1]

/-- A page that could be read ends a row of failures. -/
theorem Persists.succeeded (h : l.Persists p now) {since : Nat} (hstage : l.stage = .asking since)
    (hphase : l.scan.phase = .ready) {keys : List (Int × Int)} {s : Scan} (hs : s.failures = 0)
    (hunfailed : s.Unfailed) (hgoes : p.interval ≠ 0 → s.isEnded = false) :
    Persists p now ⟨s, .resting, ⟨l.scan.cursor, since, now, .ok keys⟩ :: l.attempts, l.sent⟩ where
  chain := h.follows hstage hphase _
  failures := by
    rw [hs, List.takeWhile_cons_of_neg (by simp [Attempt.failed]), List.length_nil]
  due := by
    rintro _ ⟨⟩ hfailed
    cases hfailed
  gaveUp e := by simp [hs, hunfailed e, maxAttempts]
  goesOn := hgoes

theorem Persists.answered (h : l.Persists p now) (ha : Answered p source now l l') :
    l'.Persists p now := by
  cases ha with
  | page hstage hphase hpaged _ =>
    cases hpaged with
    | failed e => exact h.failed hstage hphase e
    | drained =>
      refine h.succeeded hstage hphase (drained_failures ..) (drained_unfailed _) fun hi => ?_
      rw [Scan.isEnded, drained_phase, if_neg hi]
    | read hloads =>
      have hended := isEnded_of_request hloads.request
      exact h.succeeded hstage hphase hloads.failures (unfailed_of_isEnded _ hended) fun _ => hended
  | @inside since s es hstage hbusy hproceeds =>
    have hended := isEnded_of_request hproceeds.request
    refine ⟨h.chain, hproceeds.failures.trans h.failures, ?_, ?_, fun _ => hended⟩
    · intro a ha hfailed
      obtain ⟨_, hpausing | ⟨hready, _⟩ | hended⟩ := h.due a ha hfailed
      · simp [Scan.isResting, hpausing] at hbusy
      · simp [Scan.isResting, hready] at hbusy
      · obtain ⟨r, hr⟩ := isEnded_iff.1 hended
        simp [Scan.isResting, hr] at hbusy
    · intro e
      rw [hproceeds.failures, ← h.gaveUp e]
      constructor
      · exact fun he => absurd he (unfailed_of_isEnded _ hended e)
      · intro he
        simp [Scan.isResting, he] at hbusy

theorem Persists.stepped (h : l.Persists p now) (hs : Stepped p source now false l l') :
    l'.Persists p now := by
  cases hs with
  | still => exact h
  | stop _ hc => cases hc
  | clear hstage =>
    refine ⟨h.chain, h.failures, fun a ha hfailed => ?_, h.gaveUp, h.goesOn⟩
    simpa only [since, hstage] using h.due a ha hfailed
  | @wake t hstage hphase ht _ =>
    refine ⟨h.chain, h.failures, fun a ha hfailed => ?_, fun e => ?_, fun _ => rfl⟩
    · obtain ⟨hkey, hpausing | ⟨hready, _⟩ | hended⟩ := h.due a ha hfailed
      · obtain rfl := Phase.pausing.inj (hphase.symm.trans hpausing)
        exact ⟨hkey, .inr (.inl ⟨rfl, ht⟩)⟩
      · cases hphase.symm.trans hready
      · simp [Scan.isEnded, hphase] at hended
    · rw [← h.gaveUp e, hphase]
      simp
  | ask hstage =>
    refine ⟨h.chain, h.failures, fun a ha hfailed => ?_, h.gaveUp, h.goesOn⟩
    simpa only [since, hstage] using h.due a ha hfailed
  | answer ha => exact h.answered ha

theorem persists_kept (p : Plan) (side : Side) :
    Kept p side fun now cancelled l => cancelled = false → l.Persists p now where
  later := by
    intro now now' c c' l h hnow hc hc'
    have hold := h (by cases c <;> simp_all)
    refine ⟨hold.chain, hold.failures, fun a ha hfailed => ?_, hold.gaveUp, hold.goesOn⟩
    exact (hold.due a ha hfailed).imp_right (Or.imp_right (Or.imp_left
      (And.imp_right (·.trans (l.since_mono hnow)))))
  step := by
    rintro source now c l l' _ hs h rfl
    exact (h rfl).stepped hs

/-- A scan moves its cursor by a page that it could read, and by nothing else. -/
theorem Stepped.cursor {cancelled : Bool} (hs : Stepped p source now cancelled l l')
    (hne : l'.scan.cursor ≠ l.scan.cursor) : ∃ a keys,
      l'.attempts = a :: l.attempts ∧ a.key = l.scan.cursor ∧ a.outcome = .ok keys := by
  cases hs with
  | still | stop | clear | wake | ask => exact absurd rfl hne
  | answer ha =>
    cases ha with
    | inside _ _ hproceeds => exact absurd hproceeds.cursor hne
    | page _ _ hpaged _ =>
      cases hpaged with
      | failed => exact absurd (backOff_cursor ..) hne
      | drained => exact ⟨_, [], rfl, rfl, rfl⟩
      | read => exact ⟨_, _, rfl, rfl, rfl⟩

/-- Three failures in a row, the last with some error. -/
theorem three_failures {as : List Attempt} {e : Error} :
    (maxAttempts ≤ (as.takeWhile (·.failed)).length ∧ ∃ a ∈ as.head?, a.outcome = .error e) ↔
      ∃ c b a rest, as = c :: b :: a :: rest ∧ a.failed = true ∧ b.failed = true ∧
        c.outcome = .error e := by
  constructor
  · rintro ⟨hlength, c, hc, he⟩
    have hall : ∀ a ∈ as.takeWhile (·.failed), a.failed = true :=
      List.all_eq_true.1 List.all_takeWhile
    have hsplit := List.takeWhile_append_dropWhile (p := (·.failed)) (l := as)
    rcases htake : as.takeWhile (·.failed) with _ | ⟨c', _ | ⟨b, _ | ⟨a, rest⟩⟩⟩
    case nil | nil | nil => simp [htake, maxAttempts] at hlength
    case cons =>
      rw [htake] at hall hsplit
      rw [← hsplit] at hc ⊢
      obtain rfl := Option.some.inj hc
      exact ⟨_, b, a, _, rfl, hall a (by simp), hall b (by simp), he⟩
  · rintro ⟨c, b, a, rest, rfl, ha, hb, he⟩
    have hc : c.failed = true := by rw [Attempt.failed, he]
    refine ⟨?_, c, rfl, he⟩
    simp [ha, hb, hc, maxAttempts]

end Lane

/-- A scan that has given up beside one that has not is what its validation ends with. -/
theorem Validation.result?_of_gaveUp {v : Validation} {e : Error} (side : Side)
    (h : (v.scan side).phase = .ended (.error e)) (hother : ∀ other ≠ side,
      (v.scan other).Unfailed) :
    v.result? = some (.error e) := by
  cases side with
  | forward =>
    have hforward : v.forward.phase = .ended (.error e) := h
    rw [result?, hforward]
  | reverse =>
    have hreverse : v.reverse.phase = .ended (.error e) := h
    have hforward : v.forward.Unfailed := hother .forward (by decide)
    rw [result?]
    split
    · next e' he' => exact absurd he' (hforward e')
    · next e' he' _ =>
      rw [hreverse] at he'
      cases he'
      rfl
    · next _ hok => cases hreverse.symm.trans hok
    · next hnone _ => exact absurd hreverse (hnone e)

namespace Flight
variable {x : Flight} {p : Plan} {side : Side}

theorem uncancelled_run (h : x.cancelled = false) {ms : List Move} (hc : .cancel ∉ ms) :
    (x.run ms).cancelled = false := by
  induction ms generalizing x with
  | nil => exact h
  | cons m ms ih =>
    obtain ⟨hm, hms⟩ := List.ne_and_not_mem_of_not_mem_cons hc
    exact ih (uncancelled_move (Ne.symm hm) h) hms

theorem persists_run (hb : 1 ≤ p.batch) (store : Direction → Store) (clock : Nat) {ms : List Move}
    (hc : .cancel ∉ ms) (side : Side) :
    (((start store clock p).run ms).lane side).Persists p ((start store clock p).run ms).clock :=
  (sound_start hb store clock).kept (Lane.persists_kept p side)
    (fun _ => Lane.persists_start p clock side) ms (uncancelled_run rfl hc)

/-- A scan that has given up is what its validation ends with. -/
theorem result?_move_of_gaveUp (h : ∀ side e, (x.lane side).scan.phase = .ended (.error e) →
    x.result? = some (.error e)) (m : Move) (side : Side) (e : Error)
    (he : ((x.move m).lane side).scan.phase = .ended (.error e)) :
    (x.move m).result? = some (.error e) := by
  by_cases hr : x.result?.isSome
  · rw [move_ended hr] at he
    rw [result?_move hr]
    exact h side e he
  · have hgoes := Option.not_isSome_iff_eq_none.1 hr
    have hunfailed : ∀ other, (x.validation.scan other).Unfailed :=
      Validation.unfailed_of_result? hgoes
    have hlane : ∀ e, (x.lane side).scan.phase ≠ .ended (.error e) :=
      x.validation_scan side ▸ hunfailed side
    cases m with
    | write | wait | cancel => exact absurd he (hlane e)
    | step other s =>
      rw [move_step hgoes] at he ⊢
      by_cases hs : side = other
      · subst hs
        simp only [Function.update_self] at he
        rw [result?, validation_update]
        refine Validation.result?_of_gaveUp side (by rwa [Validation.scan_setScan]) ?_
        intro other hother
        rw [Validation.scan_setScan_of_ne _ _ _ hother]
        exact hunfailed other
      · simp only [Function.update_of_ne hs] at he
        exact absurd he (hlane e)

theorem result?_run_of_gaveUp (store : Direction → Store) (clock : Nat) (p : Plan)
    (ms : List Move) :
    let x := (start store clock p).run ms
    ∀ side e, (x.lane side).scan.phase = .ended (.error e) → x.result? = some (.error e) := by
  have hrun : ∀ (x : Flight) (ms : List Move),
    (∀ side e, (x.lane side).scan.phase = .ended (.error e) →
      x.result? = some (.error e)) → ∀ side e, ((x.run ms).lane side).scan.phase =
      .ended (.error e) →
        (x.run ms).result? = some (.error e) := by
    intro x ms
    induction ms generalizing x with
    | nil => exact fun h => h
    | cons m ms ih => exact fun h => ih _ (result?_move_of_gaveUp h m)
  refine hrun _ ms fun side e he => ?_
  cases he

/-- A page that is due is asked for at the next look. -/
theorem retries (hgoes : x.result? = none) (hc : x.cancelled = false)
    (hl : (x.lane side).Persists p x.clock) (hrest : (x.lane side).stage = .resting)
    (hopen : (x.lane side).scan.isEnded = false) {a : Attempt}
    (ha : a ∈ (x.lane side).attempts.head?)
    (hfailed : a.failed = true) (hdue : a.ended + max p.interval retryPause ≤ x.clock) :
    let l := (x.run [.step side .look, .step side .ask]).lane side
    l.stage = .asking x.clock ∧ l.scan.phase = .ready ∧ l.scan.cursor = a.key := by
  obtain ⟨hkey, hphase⟩ := hl.due a ha hfailed
  have hready : (x.lane side).scan.observe false x.clock =
    { (x.lane side).scan with phase := .ready } := by
    rcases hphase with hpausing | ⟨hready, _⟩ | hended
    · simp [Scan.observe, hpausing, hdue]
    · have hsame : (x.lane side).scan.observe false x.clock = (x.lane side).scan := by
        simp [Scan.observe, hready]
      rw [hsame, ← hready]
    · rw [hopen] at hended
      cases hended
  let looked : Lane :=
    { x.lane side with scan := { (x.lane side).scan with phase := .ready }, stage := .cleared }
  have hlook : x.move (.step side .look) =
    { x with lane := Function.update x.lane side looked } := by
    rw [move_step hgoes, stepped, Lane.look_resting hrest, hc, hready,
      if_neg (Scan.request_ready rfl)]
  have hask : ({ x with lane := Function.update x.lane side looked } : Flight).move
    (.step side .ask) =
      { x with lane := Function.update x.lane side (looked.ask x.clock) } := by
    rw [move_step (result?_update hgoes (l := looked) rfl)]
    simp [stepped, Function.update_idem]
  intro l
  have hl' : l = looked.ask x.clock := by
    simp only [l, run_cons, hlook, hask, run_nil, Function.update_self]
  rw [hl']
  exact ⟨rfl, rfl, hkey⟩

/-- Whatever fails: the page that failed is read again behind the same key, after the longer of the
interval and the least pause, and as soon as that is over if the scan gets its turn. The key moves
only by a page that could be read. A single pass gives up just at its third failure in a row, with
the error of the third, and a scan with an interval never ends. -/
theorem failed_pages_are_read_again {store : Direction → Store} {clock : Nat} {p : Plan} {n : Int}
    {moves : List Move} (hcalm : .cancel ∉ moves) (side : Side) :
    let x := (start store clock (p.withBatch n)).run moves
    let l := x.lane side
    l.attempts.IsChain (fun later earlier => earlier.failed = true → later.key = earlier.key ∧
      earlier.ended + max p.interval retryPause ≤ later.begun) ∧
    (∀ a ∈ l.attempts.head?, a.failed = true → l.scan.isEnded = false → x.result? = none →
      l.stage = .resting → a.ended + max p.interval retryPause ≤ x.clock →
      let l' := (x.run [.step side .look, .step side .ask]).lane side
      l'.stage = .asking x.clock ∧ l'.scan.phase = .ready ∧ l'.scan.cursor = a.key) ∧
    (∀ m, ((x.move m).lane side).scan.cursor ≠ l.scan.cursor → ∃ a keys,
      ((x.move m).lane side).attempts = a :: l.attempts ∧ a.key = l.scan.cursor ∧
        a.outcome = .ok keys) ∧
    (p.interval = 0 → ∀ e, l.scan.phase = .ended (.error e) ↔ ∃ c b a rest,
      l.attempts = c :: b :: a :: rest ∧ a.failed = true ∧ b.failed = true ∧ c.outcome = .error e) ∧
    (∀ e, l.scan.phase = .ended (.error e) → x.result? = some (.error e)) ∧
    (p.interval ≠ 0 → l.scan.isEnded = false) := by
  intro x l
  have hb : 1 ≤ (p.withBatch n).batch := Int.le_max_right _ _
  have hsound : x.Sound (p.withBatch n) := (sound_start hb store clock).run moves
  have hc : x.cancelled = false := uncancelled_run rfl hcalm
  have hl : l.Persists (p.withBatch n) x.clock := persists_run hb store clock hcalm side
  refine ⟨hl.chain, ?_, ?_, ?_, ?_, hl.goesOn⟩
  · intro a ha hfailed hopen hgoes hrest hdue
    exact retries hgoes hc hl hrest hopen ha hfailed hdue
  · exact fun m hne => (hsound.stepped_move m side).cursor hne
  · intro hi e
    have hzero : (p.withBatch n).interval = 0 := hi
    rw [← Lane.three_failures, ← hl.failures, hl.gaveUp e, and_iff_right hzero]
  · exact fun e he => result?_run_of_gaveUp store clock _ moves side e he

/-- The forward scan of a single pass fails at its first page, three times. -/
theorem failed_pages_are_read_again_three_times :
    let read (message : String) : List Move := [.step .forward .look, .step .forward .ask, .wait 7,
      .step .forward (.answer (some (.other message)))]
    let moves := read "first" ++ [.wait 200] ++ read "second" ++ [.wait 250] ++ read "third"
    .cancel ∉ moves ∧ ((start (fun _ => .fresh "db" 1) 0 ((Plan.whole .src).withBatch 0)).run
      moves).result? = some (.error (.other "third")) := by
  intro read moves
  have hcalm : .cancel ∉ moves := by simp [moves, read]
  obtain ⟨_, _, _, hgaveUp, hresult, _⟩ := @failed_pages_are_read_again (fun _ => .fresh "db" 1) 0
    (.whole .src) 0 moves hcalm .forward
  have hattempts : (((start (fun _ => .fresh "db" 1) 0 ((Plan.whole .src).withBatch 0)).run
      moves).lane .forward).attempts = [⟨.start .full 0, 464, 471, .error (.other "third")⟩,
        ⟨.start .full 0, 207, 214, .error (.other "second")⟩,
        ⟨.start .full 0, 0, 7, .error (.other "first")⟩] := by
    rfl
  exact ⟨hcalm, hresult _ ((hgaveUp rfl _).2 ⟨_, _, _, [], hattempts, rfl, rfl, rfl⟩)⟩

end Flight
end DualWrite
