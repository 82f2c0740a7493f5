import DualWrite.Proofs.Validation.Retrying
import DualWrite.Proofs.Validation.Rounds

/-!
# After the token is cancelled

A scan looks at its token before each page. So at most the page at hand, or the one whose read is
under way, still gives events. A read under way may be the last that a single pass tries: if that
fails, the validation ends with its error although it was cancelled.
-/
namespace DualWrite
open Scan

namespace Lane
variable {p : Plan} {source : Direction → Source} {now : Nat} {side : Side} {l l' old : Lane}

/-- What is in hand comes from the page that was read last. -/
def Holding (p : Plan) (l : Lane) : Prop :=
  l.scan.isResting = false → ∃ a ∈ l.attempts.head?, ∃ keys, a.outcome = .ok keys ∧
    keys.length ≤ p.batch.toNat ∧ l.scan.hand.Sublist (keys.map (·.1)) ∧
    l.scan.work 0 ≤ 2 + 2 * p.batch.toNat

theorem holding_kept (p : Plan) (side : Side) : Kept p side fun _ _ l => l.Holding p where
  later h _ _ := h
  step := by
    intro source now c l l' _ hs h hbusy'
    cases hs with
    | still => exact h hbusy'
    | stop | wake => cases hbusy'
    | clear | ask => exact h hbusy'
    | answer ha =>
      cases ha with
      | @page _ _ s hstage hphase hpaged hgives =>
        rcases hpaged.resting_or_loads with hresting | ⟨keys, rfl, hloads⟩
        · cases hbusy'.symm.trans hresting
        · have hlength := (hgives keys rfl).limit
          have hwork : s.work 0 ≤ 2 + 2 * p.batch.toNat := by
            have := hloads.work 0
            omega
          refine ⟨_, rfl, keys, rfl, hlength, ?_, hwork⟩
          rw [hloads.hand]
      | @inside _ s _ hstage hbusy hproceeds =>
        obtain ⟨a, ha, keys, houtcome, hlength, hhand, hwork⟩ := h hbusy
        refine ⟨a, ha, keys, houtcome, hlength, ?_, (hproceeds.work 0).le.trans hwork⟩
        exact ((List.sublist_append_right _ _).trans hproceeds.hand).trans hhand

def Reads (l : Lane) : Prop := l.stage ≠ .resting ∧ l.scan.phase = .ready

/-- The read under way is the last that a single pass tries. -/
def LastTry (p : Plan) (l : Lane) : Prop :=
  p.interval = 0 ∧ l.Reads ∧ maxAttempts ≤ l.scan.failures + 1

/-- What a lane has come to since it was cancelled. -/
structure Stopping (p : Plan) (old l : Lane) : Prop where
  /-- A read under way was under way before. -/
  reads : l.Reads → old.Reads ∧ l.scan = old.scan ∧ l.attempts = old.attempts ∧ l.sent = old.sent
  sent : ∃ new, l.sent = old.sent ++ new ∧ (new.map (·.id) ++ l.scan.hand = [] ∨
    ∃ a ∈ l.attempts, ∃ keys, a.outcome = .ok keys ∧ keys.length ≤ p.batch.toNat ∧
      (new.map (·.id) ++ l.scan.hand).Sublist (keys.map (·.1)))
  gaveUp : ∀ e, l.scan.phase = .ended (.error e) ↔
    old.LastTry p ∧ ∃ a, l.attempts = a :: old.attempts ∧ a.outcome = .error e

theorem stopping_refl (h : old.Holding p) (hunfailed : old.scan.Unfailed) : old.Stopping p old where
  reads h := ⟨h, rfl, rfl, rfl⟩
  sent := by
    refine ⟨[], (List.append_nil _).symm, ?_⟩
    by_cases hresting : old.scan.isResting = true
    · exact .inl (hand_of_isResting hresting)
    · obtain ⟨a, ha, keys, houtcome, hlength, hhand, _⟩ := h (Bool.eq_false_of_not_eq_true hresting)
      exact .inr ⟨a, List.mem_of_mem_head? ha, keys, houtcome, hlength, hhand⟩
  gaveUp e := by
    constructor
    · exact fun he => absurd he (hunfailed e)
    · rintro ⟨_, a, hattempts, _⟩
      exact (List.cons_ne_self _ _ hattempts.symm).elim

theorem Stopping.page (h : old.Stopping p l) {since : Nat} (hstage : l.stage = .asking since)
    (hphase : l.scan.phase = .ready) {outcome : Except Error (List (Int × Int))} {s : Scan}
    (hpaged : l.scan.Paged p now outcome s)
    (hlimit : ∀ keys, outcome = .ok keys → keys.length ≤ p.batch.toNat) :
    old.Stopping p ⟨s, .resting, ⟨l.scan.cursor, since, now, outcome⟩ :: l.attempts, l.sent⟩ := by
  obtain ⟨hreads, hscan, hattempts, hsent⟩ := h.reads ⟨by simp [hstage], hphase⟩
  refine ⟨fun hreads => absurd rfl hreads.1, ⟨[], ?_, ?_⟩, fun e => ?_⟩
  · rw [List.append_nil]
    exact hsent
  · rcases hpaged.resting_or_loads with hresting | ⟨keys, rfl, hloads⟩
    · exact .inl (hand_of_isResting hresting)
    · refine .inr ⟨_, List.mem_cons_self, keys, rfl, hlimit keys rfl, ?_⟩
      simp [hloads.hand]
  · rw [hattempts]
    cases outcome with
    | ok keys => simp [hpaged.unfailed e]
    | error e' =>
      cases hpaged
      rw [backOff_phase, LastTry, ← hscan]
      split
      · next hlast => simp [hlast, hreads]
      · next hmore => simp; grind

theorem Stopping.inside (h : old.Stopping p l) (hbusy : l.scan.isResting = false) {es : List Event}
    {s : Scan} (hproceeds : l.scan.Proceeds es s) :
    old.Stopping p ⟨s, .resting, l.attempts, l.sent ++ es⟩ := by
  obtain ⟨new, hsent, hnew⟩ := h.sent
  have hless : ((new ++ es).map (·.id) ++ s.hand).Sublist (new.map (·.id) ++ l.scan.hand) := by
    rw [List.map_append, List.append_assoc]
    exact (List.Sublist.refl _).append hproceeds.hand
  refine ⟨fun hreads => absurd rfl hreads.1, ⟨new ++ es, ?_, ?_⟩, fun e => ?_⟩
  · rw [hsent, List.append_assoc]
  · rcases hnew with hnone | ⟨a, ha, keys, houtcome, hlength, hnew⟩
    · exact .inl (List.sublist_nil.1 (hnone ▸ hless))
    · exact .inr ⟨a, ha, keys, houtcome, hlength, hless.trans hnew⟩
  · rw [← h.gaveUp e]
    constructor
    · exact fun he => absurd he (unfailed_of_isEnded _ (isEnded_of_request hproceeds.request) e)
    · intro he
      simp [Scan.isResting, he] at hbusy

theorem Stopping.stepped (h : old.Stopping p l) (hs : Stepped p source now true l l') :
    old.Stopping p l' := by
  cases hs with
  | still => exact h
  | stop hstage _ hbetween =>
    refine ⟨fun hreads => absurd hstage hreads.1, ?_, fun e => ?_⟩
    · obtain ⟨new, hsent, hnew⟩ := h.sent
      have hnone : (l.scan.endWith (.ok ())).hand = [] := rfl
      rw [hand_of_isResting hbetween.isResting] at hnew
      exact ⟨new, hsent, hnone ▸ hnew⟩
    · rw [← h.gaveUp e]
      rcases hbetween with hready | ⟨t, ht⟩
      · simp [Scan.endWith, hready]
      · simp [Scan.endWith, ht]
  | clear hstage _ hc => exact ⟨fun hreads => absurd (hc hreads.2) (by simp), h.sent, h.gaveUp⟩
  | wake _ _ _ hc => cases hc
  | ask hstage => exact ⟨fun hreads => h.reads ⟨by simp [hstage], hreads.2⟩, h.sent, h.gaveUp⟩
  | answer ha =>
    cases ha with
    | page hstage hphase hpaged hgives =>
      exact h.page hstage hphase hpaged fun keys hkeys => (hgives keys hkeys).limit
    | inside _ hbusy hproceeds => exact h.inside hbusy hproceeds

theorem stopping_kept (p : Plan) (side : Side) (old : Lane) :
    Kept p side fun _ cancelled l => cancelled = true ∧ old.Stopping p l where
  later h _ hc := ⟨hc h.1, h.2⟩
  step := by
    rintro source now c l l' _ hs ⟨rfl, h⟩
    exact ⟨rfl, h.stepped hs⟩

def toRead (n : Nat) (l : Lane) : Nat :=
  match l.stage, l.scan.phase with
  | .resting, _ => 0
  | _, .ready => n
  | _, _ => 0

theorem toRead_of_reads (n : Nat) (h : l.Reads) : l.toRead n = n := by
  obtain ⟨hstage, hphase⟩ := h
  rw [toRead, hphase]
  split <;> simp_all

theorem toRead_resting (n : Nat) (h : l.stage = .resting) : l.toRead n = 0 := by
  rw [toRead, h]

theorem toRead_inside (n : Nat) (h : l.scan.phase ≠ .ready) : l.toRead n = 0 := by
  rw [toRead]
  split
  · rfl
  · next hphase _ => exact absurd hphase h
  · rfl

def owes (p : Plan) (l : Lane) : Nat := l.debt (l.toRead p.batch.toNat)

/-- Whatever is done in a cancelled lane brings it nearer to its end. -/
theorem Stepped.owes_lt (hs : Stepped p source now true l l') (hl : l.Sound side)
    (hb : 1 ≤ p.batch) : l' = l ∨ l'.owes p < l.owes p := by
  cases hs with
  | still => exact .inl rfl
  | stop hstage _ hbetween =>
    right
    have hzero : ({ l with scan := l.scan.endWith (.ok ()) } : Lane).owes p = 0 := rfl
    rw [hzero, owes, debt_of_open hbetween.isEnded]
    omega
  | clear hstage hrequest hc =>
    right
    have hphase : l.scan.phase ≠ .ready := fun h => absurd (hc h) (by simp)
    have hnone : toRead p.batch.toNat { l with stage := .cleared } = 0 := toRead_inside _ hphase
    rw [owes, owes, hnone, toRead_inside _ hphase]
    exact debt_stage (isEnded_of_request hrequest) (by simp [hstage, Stage.left])
  | wake _ _ _ hc => cases hc
  | ask hstage =>
    right
    have hsame : toRead p.batch.toNat { l with stage := .asking now } = l.toRead p.batch.toNat := by
      cases hphase : l.scan.phase <;> simp [toRead, hstage, hphase]
    rw [owes, owes, hsame]
    exact debt_stage (isEnded_of_request (hl.asks (by simp [hstage])))
      (by simp [hstage, Stage.left])
  | answer ha =>
    right
    cases ha with
    | @page since _ s hstage hphase hpaged hgives =>
      rw [owes, owes, toRead_resting _ rfl, toRead_of_reads _ ⟨by simp [hstage], hphase⟩,
        debt_asking hstage hphase]
      rcases hpaged.waits_or_loads with hwaits | ⟨keys, rfl, hloads⟩
      · exact (debt_waiting hwaits).trans_lt (by omega)
      · have hlength := (hgives keys rfl).limit
        exact (debt_read hloads).trans_lt (by omega)
    | inside hstage hbusy hproceeds =>
      have hphase : l.scan.phase ≠ .ready := fun h => by
        simp [Scan.isResting, h] at hbusy
      rw [owes, owes, toRead_resting _ rfl, toRead_inside _ hphase]
      exact debt_inside hstage hbusy hproceeds

theorem Holding.owes_le (h : l.Holding p) (hb : 1 ≤ p.batch) :
    l.owes p ≤ 12 * p.batch.toNat + 5 := by
  have hle := debt_le (l.toRead p.batch.toNat) l
  have hstage : l.stage.left ≤ 2 := by
    cases l.stage <;> simp [Stage.left]
  by_cases hreads : l.Reads
  · have hwork : l.scan.work p.batch.toNat = 1 + 4 * p.batch.toNat := by rw [Scan.work, hreads.2]
    have hleft : l.stage.left ≤ 1 := by
      rcases hl : l.stage with _ | _ | since
      · exact absurd hl hreads.1
      · exact Nat.le_refl 1
      · exact Nat.zero_le 1
    rw [toRead_of_reads _ hreads, hwork] at hle
    rw [owes, toRead_of_reads _ hreads]
    omega
  · have hnone : l.toRead p.batch.toNat = 0 := by
      by_cases hstage : l.stage = .resting
      · exact toRead_resting _ hstage
      · exact toRead_inside _ fun hphase => hreads ⟨hstage, hphase⟩
    have hwork : l.scan.work 0 ≤ 2 + 2 * p.batch.toNat := by
      by_cases hbusy : l.scan.isResting = false
      · obtain ⟨_, _, _, _, _, _, hwork⟩ := h hbusy
        exact hwork
      · rcases hphase : l.scan.phase with _ | _ | _ | _ | _ | _
        case comparing | checking | publishing => simp [Scan.isResting, hphase] at hbusy
        all_goals
          simp only [Scan.work, hphase]
          omega
    rw [hnone] at hle
    rw [owes, hnone]
    omega

end Lane

namespace Flight
variable {x : Flight} {p : Plan} {side : Side}

/-- A validation of which both scans have ended has a result. -/
theorem result?_of_ended (h : ∀ side, (x.lane side).scan.isEnded = true) : x.result?.isSome := by
  by_contra hnone
  have hnone : x.validation.result? = none := Option.not_isSome_iff_eq_none.1 hnone
  have hok : x.validation.result? = some (.ok ()) := by
    rw [Validation.result?_eq_ok]
    intro side
    obtain ⟨r, hr⟩ := isEnded_iff.1 (h side)
    rw [validation_scan, hr]
    cases r with
    | ok u => rfl
    | error e =>
      have hscan := Validation.unfailed_of_result? hnone side
      rw [validation_scan] at hscan
      exact absurd hr (hscan e)
  rw [hnone] at hok
  cases hok

/-- What is left to a cancelled validation runs out. -/
theorem stopping_falls (hb : 1 ≤ p.batch) (side : Side) : Falls p side
    (fun x _ => x.Sound p ∧ x.cancelled = true) fun x _ => (x.lane side).owes p where
  sound h := h.1
  fit h := ⟨h.1.move _, cancelled_move _ h.2⟩
  awake h := .inl h.2
  falls := by
    rintro x m _ ⟨hsound, hc⟩
    have hstep := hsound.stepped_move m side
    rw [hc] at hstep
    rcases hstep.owes_lt (hsound.lane side) hb with hsame | hlt
    · exact .inl ⟨hsame, by rw [hsame]⟩
    · exact .inr hlt

theorem holding_run (hb : 1 ≤ p.batch) (store : Direction → Store) (clock : Nat) (ms : List Move)
    (side : Side) : (((start store clock p).run ms).lane side).Holding p :=
  (sound_start hb store clock).kept (Lane.holding_kept p side) (fun hbusy => by cases hbusy) ms

theorem stopping_run (hx : x.Sound p) (hl : (x.lane side).Holding p)
    (hunfailed : (x.lane side).scan.Unfailed) (ms : List Move) :
    (x.lane side).Stopping p (((x.move .cancel).run ms).lane side) :=
  ((hx.move .cancel).kept (Lane.stopping_kept p side (x.lane side))
    ⟨rfl, Lane.stopping_refl hl hunfailed⟩ ms).2

theorem unfailed_of_result? (h : ∀ e, x.result? ≠ some (.error e)) (side : Side) :
    (x.lane side).scan.Unfailed := by
  intro e he
  obtain ⟨e', hr⟩ := Validation.result?_eq_error.2 ⟨side, e, (x.validation_scan side).symm ▸ he⟩
  exact h e' hr

/-- A validation is cancelled before a scan has given up. It ends with an error just if some scan
then had its last try of a page under way, and that fails, with its error. Once the scans have been
served long enough the validation has ended; it has ended well if no such try was under way. -/
theorem cancellation_stops_all_but_a_last_try {store : Direction → Store} {clock : Nat} {p : Plan}
    {n : Int} {before after : List Move}
    (hbefore : ∀ e, ((start store clock (p.withBatch n)).run before).result? ≠ some (.error e)) :
    let x := (start store clock (p.withBatch n)).run before
    let y := (x.move .cancel).run after
    (∀ e, y.result? = some (.error e) ↔ ∃ side, (x.lane side).LastTry p ∧
      ∃ a, (y.lane side).attempts = a :: (x.lane side).attempts ∧ a.outcome = .error e) ∧
    ∀ rounds : List (List Move), after = rounds.flatten →
      (∀ round ∈ rounds, ∀ side, Serves side round) → 12 * (max n 1).toNat + 5 < rounds.length →
        y.result?.isSome ∧ ((∀ side, ¬ (x.lane side).LastTry p) → y.result? = some (.ok ())) := by
  intro x y
  have hb : 1 ≤ (p.withBatch n).batch := Int.le_max_right _ _
  have hx : x.Sound (p.withBatch n) := (sound_start hb store clock).run before
  have hholding : ∀ side, (x.lane side).Holding (p.withBatch n) := holding_run hb store clock before
  have hstopping : ∀ side, (x.lane side).Stopping (p.withBatch n) (y.lane side) := fun side =>
    stopping_run hx (hholding side) (unfailed_of_result? hbefore side) after
  have hresult : ∀ side e, (y.lane side).scan.phase = .ended (.error e) →
    y.result? = some (.error e) := by
    have hrun := result?_run_of_gaveUp store clock (p.withBatch n) (before ++ .cancel :: after)
    rwa [run_append, run_cons] at hrun
  have herror : ∀ e, y.result? = some (.error e) ↔ ∃ side, (x.lane side).LastTry p ∧
      ∃ a, (y.lane side).attempts = a :: (x.lane side).attempts ∧ a.outcome = .error e := by
    intro e
    constructor
    · intro he
      obtain ⟨side, e', hphase⟩ := Validation.result?_eq_error.1 ⟨e, he⟩
      rw [validation_scan] at hphase
      obtain rfl : e' = e := by simpa [he] using (hresult side e' hphase).symm
      exact ⟨side, ((hstopping side).gaveUp e').1 hphase⟩
    · rintro ⟨side, hlost⟩
      exact hresult side e (((hstopping side).gaveUp e).2 hlost)
  refine ⟨herror, ?_⟩
  rintro rounds hafter hserves hmany
  have hended : y.result?.isSome := by
    have hlane : ∀ side, y.result?.isSome ∨ (y.lane side).scan.isEnded = true := by
      intro side
      have howes : (x.lane side).owes (p.withBatch n) < rounds.length :=
        ((hholding side).owes_le hb).trans_lt hmany
      have hends := (stopping_falls hb side).ends (fun round hr => hserves round hr side)
        (x := x.move .cancel) ⟨hx.move .cancel, rfl⟩ howes
      rwa [← hafter] at hends
    by_contra hnone
    exact hnone (result?_of_ended fun side => (hlane side).resolve_left hnone)
  refine ⟨hended, fun hnone => ?_⟩
  obtain ⟨r, hr⟩ := Option.isSome_iff_exists.1 hended
  cases r with
  | ok u => exact hr
  | error e =>
    obtain ⟨side, hlast, _⟩ := (herror e).1 hr
    exact absurd hlast (hnone side)

/-- The first read of a page is under way at the cancellation, and fails. -/
theorem cancellation_stops_a_first_try :
    let x := (start (fun _ => .fresh "db" 1) 0 ((Plan.whole .src).withBatch 0)).run
      [.step .forward .look, .step .forward .ask]
    let round : List Move :=
      [.step .forward .look, .step .forward .ask, .step .forward (.answer none),
      .step .reverse .look, .step .reverse .ask, .step .reverse (.answer none)]
    (∀ e, x.result? ≠ some (.error e)) ∧
      ((x.move .cancel).run (List.replicate 18 round).flatten).result? = some (.ok ()) := by
  intro x round
  have hbefore : ∀ e, x.result? ≠ some (.error e) := by
    intro e he
    cases he
  refine ⟨hbefore, ?_⟩
  obtain ⟨_, hends⟩ := @cancellation_stops_all_but_a_last_try (fun _ => .fresh "db" 1) 0
    (.whole .src) 0 [.step .forward .look, .step .forward .ask]
      (List.replicate 18 round).flatten hbefore
  refine (hends (List.replicate 18 round) rfl ?_ (by decide)).2 ?_
  · intro r hr side
    obtain rfl := List.eq_of_mem_replicate hr
    cases side <;> simp [Serves, round]
  · rintro (_ | _) ⟨_, _, hmany⟩
    · exact absurd hmany (by decide)
    · exact absurd hmany (by decide)

/-- The third read of a page is under way at the cancellation, and fails. -/
theorem cancellation_meets_a_last_try :
    let read (message : String) : List Move := [.step .forward .look, .step .forward .ask,
      .step .forward (.answer (some (.other message))), .wait 200]
    let x := (start (fun _ => .fresh "db" 1) 0 ((Plan.whole .src).withBatch 0)).run
      (read "first" ++ read "second" ++ [.step .forward .look, .step .forward .ask])
    x.result? = none ∧
      ((x.move .cancel).run [.step .forward (.answer (some (.other "third")))]).result? =
        some (.error (.other "third")) :=
  ⟨rfl, rfl⟩

theorem cancelled_run (ms : List Move) (h : x.cancelled = true) : (x.run ms).cancelled = true := by
  induction ms generalizing x with
  | nil => exact h
  | cons m ms ih => exact ih (cancelled_move m h)

/-- The look at a cancelled token is the last thing that a scan does. -/
theorem Sound.last_look (hx : x.Sound p) (hgoes : x.result? = none) (hc : x.cancelled = true)
    (hstage : (x.lane side).stage = .resting)
    (hbetween : (x.lane side).scan.Between) (ms : List Move) :
    (x.run (.step side .look :: ms)).lane side =
      { x.lane side with scan := (x.lane side).scan.endWith (.ok ()) } := by
  have hobserve : (x.lane side).scan.observe true x.clock =
    (x.lane side).scan.endWith (.ok ()) := by
    rcases hbetween with hready | ⟨t, ht⟩
    · simp [Scan.observe, hready]
    · simp [Scan.observe, ht]
  have hlook : (x.move (.step side .look)).lane side =
      { x.lane side with scan := (x.lane side).scan.endWith (.ok ()) } := by
    rw [move_step hgoes]
    simp only [Function.update_self, Flight.stepped]
    rw [hc, Lane.look_resting hstage, hobserve, if_pos (request_ended rfl), ← hstage]
  rw [run_cons, (hx.move _).ended_stays (hlook ▸ rfl) ms, hlook]

/-- From a scan's first look at its cancelled token on, it begins no page read and sends nothing;
until then what it has sent since the cancellation belongs to one page. After the result neither
scan does anything. -/
theorem cancelled_scans_fall_silent {store : Direction → Store} {clock : Nat} {p : Plan} {n : Int}
    {before after : List Move} (side : Side) :
    let x := (start store clock (p.withBatch n)).run before
    let y := (x.move .cancel).run after
    (y.result? = none → (y.lane side).stage = .resting →
      ((y.lane side).scan.phase = .ready ∨ ∃ t, (y.lane side).scan.phase = .pausing t) → ∀ ms,
        ((y.run (.step side .look :: ms)).lane side).begun = (y.lane side).begun ∧
          ((y.run (.step side .look :: ms)).lane side).sent = (y.lane side).sent) ∧
    (∃ events, (y.lane side).sent = (x.lane side).sent ++ events ∧
      events.length ≤ (max n 1).toNat ∧
      (events = [] ∨ ∃ a ∈ (y.lane side).attempts, ∃ keys, a.outcome = .ok keys ∧
        (events.map (·.id)).Sublist (keys.map (·.1)))) ∧
    (x.result?.isSome → ∀ ms other, (x.run ms).lane other = x.lane other) := by
  intro x y
  have hb : 1 ≤ (p.withBatch n).batch := Int.le_max_right _ _
  have hx : x.Sound (p.withBatch n) := (sound_start hb store clock).run before
  have hy : y.Sound (p.withBatch n) := (hx.move .cancel).run after
  have hc : y.cancelled = true := cancelled_run after rfl
  refine ⟨?_, ?_, ?_⟩
  · intro hgoes hstage hphase ms
    rw [hy.last_look hgoes hc hstage hphase ms]
    simp [Lane.begun, hstage]
  · by_cases hr : x.result?.isSome
    · refine ⟨[], ?_, Nat.zero_le _, .inl rfl⟩
      have hsame : y.lane = x.lane := (run_ended (x := x.move .cancel) hr after).1
      rw [hsame, List.append_nil]
    · have hunfailed := unfailed_of_result? (fun e he => hr (by rw [he]; rfl)) side
      obtain ⟨events, hsent, hnone | ⟨a, ha, keys, houtcome, hlength, hids⟩⟩ :=
        (stopping_run hx (holding_run hb store clock before side) hunfailed after).sent
      · have hevents : events = [] := List.map_eq_nil_iff.1 (List.append_eq_nil_iff.1 hnone).1
        exact ⟨[], hevents ▸ hsent, Nat.zero_le _, .inl rfl⟩
      · have hpage : (events.map (·.id)).Sublist (keys.map (·.1)) :=
          (List.sublist_append_left _ _).trans hids
        have hle := hpage.length_le
        rw [List.length_map, List.length_map] at hle
        exact ⟨events, hsent, hle.trans hlength, .inr ⟨a, ha, keys, houtcome, hpage⟩⟩
  · intro hr ms other
    rw [(run_ended hr ms).1]

/-- A scan is cancelled with a page in hand: its event still goes out, and no further page is
read. -/
theorem cancelled_scan_sends_the_page_at_hand :
    let store (d : Direction) : Store := .ofEntities "db" (if d = .src then [.plain 1 0] else [])
    let turn : List Move :=
      [.step .forward .look, .step .forward .ask, .step .forward (.answer none)]
    let x := (start store 0 ((Plan.whole .src).withBatch 0)).run turn
    let y := (x.move .cancel).run (turn ++ turn)
    let z := y.run (.step .forward .look :: turn)
    (x.lane .forward).sent = [] ∧ (y.lane .forward).sent.map (·.id) = [1] ∧
      (y.lane .forward).begun = 1 ∧ (z.lane .forward).begun = (y.lane .forward).begun ∧
      (z.lane .forward).sent = (y.lane .forward).sent := by
  intro store turn x y z
  obtain ⟨hbefore, hafter, hone, hgoes, hresting, hidle, hasks⟩ :
      (x.lane .forward).sent = [] ∧ (y.lane .forward).sent.map (·.id) = [1] ∧
        (y.lane .forward).begun = 1 ∧ y.result?.isSome = false ∧
        (y.lane .forward).stage = .resting ∧
        (y.lane .forward).scan.isResting = true ∧ (y.lane .forward).scan.request ≠ .nothing := by
    decide +kernel +revert
  have hnone : y.result? = none :=
    Option.isNone_iff_eq_none.1 (Option.isSome_eq_false_iff.1 hgoes)
  have hready := Scan.ready_of_isResting hidle hasks
  have hsilent := @cancelled_scans_fall_silent store 0 (.whole .src) 0 turn (turn ++ turn) .forward
  have hy : y = ((start store 0 ((Plan.whole .src).withBatch 0)).run turn |>.move .cancel).run
    (turn ++ turn) := rfl
  have hz : z = y.run (.step .forward .look :: turn) := rfl
  dsimp only at hsilent
  rw [← hy] at hsilent
  clear_value y
  obtain ⟨hbegun, hsent⟩ := hsilent.1 hnone hresting (.inl hready) turn
  rw [hz]
  exact ⟨hbefore, hafter, hone, hbegun, hsent⟩

end Flight
end DualWrite
