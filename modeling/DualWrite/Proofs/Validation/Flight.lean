import DualWrite.Proofs.Validation.Polling
import DualWrite.Proofs.Validation.Progress

/-!
# Requests that take time

The look of a scan at its token, its request and the answer to it are three steps here. Whatever may
happen comes between any two of them: the other scan takes steps, a store is written, time passes,
the validation is cancelled. A request takes effect at the moment of its answer, and any may fail.
Beside each scan its page reads and the events that it has sent are kept; no step goes by them.
-/
namespace DualWrite

inductive Stage where
  | resting
  /-- The token has been looked at. -/
  | cleared
  | asking (since : Nat)
deriving DecidableEq

structure Attempt where
  key : Cursor
  begun : Nat
  ended : Nat
  /-- Ids of the page with their times. -/
  outcome : Except Error (List (Int × Int))

def Attempt.failed (a : Attempt) : Bool := match a.outcome with | .error _ => true | .ok _ => false

def Source.broken (e : Error) : Source :=
  ⟨fun _ _ _ => .error e, fun _ _ _ => .error e, fun _ => .error e, fun _ => .error e⟩

/-- A scan with its request under way, and what it has done so far. -/
structure Lane where
  scan : Scan
  stage : Stage
  /-- The latest first. -/
  attempts : List Attempt
  sent : List Event

inductive Lane.Step where
  | look
  | ask
  /-- The answer comes, or a failure in its place. -/
  | answer (failure : Option Error)

namespace Scan

/-- Ids of the page at hand about which something may still be sent. -/
def hand (s : Scan) : List Int := s.trail []

def Between (s : Scan) : Prop := s.phase = .ready ∨ ∃ t, s.phase = .pausing t

def attempt? (p : Plan) (source : Direction → Source) (since now : Nat) (s : Scan) :
    Option Attempt :=
  match s.request with
  | .page c | .keys c =>
    some ⟨c, since, now, (source (p.scanned s.side)).stamps s.side p.mode p.batch c⟩
  | _ => none

end Scan

namespace Lane

def start (p : Plan) (side : Side) : Lane := ⟨.start p side, .resting, [], []⟩

def look (cancelled : Bool) (now : Nat) (l : Lane) : Lane :=
  match l.stage with
  | .resting =>
    let s := l.scan.observe cancelled now
    { l with scan := s, stage := if s.request = .nothing then .resting else .cleared }
  | _ => l

def ask (now : Nat) (l : Lane) : Lane :=
  match l.stage with
  | .cleared => { l with stage := .asking now }
  | _ => l

def answer (p : Plan) (source : Direction → Source) (now : Nat)
    (failure : Option Error) (l : Lane) :
    Lane :=
  match l.stage with
  | .asking since =>
    let source := fun d => failure.elim (source d) Source.broken
    { scan := (l.scan.served p source now).1
      stage := .resting
      attempts := (l.scan.attempt? p source since now).toList ++ l.attempts
      sent := l.sent ++ if failure.isSome then [] else l.scan.sent }
  | _ => l

def begun (l : Lane) : Nat :=
  match l.stage, l.scan.phase with
  | .asking _, .ready => l.attempts.length + 1
  | _, _ => l.attempts.length

end Lane

/-- Both scans of a validation, their requests under way, and what is around them. -/
structure Flight where
  plan : Plan
  store : Direction → Store
  clock : Nat
  cancelled : Bool
  lane : Side → Lane

inductive Flight.Move where
  | step (side : Side) (s : Lane.Step)
  /-- What a store holds afterwards. -/
  | write (d : Direction) (s : Store)
  | wait (ms : Nat)
  | cancel

namespace Flight

def start (store : Direction → Store) (clock : Nat) (p : Plan) : Flight :=
  ⟨p, store, clock, false, Lane.start p⟩

def validation (x : Flight) : Validation := ⟨x.plan, (x.lane .forward).scan, (x.lane .reverse).scan⟩

def result? (x : Flight) : Option (Except Error Unit) := x.validation.result?

def source (x : Flight) (d : Direction) : Source := .ofStore (x.store d)

def stepped (x : Flight) (side : Side) : Lane.Step → Lane
  | .look => (x.lane side).look x.cancelled x.clock
  | .ask => (x.lane side).ask x.clock
  | .answer failure => (x.lane side).answer x.plan x.source x.clock failure

/-- A validation that has ended takes no more steps. -/
def move (x : Flight) : Move → Flight
  | .step side s =>
    if x.result?.isSome then x
    else { x with lane := Function.update x.lane side (x.stepped side s) }
  | .write d s => { x with store := Function.update x.store d s }
  | .wait ms => { x with clock := x.clock + ms }
  | .cancel => { x with cancelled := true }

def run (x : Flight) (ms : List Move) : Flight := ms.foldl move x

end Flight

namespace Scan
section
variable (s : Scan) (es : List Event)

@[simp] theorem publish_failures : (s.publish es).failures = s.failures := rfl

@[simp] theorem compared_failures (rows : List Interactive) :
    (s.compared rows es).failures = s.failures := by
  by_cases h : rows = [] <;> simp [compared, h]

@[simp] theorem hand_publish : (s.publish es).hand = es.map (·.id) := by
  simp [hand, trail]

@[simp] theorem hand_compared (rows : List Interactive) :
    (s.compared rows es).hand = es.map (·.id) ++ rows.map (·.id) := by
  simp [hand, trail]

variable (p : Plan) (ids present : List Int) (chunks : List (List Int))

@[simp] theorem checked_failures : (s.checked p ids chunks present).failures = s.failures := by
  by_cases h : chunks = [] <;> simp [checked, h]

theorem hand_checked : ((s.checked p ids chunks present).hand).Sublist ids := by
  by_cases h : chunks = []
  · rw [checked, if_pos h, hand_publish, ids_events]
    exact List.filter_sublist
  · simp [hand, trail, h]

end

section
variable {s : Scan}

theorem hand_comparing {rows : List Interactive} {es : List Event}
    (h : s.phase = .comparing rows es) : s.hand = es.map (·.id) ++ rows.map (·.id) := by
  simp [hand, trail, found, toFind, toCheck, h]

theorem hand_checking {ids there : List Int} {chunks : List (List Int)}
    (h : s.phase = .checking ids chunks there) : s.hand = ids := by
  simp [hand, trail, found, toFind, toCheck, h]

theorem hand_publishing {es : List Event} (h : s.phase = .publishing es) :
    s.hand = es.map (·.id) := by
  simp [hand, trail, found, toFind, toCheck, h]

theorem isResting_ready (h : s.phase = .ready) : s.isResting = true := by
  rw [isResting, h]

theorem request_ready (h : s.phase = .ready) : s.request ≠ .nothing := by
  cases hs : s.side <;> simp [request, h, hs]

theorem hand_of_isResting (h : s.isResting = true) : s.hand = [] := by
  rcases s with ⟨side, cursor, failures, phase⟩
  cases phase with
  | ready | pausing | ended => rfl
  | comparing | checking | publishing => cases h

theorem Between.isResting (h : s.Between) : s.isResting = true := by
  rcases h with hready | ⟨t, ht⟩
  · exact isResting_ready hready
  · rw [Scan.isResting, ht]

theorem Between.isEnded (h : s.Between) : s.isEnded = false := by
  rcases h with hready | ⟨t, ht⟩
  · rw [Scan.isEnded, hready]
  · rw [Scan.isEnded, ht]

theorem isEnded_iff : s.isEnded = true ↔ ∃ r, s.phase = .ended r := by
  rw [isEnded]
  split <;> simp_all

theorem isEnded_of_request (h : s.request ≠ .nothing) : s.isEnded = false := by
  by_contra hended
  obtain ⟨r, hr⟩ := isEnded_iff.1 (Bool.eq_true_of_not_eq_false hended)
  exact h (request_ended hr)

/-- A resting scan that asks for something asks for a page. -/
theorem ready_of_isResting (h : s.isResting = true) (hr : s.request ≠ .nothing) :
    s.phase = .ready := by
  rcases s with ⟨side, cursor, failures, phase⟩
  cases phase with
  | ready => rfl
  | pausing | ended => cases side <;> exact absurd rfl hr
  | comparing | checking | publishing => cases h

theorem attempt?_ready (p : Plan) (source : Direction → Source) (since now : Nat)
    (h : s.phase = .ready) : s.attempt? p source since now =
      some ⟨s.cursor, since, now,
        (source (p.scanned s.side)).stamps s.side p.mode p.batch s.cursor⟩ := by
  cases hs : s.side <;> simp [attempt?, request, h, hs]

theorem attempt?_inside (p : Plan) (source : Direction → Source) (since now : Nat)
    (h : s.phase ≠ .ready) : s.attempt? p source since now = none := by
  rw [attempt?]
  split
  · next c hc => exact absurd (ready_of_request (.inl hc)) h
  · next c hc => exact absurd (ready_of_request (.inr hc)) h
  · rfl

end

/-- A scan finds that it is cancelled, or that its pause is over, or it goes on as it is. -/
theorem observe_cases (cancelled : Bool) (now : Nat) (s : Scan) :
    (cancelled = true ∧ s.Between ∧ s.observe cancelled now = s.endWith (.ok ())) ∨
    (cancelled = false ∧ ∃ t, s.phase = .pausing t ∧ t ≤ now ∧
      s.observe cancelled now = { s with phase := .ready }) ∨
    s.observe cancelled now = s ∧ (s.phase = .ready → cancelled = false) := by
  rw [observe]
  split
  · next hphase => cases cancelled <;> simp [Between, hphase]
  · next t hphase =>
    cases cancelled with
    | true => exact .inl ⟨rfl, .inr ⟨t, hphase⟩, rfl⟩
    | false =>
      by_cases ht : t ≤ now
      · exact .inr (.inl ⟨rfl, t, hphase, ht, by simp [ht]⟩)
      · exact .inr (.inr ⟨by simp [ht], fun _ => rfl⟩)
  · next hready _ => exact .inr (.inr ⟨rfl, fun h => absurd h hready⟩)

/-- A page of these ids and times comes into a scan's hands. -/
structure Loads (s : Scan) (keys : List (Int × Int)) (s' : Scan) : Prop where
  side : s'.side = s.side
  cursor : ∃ last, keys.getLast? = some last ∧ s'.cursor = s.cursor.advance last.2 last.1
  failures : s'.failures = 0
  busy : s'.isResting = false
  request : s'.request ≠ .nothing
  hand : s'.hand = keys.map (·.1)
  work : ∀ rest, s'.work rest ≤ 2 + 4 * rest + 2 * keys.length

/-- A scan gets on with the page at hand, and these events leave its hands. -/
structure Proceeds (s : Scan) (es : List Event) (s' : Scan) : Prop where
  side : s'.side = s.side
  cursor : s'.cursor = s.cursor
  failures : s'.failures = s.failures
  request : s'.request ≠ .nothing
  hand : (es.map (·.id) ++ s'.hand).Sublist s.hand
  work : ∀ rest, s'.work rest < s.work rest

section
variable {p : Plan} {source : Direction → Source} {now : Nat} {s s' : Scan} {es : List Event}
  {ns : List Notice}

/-- What does not get through leaves the hands of a scan all the same. -/
theorem Proceeds.silent (h : s.Proceeds es s') : s.Proceeds [] s' :=
  { h with hand := (List.sublist_append_right _ _).trans h.hand }

theorem Turn.proceeds (h : Turn p source now s es ns s') (hbusy : s.isResting = false)
    (hrequest : s.request ≠ .nothing) : s.Proceeds es s' := by
  cases h with
  | idle hnone => exact absurd hnone hrequest
  | page _ hphase | keys _ hphase | pageDrained _ hphase | keysDrained _ hphase
  | pageFailed _ hphase | keysFailed _ hphase =>
    exact absurd (hbusy.symm.trans (isResting_ready hphase)) Bool.false_ne_true
  | @find row rows found other hphase hfind =>
    refine ⟨compared_side .., compared_cursor .., compared_failures ..,
      compared_request _ _ _, ?_, ?_⟩
    · rw [hand_comparing hphase, hand_compared, List.map_nil, List.nil_append, List.map_append,
        List.append_assoc]
      exact (List.Sublist.refl _).append ((difference_ids p row other).append (List.Sublist.refl _))
    · refine fun rest => work_compared_lt rest s _ hphase ?_
      rw [List.length_append]
      exact Nat.add_le_add_left (length_difference_le p row other) _
  | @findFailed row rows found e hphase _ =>
    refine ⟨compared_side .., compared_cursor .., compared_failures .., compared_request _ _ _, ?_,
      fun rest => work_compared_lt rest s _ hphase (Nat.le_succ _)⟩
    rw [hand_comparing hphase, hand_compared, List.map_nil, List.nil_append]
    exact (List.Sublist.refl _).append (List.sublist_cons_self _ _)
  | @present ids chunk chunks there more hphase _ =>
    refine ⟨checked_side .., checked_cursor .., checked_failures .., checked_request _ _ _ _ _, ?_,
      fun rest => work_checked_lt rest s p hphase⟩
    rw [hand_checking hphase]
    exact hand_checked ..
  | @presentFailed ids chunk chunks there e hphase _ =>
    refine ⟨publish_side .., publish_cursor .., publish_failures .., publish_request _ _, ?_,
      fun rest => work_publish_nil_lt rest s hphase⟩
    rw [hand_publish]
    exact List.nil_sublist _
  | @publish e es hphase =>
    refine ⟨publish_side .., publish_cursor .., publish_failures .., publish_request _ _, ?_,
      fun rest => work_publish_lt rest s es hphase⟩
    rw [hand_publishing hphase, hand_publish]
    exact List.Sublist.refl _

theorem loads_rows {rows : List Interactive} {last : Interactive} (hside : s.side = .forward)
    (hlast : rows.getLast? = some last) : s.Loads (rows.map fun e => (e.id, e.uTime)) { s with
      failures := 0
      cursor := s.cursor.advance last.uTime last.id
      phase := .comparing rows [] } where
  side := rfl
  cursor := ⟨(last.id, last.uTime), by rw [List.getLast?_map, hlast]; rfl, rfl⟩
  failures := rfl
  busy := rfl
  request := by
    cases rows with
    | nil => cases hlast
    | cons r rows => simp [request, hside]
  hand := by rw [hand_comparing rfl, List.map_map]; rfl
  work rest := by simp [work]

theorem loads_keys {ks : List (Int × Int)} {last : Int × Int} (hside : s.side = .reverse)
    (hlast : ks.getLast? = some last) : s.Loads ks { s with
      failures := 0, cursor := s.cursor.advance last.2 last.1,
      phase := .checking (ks.map (·.1)) (chunks chunkSize (ks.map (·.1))) [] } where
  side := rfl
  cursor := ⟨last, hlast, rfl⟩
  failures := rfl
  busy := rfl
  request := by
    have hne : ks.map (·.1) ≠ [] :=
      mt List.map_eq_nil_iff.1 (List.ne_nil_of_mem (List.mem_of_getLast? hlast))
    obtain ⟨c, cs, hc⟩ := List.exists_cons_of_ne_nil (chunks_ne_nil chunkSize hne)
    simp [request, hside, hc]
  hand := hand_checking rfl
  work rest := by
    have hle := length_chunks_le chunkSize (ks.map (·.1))
    simp only [work, List.length_map] at hle ⊢
    omega

/-- The next page of a scan, read of these sources, has these ids and times, and is no longer than
was asked for. -/
structure Gives (p : Plan) (source : Direction → Source) (s : Scan)
    (keys : List (Int × Int)) : Prop where
  stamps : (source (p.scanned s.side)).stamps s.side p.mode p.batch s.cursor = .ok keys
  limit : keys.length ≤ p.batch.toNat

/-- What becomes of a scan whose page has been read. -/
inductive Paged (p : Plan) (now : Nat) (s : Scan) :
    Except Error (List (Int × Int)) → Scan → Prop where
  | failed (e : Error) : Paged p now s (.error e) (s.backOff p now e).1
  | drained : Paged p now s (.ok []) (({ s with failures := 0 } : Scan).drained p now)
  | read {keys s'} : s.Loads keys s' → Paged p now s (.ok keys) s'

theorem Paged.side {outcome : Except Error (List (Int × Int))} (h : s.Paged p now outcome s') :
    s'.side = s.side := by
  cases h with
  | failed => exact backOff_side ..
  | drained => exact drained_side ..
  | read h => exact h.side

section
variable (p now s) (e : Error)

theorem backOff_failures : (s.backOff p now e).1.failures = s.failures + 1 := by
  simp only [backOff]; split <;> rfl

theorem backOff_phase : (s.backOff p now e).1.phase =
    if p.interval = 0 ∧ maxAttempts ≤ s.failures + 1 then .ended (.error e)
    else .pausing (now + max p.interval retryPause) := by
  simp only [backOff, Bool.and_eq_true, decide_eq_true_eq]
  split <;> rfl

theorem drained_failures : (s.drained p now).failures = s.failures := by
  rw [drained]; split <;> rfl

theorem drained_phase : (s.drained p now).phase =
    if p.interval = 0 then .ended (.ok ()) else .pausing (now + p.interval) := by
  rw [drained]; split <;> rfl

end

/-- After a page a scan waits or has ended, or it has the page at hand. -/
theorem Paged.waits_or_loads {outcome : Except Error (List (Int × Int))}
    (h : s.Paged p now outcome s') : ((∃ t, s'.phase = .pausing t) ∨ ∃ r, s'.phase = .ended r) ∨
      ∃ keys, outcome = .ok keys ∧ s.Loads keys s' := by
  cases h with
  | failed e =>
    rw [backOff_phase]
    split
    · exact .inl (.inr ⟨_, rfl⟩)
    · exact .inl (.inl ⟨_, rfl⟩)
  | drained =>
    rw [drained_phase]
    split
    · exact .inl (.inr ⟨_, rfl⟩)
    · exact .inl (.inl ⟨_, rfl⟩)
  | read h => exact .inr ⟨_, rfl, h⟩

theorem Paged.resting_or_loads {outcome : Except Error (List (Int × Int))}
    (h : s.Paged p now outcome s') :
    s'.isResting = true ∨ ∃ keys, outcome = .ok keys ∧ s.Loads keys s' := by
  refine h.waits_or_loads.imp_left fun hwaits => ?_
  rcases hwaits with ⟨t, ht⟩ | ⟨r, hr⟩
  · rw [isResting, ht]
  · rw [isResting, hr]

theorem Paged.busy {outcome : Except Error (List (Int × Int))} (h : s.Paged p now outcome s')
    (hbusy : s'.isResting = false) : s'.request ≠ .nothing := by
  rcases h.resting_or_loads with hresting | ⟨_, _, hloads⟩
  · cases hbusy.symm.trans hresting
  · exact hloads.request

/-- A page that could be read does not make a scan give up. -/
theorem Paged.unfailed {keys : List (Int × Int)} (h : s.Paged p now (.ok keys) s') :
    s'.Unfailed := by
  cases h with
  | drained => exact drained_unfailed _
  | read h => exact unfailed_of_isEnded _ (isEnded_of_request h.request)

theorem Turn.paged (h : Turn p source now s es ns s') (hphase : s.phase = .ready) : es = [] ∧
    s.Paged p now ((source (p.scanned s.side)).stamps s.side p.mode p.batch s.cursor) s' := by
  have hforward : ∀ r, s.side = .forward → (source p.base).page p.mode p.batch s.cursor = r →
      (source (p.scanned s.side)).stamps s.side p.mode p.batch s.cursor =
        r.map (List.map fun e => (e.id, e.uTime)) := by
    rintro _ hside rfl
    rw [hside]
    rfl
  have hreverse : ∀ r, s.side = .reverse → (source p.base.other).keys p.mode p.batch s.cursor = r →
      (source (p.scanned s.side)).stamps s.side p.mode p.batch s.cursor = r := by
    rintro _ hside rfl
    rw [hside]
    rfl
  cases h with
  | idle hnone => exact absurd hnone (request_ready hphase)
  | page hside _ hpage hlast =>
    rw [hforward _ hside hpage]
    exact ⟨rfl, .read (loads_rows hside hlast)⟩
  | keys hside _ hkeys hlast =>
    rw [hreverse _ hside hkeys]
    exact ⟨rfl, .read (loads_keys hside hlast)⟩
  | pageDrained hside _ hpage =>
    rw [hforward _ hside hpage]
    exact ⟨rfl, .drained⟩
  | keysDrained hside _ hkeys =>
    rw [hreverse _ hside hkeys]
    exact ⟨rfl, .drained⟩
  | pageFailed hside _ hpage =>
    rw [hforward _ hside hpage]
    exact ⟨rfl, .failed _⟩
  | keysFailed hside _ hkeys =>
    rw [hreverse _ hside hkeys]
    exact ⟨rfl, .failed _⟩
  | find hphase' | findFailed hphase' | present hphase' | presentFailed hphase' | publish hphase' =>
    cases hphase.symm.trans hphase'

end
end Scan

namespace Lane

/-- What an answer does: it is that to a page read, or it gets the scan on with the page at hand. -/
inductive Answered (p : Plan) (source : Direction → Source) (now : Nat) (l : Lane) :
    Lane → Prop where
  | page {since outcome s} : l.stage = .asking since → l.scan.phase = .ready →
      l.scan.Paged p now outcome s → (∀ keys, outcome = .ok keys → l.scan.Gives p source keys) →
      Answered p source now l
        ⟨s, .resting, ⟨l.scan.cursor, since, now, outcome⟩ :: l.attempts, l.sent⟩
  | inside {since s es} : l.stage = .asking since → l.scan.isResting = false →
      l.scan.Proceeds es s → Answered p source now l ⟨s, .resting, l.attempts, l.sent ++ es⟩

variable {p : Plan} {source : Direction → Source} {now : Nat} {l : Lane}

/-- Whatever the answer to a request, it does one of these. -/
theorem answered {since : Nat} (hstage : l.stage = .asking since)
    (hrequest : l.scan.request ≠ .nothing)
    (hlimit : ∀ d c keys, (source d).stamps l.scan.side p.mode p.batch c = .ok keys →
      keys.length ≤ p.batch.toNat) (failure : Option Error) :
    Answered p source now l (l.answer p source now failure) := by
  have hturn := Scan.turn_served p (fun d => failure.elim (source d) Source.broken) now l.scan
  simp only [answer, hstage]
  generalize Scan.served p (fun d => failure.elim (source d) Source.broken) now l.scan =
    after at hturn
  by_cases hresting : l.scan.isResting = true
  · have hphase := Scan.ready_of_isResting hresting hrequest
    obtain ⟨hsent, hpaged⟩ := hturn.paged hphase
    rw [Scan.attempt?_ready _ _ _ _ hphase, hsent, ite_self, List.append_nil]
    refine .page hstage hphase hpaged fun keys hkeys => ?_
    cases failure with
    | none => exact ⟨hkeys, hlimit _ _ _ hkeys⟩
    | some e => cases hs : l.scan.side <;> simp [Source.stamps, Source.broken, hs,
      Except.map] at hkeys
  · have hbusy : l.scan.isResting = false := by simpa using hresting
    have hphase : l.scan.phase ≠ .ready := fun h => hresting (Scan.isResting_ready h)
    have hproceeds := hturn.proceeds hbusy hrequest
    rw [Scan.attempt?_inside _ _ _ _ hphase]
    cases failure with
    | none => exact .inside hstage hbusy hproceeds
    | some e => exact .inside hstage hbusy hproceeds.silent

/-- A lane of a side. What is under way in it is a request, and with a page at hand there is one to
be made. -/
structure Sound (side : Side) (l : Lane) : Prop where
  side : l.scan.side = side
  asks : l.stage ≠ .resting → l.scan.request ≠ .nothing
  busy : l.scan.isResting = false → l.scan.request ≠ .nothing

inductive Stepped (p : Plan) (source : Direction → Source) (now : Nat)
    (cancelled : Bool) (l : Lane) : Lane → Prop where
  | still : Stepped p source now cancelled l l
  /-- The look finds the token cancelled. -/
  | stop : l.stage = .resting → cancelled = true → l.scan.Between →
      Stepped p source now cancelled l { l with scan := l.scan.endWith (.ok ()) }
  | clear : l.stage = .resting → l.scan.request ≠ .nothing →
      (l.scan.phase = .ready → cancelled = false) →
      Stepped p source now cancelled l { l with stage := .cleared }
  /-- A pause is over. -/
  | wake {t} : l.stage = .resting → l.scan.phase = .pausing t → t ≤ now → cancelled = false →
      Stepped p source now cancelled l
        { l with scan := { l.scan with phase := .ready }, stage := .cleared }
  | ask : l.stage = .cleared → Stepped p source now cancelled l { l with stage := .asking now }
  | answer {l'} : Answered p source now l l' → Stepped p source now cancelled l l'

theorem look_resting (h : l.stage = .resting) (cancelled : Bool) (now : Nat) :
    l.look cancelled now = { l with
      scan := l.scan.observe cancelled now
      stage :=
        if (l.scan.observe cancelled now).request = .nothing then .resting else .cleared } := by
  simp only [look, h]

theorem stepped_look (p : Plan) (source : Direction → Source) (now : Nat)
    (cancelled : Bool) (l : Lane) : Stepped p source now cancelled l (l.look cancelled now) := by
  rcases hstage : l.stage with _ | _ | since
  · rw [look_resting hstage]
    rcases l.scan.observe_cases cancelled now with
      ⟨hc, hphase, he⟩ | ⟨hc, t, hphase, ht, he⟩ | ⟨he, hc⟩
    · rw [he, if_pos (Scan.request_ended rfl), ← hstage]
      exact .stop hstage hc hphase
    · rw [he, if_neg (Scan.request_ready rfl)]
      exact .wake hstage hphase ht hc
    · rw [he]
      split
      · rw [← hstage]
        exact .still
      · next hrequest => exact .clear hstage hrequest hc
  · simp only [look, hstage]
    exact .still
  · simp only [look, hstage]
    exact .still

theorem stepped_ask (p : Plan) (source : Direction → Source) (now : Nat)
    (cancelled : Bool) (l : Lane) : Stepped p source now cancelled l (l.ask now) := by
  rw [ask]
  split
  · next hstage => exact .ask hstage
  · exact .still

variable {side : Side}

theorem sound_start (p : Plan) (side : Side) : (start p side).Sound side :=
  ⟨rfl, fun h => absurd rfl h, fun h => by cases h⟩

theorem Sound.stepped_answer (h : l.Sound side) (cancelled : Bool)
    (hlimit : ∀ d c keys, (source d).stamps l.scan.side p.mode p.batch c = .ok keys →
      keys.length ≤ p.batch.toNat) (failure : Option Error) :
    Stepped p source now cancelled l (l.answer p source now failure) := by
  rcases hstage : l.stage with _ | _ | since
  · simp only [answer, hstage]
    exact .still
  · simp only [answer, hstage]
    exact .still
  · exact .answer (answered hstage (h.asks (by simp [hstage])) hlimit failure)

theorem Answered.sound {l' : Lane} (ha : Answered p source now l l') (h : l.Sound side) :
    l'.Sound side := by
  cases ha with
  | page _ _ hpaged _ =>
    exact ⟨hpaged.side.trans h.side, fun h => absurd rfl h, hpaged.busy⟩
  | inside _ _ hproceeds =>
    exact ⟨hproceeds.side.trans h.side, fun h => absurd rfl h, fun _ => hproceeds.request⟩

theorem Stepped.sound {l' : Lane} {cancelled : Bool} (hs : Stepped p source now cancelled l l')
    (h : l.Sound side) : l'.Sound side := by
  cases hs with
  | still => exact h
  | stop hstage => exact ⟨h.side, fun hne => absurd hstage hne, fun hbusy => by cases hbusy⟩
  | clear _ hrequest => exact ⟨h.side, fun _ => hrequest, h.busy⟩
  | wake => exact ⟨h.side, fun _ => Scan.request_ready rfl, fun hbusy => by cases hbusy⟩
  | ask hstage => exact ⟨h.side, fun _ => h.asks (by simp [hstage]), h.busy⟩
  | answer ha => exact ha.sound h

end Lane

namespace Validation
variable {v : Validation}

/-- A validation ends badly just if a scan has given up. -/
theorem result?_eq_error :
    (∃ e, v.result? = some (.error e)) ↔ ∃ side e, (v.scan side).phase = .ended (.error e) := by
  constructor
  · rintro ⟨e, h⟩
    rw [result?] at h
    split at h
    · next e' hforward => exact ⟨.forward, e', hforward⟩
    · next e' hreverse _ => exact ⟨.reverse, e', hreverse⟩
    · cases h
    · cases h
  · rintro ⟨side, e, h⟩
    by_contra hnone
    rw [result?] at hnone
    cases side with
    | forward =>
      have hforward : v.forward.phase = .ended (.error e) := h
      exact hnone ⟨e, by rw [hforward]⟩
    | reverse =>
      have hreverse : v.reverse.phase = .ended (.error e) := h
      split at hnone <;> simp_all

/-- A scan that has not ended, beside one that has not given up, keeps its validation going. -/
theorem result?_eq_none (h : ∀ side, (v.scan side).Unfailed) (side : Side)
    (hs : (v.scan side).isEnded = false) : v.result? = none := by
  cases hr : v.result? with
  | none => rfl
  | some r =>
    cases r with
    | error e =>
      obtain ⟨other, e', he⟩ := result?_eq_error.1 ⟨e, hr⟩
      exact absurd he (h other e')
    | ok u =>
      have hend := v.result?_eq_ok.1 hr side
      rw [Scan.isEnded, hend] at hs
      cases hs

theorem unfailed_of_result? (h : v.result? = none) (side : Side) : (v.scan side).Unfailed := by
  intro e he
  obtain ⟨_, hr⟩ := result?_eq_error.2 ⟨side, e, he⟩
  rw [h] at hr
  cases hr

end Validation

namespace Flight
variable {x : Flight} {p : Plan} {side : Side}

@[simp] theorem run_nil (x : Flight) : x.run [] = x := rfl

@[simp] theorem run_cons (x : Flight) (m : Move) (ms : List Move) :
    x.run (m :: ms) = (x.move m).run ms := rfl

theorem run_append (x : Flight) (ms ns : List Move) : x.run (ms ++ ns) = (x.run ms).run ns :=
  List.foldl_append

theorem validation_scan (x : Flight) (side : Side) :
    x.validation.scan side = (x.lane side).scan := by
  cases side <;> rfl

@[simp] theorem move_plan (x : Flight) (m : Move) : (x.move m).plan = x.plan := by
  cases m with
  | step => rw [move]; split <;> rfl
  | _ => rfl

theorem move_ended (h : x.result?.isSome) (m : Move) : (x.move m).lane = x.lane := by
  cases m with
  | step => rw [move, if_pos h]
  | _ => rfl

theorem result?_move (h : x.result?.isSome) (m : Move) : (x.move m).result? = x.result? := by
  rw [result?, result?, validation, validation, move_plan, move_ended h]

/-- After the result nothing happens in either lane. -/
theorem run_ended (h : x.result?.isSome) (ms : List Move) :
    (x.run ms).lane = x.lane ∧ (x.run ms).result? = x.result? := by
  induction ms generalizing x with
  | nil => exact ⟨rfl, rfl⟩
  | cons m ms ih =>
    have hm := result?_move h m
    obtain ⟨hlane, hresult⟩ := ih (x := x.move m) (hm ▸ h)
    exact ⟨hlane.trans (move_ended h m), hresult.trans hm⟩

theorem clock_move (x : Flight) (m : Move) : x.clock ≤ (x.move m).clock := by
  cases m with
  | step => rw [move]; split <;> exact Nat.le_refl _
  | wait ms => exact Nat.le_add_right _ _
  | _ => exact Nat.le_refl _

theorem cancelled_move (m : Move) (h : x.cancelled = true) : (x.move m).cancelled = true := by
  cases m with
  | step => rw [move]; split <;> exact h
  | cancel => rfl
  | _ => exact h

theorem uncancelled_move {m : Move} (hm : m ≠ .cancel) (h : x.cancelled = false) :
    (x.move m).cancelled = false := by
  cases m with
  | step => rw [move]; split <;> exact h
  | cancel => exact absurd rfl hm
  | _ => exact h

/-- A validation of pages of one row at least, whose lanes are in order. -/
structure Sound (p : Plan) (x : Flight) : Prop where
  plan : x.plan = p
  batch : 1 ≤ p.batch
  lane : ∀ side, (x.lane side).Sound side

theorem sound_start (hb : 1 ≤ p.batch) (store : Direction → Store) (clock : Nat) :
    (start store clock p).Sound p :=
  ⟨rfl, hb, Lane.sound_start p⟩

/-- No page of a store is longer than was asked for. -/
theorem length_stamps (x : Flight) {n : Int} (hn : 0 ≤ n) {mode : ScanMode}
    {d : Direction} {c : Cursor}
    {keys : List (Int × Int)} (h : (x.source d).stamps side mode n c = .ok keys) :
    keys.length ≤ n.toNat := by
  cases side with
  | reverse => exact Store.length_keys hn h
  | forward =>
    rw [Source.stamps] at h
    cases hpage : (x.source d).page mode n c with
    | error e =>
      rw [hpage] at h
      cases h
    | ok es =>
      rw [hpage] at h
      obtain rfl := Except.ok.inj h
      rw [List.length_map]
      exact Store.length_page hn hpage

theorem Sound.stepped (h : x.Sound p) (side : Side) (s : Lane.Step) :
    (x.lane side).Stepped p x.source x.clock x.cancelled (x.stepped side s) := by
  cases s with
  | look => exact Lane.stepped_look ..
  | ask => exact Lane.stepped_ask ..
  | answer failure =>
    rw [Flight.stepped, h.plan]
    have hb := h.batch
    exact (h.lane side).stepped_answer _ (fun d c keys => x.length_stamps (by omega)) failure

/-- Whatever a move is, it is one of these steps to each lane. -/
theorem Sound.stepped_move (h : x.Sound p) (m : Move) (side : Side) :
    (x.lane side).Stepped p x.source x.clock x.cancelled ((x.move m).lane side) := by
  cases m with
  | step other s =>
    rw [move]
    split
    · exact .still
    · by_cases hs : side = other
      · subst hs
        simpa only [Function.update_self] using h.stepped side s
      · simpa only [Function.update_of_ne hs] using .still
  | _ => exact .still

theorem Sound.move (h : x.Sound p) (m : Move) : (x.move m).Sound p :=
  ⟨(move_plan x m).trans h.plan, h.batch, fun side => (h.stepped_move m side).sound (h.lane side)⟩

theorem Sound.run (h : x.Sound p) (ms : List Move) : (x.run ms).Sound p := by
  induction ms generalizing x with
  | nil => exact h
  | cons m ms ih => exact ih (h.move m)

end Flight

/-- A property of a lane at a time and with a token that no move breaks. -/
structure Lane.Kept (p : Plan) (side : Side) (P : Nat → Bool → Lane → Prop) : Prop where
  later : ∀ {now now' c c' l}, P now c l → now ≤ now' → (c = true → c' = true) → P now' c' l
  step : ∀ {source now c l l'}, l.Sound side → Lane.Stepped p source now c l l' →
    P now c l → P now c l'

namespace Flight
variable {x : Flight} {p : Plan} {side : Side} {P : Nat → Bool → Lane → Prop}

theorem Sound.kept_move (h : x.Sound p) (hk : Lane.Kept p side P)
    (hP : P x.clock x.cancelled (x.lane side)) (m : Move) :
    P (x.move m).clock (x.move m).cancelled ((x.move m).lane side) :=
  hk.later (hk.step (h.lane side) (h.stepped_move m side) hP) (x.clock_move m) (cancelled_move m)

theorem Sound.kept (h : x.Sound p) (hk : Lane.Kept p side P)
    (hP : P x.clock x.cancelled (x.lane side)) (ms : List Move) :
    P (x.run ms).clock (x.run ms).cancelled ((x.run ms).lane side) := by
  induction ms generalizing x with
  | nil => exact hP
  | cons m ms ih => exact ih (h.move m) (h.kept_move hk hP m)

theorem move_step (h : x.result? = none) (side : Side) (s : Lane.Step) :
    x.move (.step side s) = { x with lane := Function.update x.lane side (x.stepped side s) } :=
  if_neg (by simp [h])

theorem validation_update (x : Flight) (l : Lane) (side : Side) :
    ({ x with lane := Function.update x.lane side l } : Flight).validation =
      x.validation.setScan l.scan side := by
  cases side <;> simp [validation, Validation.setScan]

theorem result?_update (h : x.result? = none) {l : Lane} (hl : l.scan.isEnded = false) :
    ({ x with lane := Function.update x.lane side l } : Flight).result? = none := by
  rw [result?, validation_update]
  refine Validation.result?_eq_none ?_ side (by rwa [Validation.scan_setScan])
  exact Validation.forall_setScan (P := fun _ s => s.Unfailed) (Scan.unfailed_of_isEnded _ hl)
    fun other _ => Validation.unfailed_of_result? h other

end Flight
end DualWrite
