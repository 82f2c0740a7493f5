import DualWrite.Proofs.Control.Calls
import DualWrite.Proofs.Control.Migration
import DualWrite.Proofs.Event.Wire
import DualWrite.Proofs.Store.Holding
import DualWrite.Proofs.Validation.Evidence

/-!
# Where events come from and where they lead

The store that is right is chosen again and again: by the pattern, by the scheduler when it starts a
run, by the scans, by the text of an event and by the consumer's fixers. However the pattern is
switched meanwhile, all of them make the same choice for an event: the base of the pattern on which
its run was started.
-/
namespace DualWrite

namespace World

def Asks (w : World) (id : RunId) (side : Side) (q : Request) : Prop :=
  ∃ r, w.control.run? id = some r ∧ r.state = .active ∧
    ((r.validation.scan side).observe r.cancelled w.clock).request = q

end World

namespace Migration
variable {w : World} {ms ms' : List Move} {id : RunId} {d : Direction}

/-- A command started the run while the base of the live pattern was this store. -/
def StartedOn (w : World) (ms : List Move) (id : RunId) (d : Direction) : Prop :=
  ∃ pre k q, pre ++ [.command k] <+: ms ∧
    ((start w).run pre).world.control.pool.pattern = .ok q ∧ q.base = d ∧
    ((start w).run pre).world.control.run? id = none ∧
    (((start w).run (pre ++ [.command k])).world.control.run? id).isSome

/-- The run was given this row on a page of the store. -/
def Paged (w : World) (ms : List Move) (id : RunId) (d : Direction) (row : Interactive) : Prop :=
  ∃ pre mode batch cursor rows, pre ++ [.scan id .forward] <+: ms ∧
    ((start w).run pre).world.Asks id .forward (.page cursor) ∧
    (((start w).run pre).world.source d).page mode batch cursor = .ok rows ∧ row ∈ rows

def Listed (w : World) (ms : List Move) (id : RunId) (d : Direction) (i : Int) : Prop :=
  ∃ pre mode batch cursor keys, pre ++ [.scan id .reverse] <+: ms ∧
    ((start w).run pre).world.Asks id .reverse (.keys cursor) ∧
    (((start w).run pre).world.source d).keys mode batch cursor = .ok keys ∧ i ∈ keys.map (·.1)

/-- What the run learnt when it compared the other store with this one, its base. -/
inductive Compared (w : World) (ms : List Move) (id : RunId) (d : Direction) :
    Event.Kind → Int → Prop where
  | missing {pre row} : pre ++ [.scan id .forward] <+: ms → Paged w pre id d row →
      ((start w).run pre).world.Asks id .forward (.find row.id) →
      (((start w).run pre).world.source d.other).find row.id = .ok none →
      Compared w ms id d .targetMissing row.id
  | unequal {pre row other} : pre ++ [.scan id .forward] <+: ms → Paged w pre id d row →
      ((start w).run pre).world.Asks id .forward (.find row.id) →
      (((start w).run pre).world.source d.other).find row.id = .ok (some other) → row ≠ other →
      Compared w ms id d .unequal row.id
  | stray {pre chunk there i} : pre ++ [.scan id .reverse] <+: ms → Listed w pre id d.other i →
      ((start w).run pre).world.Asks id .reverse (.present chunk) →
      (((start w).run pre).world.source d).present chunk = .ok there → i ∈ chunk → i ∉ there →
      Compared w ms id d .baseMissing i

theorem StartedOn.mono (h : StartedOn w ms id d) (hms : ms <+: ms') : StartedOn w ms' id d := by
  obtain ⟨pre, k, q, hpre, hrest⟩ := h
  exact ⟨pre, k, q, hpre.trans hms, hrest⟩

def evidence (w : World) (ms : List Move) (id : RunId) (d : Direction) : Evidence :=
  ⟨Paged w ms id d, Listed w ms id d.other, Compared w ms id d⟩

theorem evidence_grows (hms : ms <+: ms') : (evidence w ms id d).Grows (evidence w ms' id d) where
  row := by
    rintro r ⟨pre, mode, batch, cursor, rows, hpre, hrest⟩
    exact ⟨pre, mode, batch, cursor, rows, hpre.trans hms, hrest⟩
  key := by
    rintro i ⟨pre, mode, batch, cursor, keys, hpre, hrest⟩
    exact ⟨pre, mode, batch, cursor, keys, hpre.trans hms, hrest⟩
  event := by
    rintro k i (⟨hpre, hpaged, hasks, hfind⟩ | ⟨hpre, hpaged, hasks, hfind, hne⟩ |
      ⟨hpre, hlisted, hasks, hpresent, hchunk, hnot⟩)
    · exact .missing (hpre.trans hms) hpaged hasks hfind
    · exact .unequal (hpre.trans hms) hpaged hasks hfind hne
    · exact .stray (hpre.trans hms) hlisted hasks hpresent hchunk hnot

/-- A run whose start is on record and that holds nothing but what its answers bear out. -/
structure Known (w : World) (ms : List Move) (r : Run) : Prop where
  started : StartedOn w ms r.id r.validation.plan.base
  grounded : ∀ side,
    (r.validation.scan side).Grounded (evidence w ms r.id r.validation.plan.base)

theorem Known.mono {r : Run} (h : Known w ms r) (hms : ms <+: ms') : Known w ms' r :=
  ⟨h.started.mono hms, fun side => (h.grounded side).mono (evidence_grows hms)⟩

/-- An event that a run sent to the subscribers, with the store that the run was started on. -/
structure SentBy (w : World) (pre : List Move) (id : RunId) (side : Side)
    (d : Direction) (e : Event) : Prop where
  asks : ((start w).run pre).world.Asks id side (.publish e)
  sent : ((start w).run (pre ++ [.scan id side])).world.bus =
    ((start w).run pre).world.bus.publish ((start w).run pre).world.topic e.encode
  started : StartedOn w pre id d
  named : e.direction = d.name
  compared : Compared w pre id d e.kind e.id

def Sent (w : World) (ms : List Move) (e : Event) : Prop :=
  ∃ pre id side d, pre ++ [.scan id side] <+: ms ∧ SentBy w pre id side d e

theorem Sent.mono {e : Event} (h : Sent w ms e) (hms : ms <+: ms') : Sent w ms' e := by
  obtain ⟨pre, id, side, d, hpre, hby⟩ := h
  exact ⟨pre, id, side, d, hpre.trans hms, hby⟩

end Migration

theorem ControlPlane.id_of_run? {c : ControlPlane} {id : RunId} {r : Run} (h : c.run? id = some r) :
    r.id = id := by
  simpa using List.find?_some h

namespace Migration
variable {w : World} {ms : List Move}

/-- The answer to a request of a run is on record once the run has made its turn. -/
theorem learns (hs : ((start w).run ms).world.Steady) {id : RunId} {r : Run} (side : Side)
    (hr : ((start w).run ms).world.control.run? id = some r) (hactive : r.state = .active) :
    Evidence.Learns r.validation.plan ((start w).run ms).world.source
      ((r.validation.scan side).observe r.cancelled ((start w).run ms).world.clock)
      (evidence w ms id r.validation.plan.base)
      (evidence w (ms ++ [.scan id side]) id r.validation.plan.base) := by
  have hside : ((r.validation.scan side).observe r.cancelled ((start w).run ms).world.clock).side =
    side :=
    (Scan.observe_side ..).trans ((hs.run? hr).side side)
  have hasks : ∀ {q}, ((r.validation.scan side).observe r.cancelled
      ((start w).run ms).world.clock).request = q → ((start w).run ms).world.Asks id side q :=
    fun hq => ⟨r, hr, hactive, hq⟩
  have hlast := List.prefix_refl (ms ++ [Move.scan id side])
  refine ⟨evidence_grows (List.prefix_append _ _), ?_, ?_, ?_, ?_, ?_⟩
  · intro rows row hforward hq hpage hrow
    obtain rfl := hside.symm.trans hforward
    exact ⟨ms, _, _, _, rows, hlast, hasks hq, hpage, hrow⟩
  · intro keys i hreverse hq hkeys hi
    obtain rfl := hside.symm.trans hreverse
    exact ⟨ms, _, _, _, keys, hlast, hasks hq, hkeys, hi⟩
  · intro row hforward hrow hq hfind
    obtain rfl := hside.symm.trans hforward
    exact .missing hlast hrow (hasks hq) hfind
  · intro row other hforward hrow hq hfind hne
    obtain rfl := hside.symm.trans hforward
    exact .unequal hlast hrow (hasks hq) hfind hne
  · intro chunk there i hreverse hkey hq hpresent hchunk hnot
    obtain rfl := hside.symm.trans hreverse
    exact .stray hlast hkey (hasks hq) hpresent hchunk hnot

structure Recorded (w : World) (ms : List Move) : Prop where
  steady : ((start w).run ms).world.Steady
  known : ∀ r ∈ ((start w).run ms).world.control.runs, Known w ms r
  events : ∃ new, ((start w).run ms).world.events = w.events ++ new ∧ ∀ e ∈ new, Sent w ms e

/-- Where a move starts no run, touches no validation and sends nothing, the record stands. -/
theorem Recorded.quiet (h : Recorded w ms) {m : Move}
    (hruns : ∀ r ∈ (((start w).run ms).move m).world.control.runs,
      ∃ r₀ ∈ ((start w).run ms).world.control.runs, r.id = r₀.id ∧ r.validation = r₀.validation)
    (hevents : (((start w).run ms).move m).world.events = ((start w).run ms).world.events) :
    Recorded w (ms ++ [m]) := by
  have hms := List.prefix_append ms [m]
  refine ⟨run_concat _ ms m ▸ steady_move h.steady m, ?_, ?_⟩
  · intro r hr
    rw [run_concat] at hr
    obtain ⟨r₀, hr₀, hid, hvalidation⟩ := hruns r hr
    obtain ⟨hstarted, hgrounded⟩ := (h.known r₀ hr₀).mono hms
    exact ⟨by rwa [hid, hvalidation], by rwa [hid, hvalidation]⟩
  · rw [run_concat, hevents]
    obtain ⟨new, hnew, hsent⟩ := h.events
    exact ⟨new, hnew, fun e he => (hsent e he).mono hms⟩

/-- A command may start a run; that is on record then. -/
theorem Recorded.command (h : Recorded w ms) (k : Http.Call) : Recorded w (ms ++ [.command k]) := by
  have hms := List.prefix_append ms [Move.command k]
  have hcontrol : ((start w).run (ms ++ [.command k])).world.control =
      (k.run ((start w).run ms).world.control).after := by
    rw [run_concat]
    rfl
  have hold : ∀ r ∈ ((start w).run ms).world.control.runs, Known w (ms ++ [.command k]) r :=
    fun r hr => (h.known r hr).mono hms
  have hcancel : ∀ r, Known w (ms ++ [.command k]) r →
      Known w (ms ++ [.command k]) { r with cancelled := true } :=
        fun r hr => ⟨hr.started, hr.grounded⟩
  refine ⟨run_concat _ ms _ ▸ steady_move h.steady _, ?_, ?_⟩
  · rcases k.run_cases (c := ((start w).run ms).world.control) with
      he | ⟨q, _, he⟩ | ⟨plan, hbase, hlabel, he⟩ | ⟨mode, notice, he⟩
    · rw [hcontrol, he]
      exact hold
    · rw [hcontrol, he]
      exact hold
    · rw [hcontrol, he]
      refine ControlPlane.forall_launch hold hcancel ⟨⟨ms, k, _, List.prefix_refl _, h.steady.live,
        hbase.symm, ?_, ?_⟩, fun side => .of_isResting ?_⟩
      · refine List.find?_eq_none.2 fun r hr => ?_
        simpa using Nat.ne_of_lt (h.steady.numbered.below r hr)
      · rw [hcontrol, he, ControlPlane.launch_eq]
        simp [ControlPlane.run?]
      · cases side <;> rfl
    · rw [hcontrol, he]
      exact ControlPlane.forall_vacate hold hcancel mode notice
  · obtain ⟨new, hnew, hsent⟩ := h.events
    refine ⟨new, ?_, fun e he => (hsent e he).mono hms⟩
    rw [run_concat]
    exact hnew

theorem Recorded.scan (h : Recorded w ms) (id : RunId) (side : Side) :
    Recorded w (ms ++ [.scan id side]) := by
  rcases h.steady.scanRun_turn id side with
    hsame | ⟨r, hr, hactive, s, ns, f, turn, hf, ns', he⟩
  · refine h.quiet (fun r hr => ⟨r, ?_, rfl, rfl⟩) ?_
    · rwa [move, hsame] at hr
    · rw [move, hsame]
  · have hms := List.prefix_append ms [Move.scan id side]
    have hid : r.id = id := ControlPlane.id_of_run? hr
    have hlabelled := h.steady.run? hr
    obtain ⟨hstarted, hgrounded⟩ := h.known r (List.mem_of_find?_eq_some hr)
    rw [hid] at hstarted hgrounded
    have hlearns := learns h.steady side hr hactive
    have hobserved := (hgrounded side).observe r.cancelled ((start w).run ms).world.clock
    have hnames := Scan.observe_found (r.validation.scan side) r.cancelled
      ((start w).run ms).world.clock
    have hasks : ∀ {q}, ((r.validation.scan side).observe r.cancelled
        ((start w).run ms).world.clock).request = q → ((start w).run ms).world.Asks id side q :=
      fun hq => ⟨r, hr, hactive, hq⟩
    generalize (r.validation.scan side).observe r.cancelled ((start w).run ms).world.clock = s₀
      at turn he hlearns hobserved hnames hasks
    obtain ⟨hfound, hafter⟩ := hobserved.turn hlearns turn
    have hworld : ((start w).run (ms ++ [.scan id side])).world =
        ((((start w).run ms).world.emit s₀.sent).mapRun id f).report ns' := by
      rw [run_concat, move, he]
    refine ⟨run_concat _ ms _ ▸ steady_move h.steady _, ?_, ?_⟩
    · rw [hworld]
      refine h.steady.numbered.forall_mapRun (fun r' hr' => (h.known r' hr').mono hms) hr ?_
      have hplan : (f r).validation.plan = r.validation.plan := by
        rw [(hf r).1, Validation.setScan_plan]
      constructor
      · rw [hplan, (hf r).2, hid]
        exact hstarted.mono hms
      · rw [hplan, (hf r).1, (hf r).2, hid]
        exact Validation.forall_setScan
          (P := fun _ s => s.Grounded
            (evidence w (ms ++ [.scan id side]) id r.validation.plan.base))
          hafter fun other _ => (hgrounded other).mono (evidence_grows hms)
    · obtain ⟨new, hnew, hsent⟩ := h.events
      refine ⟨new ++ s₀.sent, ?_, fun e he => ?_⟩
      · rw [hworld]
        exact (congrArg (· ++ s₀.sent) hnew).trans (List.append_assoc ..)
      · rcases List.mem_append.1 he with he | he
        · exact (hsent e he).mono hms
        · obtain ⟨hrequest, hone⟩ := Scan.request_of_mem_sent he
          refine ⟨ms, id, side, r.validation.plan.base, List.prefix_refl _,
            hasks hrequest, ?_, hstarted, ?_, hobserved.found e (hfound e he)⟩
          · rw [hworld, hone]
            rfl
          · rcases hnames with hsame | hnone
            · exact hlabelled.found side e (hsame ▸ hfound e he)
            · exact absurd (hnone ▸ hfound e he) List.not_mem_nil

end Migration

namespace World
variable (x : World) (n : Nat) (c : Consumer)

end World

namespace Consumer

end Consumer

namespace Migration
variable {w : World}

end Migration
end DualWrite
