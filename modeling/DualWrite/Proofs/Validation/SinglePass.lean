import DualWrite.Proofs.Store.Versions
import DualWrite.Proofs.Validation.Rounds
import Mathlib.Algebra.Order.Floor.Div

/-!
# Pages of a single pass

Each page that a scan without an interval reads takes a row at least from what lies ahead of its
cursor, until a page is empty. Only row versions that are committed meanwhile put rows there,
wherever they are moved by an update. So the rows ahead and the versions still to come bound the
pages that are read.
-/
namespace DualWrite
open Store Scan

/-- A page is the beginning of what lies ahead, and moves the cursor behind itself. -/
theorem Store.Scannable.stamps {s : Store} {mode : ScanMode} (hs : s.Scannable mode) {n : Int}
    (hn : 0 ≤ n) {side : Side} {c : Cursor} {keys : List (Int × Int)}
    (h : (Source.ofStore s).stamps side mode n c = .ok keys) :
    keys.length = min n.toNat (s.ahead mode c).length ∧
      ∀ last, keys.getLast? = some last →
        s.ahead mode (c.advance last.2 last.1) = (s.ahead mode c).drop n.toNat := by
  obtain ⟨t, ht, hscan⟩ := hs
  have hahead : ∀ c, s.ahead mode c = t.ahead mode c := fun c => by rw [Store.ahead, ht]; rfl
  have hall := mapM_eq_ok.1 (ofStore_stamps ht hscan hn h)
  rw [hahead]
  refine ⟨?_, fun last hlast => ?_⟩
  · rw [← hall.length_eq, List.length_take]
  · obtain ⟨r, hr, hstamp⟩ := getLast?_of_forall₂ hall hlast
    rw [hahead]
    exact ahead_drop hscan.keyed hr hstamp

def Scan.Halted (s : Scan) : Prop := (∃ t, s.phase = .pausing t) ∨ ∃ e, s.phase = .ended (.error e)

theorem Scan.Halted.request {s : Scan} (h : s.Halted) : s.request = .nothing := by
  rcases h with ⟨t, ht⟩ | ⟨e, he⟩
  · simp [Scan.request, ht]
  · exact request_ended he

theorem Scan.backOff_halted (p : Plan) (now : Nat) (s : Scan) (e : Error) :
    (s.backOff p now e).1.Halted := by
  rw [Halted, backOff_phase]
  split
  · exact .inr ⟨e, rfl⟩
  · exact .inl ⟨_, rfl⟩

theorem Scan.Halted.not_over {s : Scan} (h : s.Halted) : s.phase ≠ .ended (.ok ()) := by
  rintro hover
  rcases h with ⟨t, ht⟩ | ⟨e, he⟩
  · cases hover.symm.trans ht
  · cases hover.symm.trans he

inductive Scan.Passes (p : Plan) (st : Store) (s : Scan) :
    Except Error (List (Int × Int)) → Scan → Prop where
  | failed {e s'} : s'.cursor = s.cursor → s'.Halted → Passes p st s (.error e) s'
  /-- Nothing lies ahead, and the pass is over. -/
  | drained {s'} : st.ahead p.mode s.cursor = [] → s'.phase = .ended (.ok ()) →
    Passes p st s (.ok []) s'
  | read {keys s'} : s.Loads keys s' →
    keys.length = min p.batch.toNat (st.ahead p.mode s.cursor).length →
      1 ≤ keys.length → st.ahead p.mode s'.cursor = (st.ahead p.mode s.cursor).drop p.batch.toNat →
      Passes p st s (.ok keys) s'

theorem Scan.Paged.passes {p : Plan} {st : Store} {source : Direction → Source}
    {now : Nat} {s s' : Scan}
    {outcome : Except Error (List (Int × Int))} (h : s.Paged p now outcome s') (hi : p.interval = 0)
    (hb : 1 ≤ p.batch) (hst : st.Scannable p.mode)
    (hsource : source (p.scanned s.side) = .ofStore st)
    (hgives : ∀ keys, outcome = .ok keys → s.Gives p source keys) : s.Passes p st outcome s' := by
  have hread : ∀ keys, outcome = .ok keys →
      keys.length = min p.batch.toNat (st.ahead p.mode s.cursor).length ∧
        ∀ last, keys.getLast? = some last → st.ahead p.mode (s.cursor.advance last.2 last.1) =
          (st.ahead p.mode s.cursor).drop p.batch.toNat := by
    intro keys hkeys
    exact hst.stamps (by omega) (hsource ▸ (hgives keys hkeys).stamps)
  cases h with
  | failed => exact .failed (backOff_cursor ..) (backOff_halted ..)
  | drained =>
    refine .drained ?_ (by rw [drained_phase, if_pos hi])
    obtain ⟨hlength, _⟩ := hread [] rfl
    rw [List.length_nil] at hlength
    exact List.length_eq_zero_iff.1 (by omega)
  | @read keys _ hloads =>
    obtain ⟨hlength, hdrop⟩ := hread keys rfl
    obtain ⟨last, hlast, hcursor⟩ := hloads.cursor
    have hne : keys ≠ [] := List.ne_nil_of_mem (List.mem_of_getLast? hlast)
    exact .read hloads hlength (List.length_pos_iff.2 hne) (hcursor ▸ hdrop last hlast)

namespace Lane
variable {p : Plan} {st : Store} {source : Direction → Source} {now : Nat}
    {cancelled : Bool} {side : Side}
  {l l' : Lane}

def pages (l : Lane) : Nat := l.attempts.countP fun a => !a.failed

/-- Page reads that a store may still give a single pass: one for each row and an empty one. -/
def unread (mode : ScanMode) (st : Store) (l : Lane) : Nat :=
  if l.scan.isEnded then 0 else (st.ahead mode l.scan.cursor).length + 1

section
variable {mode : ScanMode} {s : Scan} {as : List Attempt} {es : List Event}
    {stage : Stage} {a : Attempt}

theorem unread_of_open (h : l.scan.isEnded = false) :
    l.unread mode st = (st.ahead mode l.scan.cursor).length + 1 := by
  simp [unread, h]

theorem unread_of_ended (h : l.scan.isEnded = true) : l.unread mode st = 0 := by
  simp [unread, h]

theorem unread_le (mode : ScanMode) (st : Store) (l : Lane) :
    l.unread mode st ≤ (st.ahead mode l.scan.cursor).length + 1 := by
  rw [unread]
  split
  · exact Nat.zero_le _
  · exact Nat.le_refl _

theorem unread_versions (mode : ScanMode) (st st' : Store) (l : Lane) :
    l.unread mode st' ≤ l.unread mode st + st.versions st' := by
  have := length_ahead_le mode l.scan.cursor st st'
  rw [unread, unread]
  split <;> omega

theorem debt_versions (mode : ScanMode) (st st' : Store) (l : Lane) :
    l.debt (st'.ahead mode l.scan.cursor).length ≤
      l.debt (st.ahead mode l.scan.cursor).length + 12 * st.versions st' :=
  (debt_mono (length_ahead_le mode l.scan.cursor st st') l).trans (debt_add ..)

theorem pages_failed (h : a.failed = true) :
    pages ⟨s, stage, a :: as, es⟩ = pages ⟨s, stage, as, es⟩ := by
  simp [pages, h]

theorem pages_read (h : a.failed = false) :
    pages ⟨s, stage, a :: as, es⟩ = pages ⟨s, stage, as, es⟩ + 1 := by
  simp [pages, h]

end

/-- A page that is read is taken from those that may still be read. -/
theorem Stepped.pages_unread (hs : Stepped p source now cancelled l l') (hl : l.Sound side)
    (hi : p.interval = 0) (hb : 1 ≤ p.batch) (hst : st.Scannable p.mode)
    (hsource : source (p.scanned side) = .ofStore st) :
    l'.pages + l'.unread p.mode st ≤ l.pages + l.unread p.mode st := by
  cases hs with
  | still | clear | ask => exact Nat.le_refl _
  | stop => exact Nat.add_le_add_left (Nat.zero_le _) _
  | wake _ hphase =>
    rw [unread_of_open (Between.isEnded (.inr ⟨_, hphase⟩))]
    exact Nat.add_le_add_left (unread_le ..) _
  | answer ha =>
    cases ha with
    | @inside _ s es _ hbusy hproceeds =>
      rw [unread_of_open (isEnded_of_request (hl.busy hbusy)), ← hproceeds.cursor]
      exact Nat.add_le_add_left (unread_le ..) _
    | @page since outcome s hstage hphase hpaged hgives =>
      rw [← hl.side] at hsource
      rw [unread_of_open (Between.isEnded (.inl hphase))]
      cases hpaged.passes hi hb hst hsource hgives with
      | failed hcursor =>
        rw [pages_failed rfl, ← hcursor]
        exact Nat.add_le_add_left (unread_le ..) _
      | drained hnone hended =>
        rw [pages_read rfl, hnone, unread_of_ended (by simp [Scan.isEnded, hended])]
        exact Nat.le_refl _
      | @read keys _ hloads hlength hone hdrop =>
        rw [pages_read rfl, unread_of_open (isEnded_of_request hloads.request), hdrop,
          List.length_drop]
        change l.pages + 1 + _ ≤ l.pages + _
        omega

/-- Without a failed page a single pass neither pauses nor gives up. -/
def Smooth (l : Lane) : Prop := l.scan.Halted → ∃ a ∈ l.attempts, a.failed = true

theorem smooth_kept (hi : p.interval = 0) (side : Side) : Kept p side fun _ _ l => l.Smooth where
  later h _ _ := h
  step := by
    intro source now c l l' _ hs h
    cases hs with
    | still | clear | ask => exact h
    | stop => simp [Smooth, Halted, Scan.endWith]
    | wake => simp [Smooth, Halted]
    | answer ha =>
      cases ha with
      | inside _ _ hproceeds => exact fun hhalted => absurd hhalted.request hproceeds.request
      | page _ _ hpaged =>
        cases hpaged with
        | failed => exact fun _ => ⟨_, List.mem_cons_self, rfl⟩
        | drained => simp [Smooth, Halted, drained_phase, hi]
        | read hloads => exact fun hhalted => absurd hhalted.request hloads.request

theorem Smooth.not_halted (h : l.Smooth) (hread : ∀ a ∈ l.attempts, a.failed = false) :
    ¬ l.scan.Halted := by
  intro hhalted
  obtain ⟨a, ha, hfailed⟩ := h hhalted
  cases hfailed.symm.trans (hread a ha)

/-- Whatever is done in the lane of a single pass no page of which fails brings it nearer to its
end. -/
theorem Stepped.debt_lt (hs : Stepped p source now cancelled l l') (hl : l.Sound side)
    (hi : p.interval = 0) (hb : 1 ≤ p.batch) (hst : st.Scannable p.mode)
    (hsource : source (p.scanned side) = .ofStore st) (hawake : ∀ t, l.scan.phase ≠ .pausing t)
    (hread : ∀ a ∈ l'.attempts, a.failed = false) :
    l' = l ∨ l'.debt (st.ahead p.mode l'.scan.cursor).length <
      l.debt (st.ahead p.mode l.scan.cursor).length := by
  cases hs with
  | still => exact .inl rfl
  | stop _ _ hbetween =>
    right
    have hzero : ∀ rest, debt rest { l with scan := l.scan.endWith (.ok ()) } = 0 := fun _ => rfl
    rw [hzero, debt_of_open hbetween.isEnded]
    omega
  | clear hstage hrequest =>
    exact .inr (debt_stage (isEnded_of_request hrequest) (by simp [hstage, Stage.left]))
  | wake _ hphase => exact absurd hphase (hawake _)
  | ask hstage =>
    have hrequest := hl.asks (by simp [hstage])
    exact .inr (debt_stage (isEnded_of_request hrequest) (by simp [hstage, Stage.left]))
  | answer ha =>
    right
    cases ha with
    | inside hstage hbusy hproceeds =>
      simp only [hproceeds.cursor]
      exact debt_inside hstage hbusy hproceeds
    | @page since outcome s hstage hphase hpaged hgives =>
      rw [← hl.side] at hsource
      rw [debt_asking hstage hphase]
      cases hpaged.passes hi hb hst hsource hgives with
      | failed => cases hread _ List.mem_cons_self
      | drained hnone hended =>
        exact (debt_waiting (.inr ⟨_, hended⟩)).trans_lt (by omega)
      | @read keys _ hloads hlength hone hdrop =>
        refine (debt_read hloads).trans_lt ?_
        rw [hdrop, List.length_drop]
        omega

/-- So far a single pass over rows that stand still has read full pages only. -/
structure Counted (p : Plan) (st : Store) (rows : Nat) (l : Lane) : Prop where
  goesOn : l.scan.isEnded = false →
    (st.ahead p.mode l.scan.cursor).length = rows - l.pages * p.batch.toNat ∧
      l.pages ≤ rows ⌈/⌉ p.batch.toNat
  drained : l.scan.phase = .ended (.ok ()) → l.pages = rows ⌈/⌉ p.batch.toNat + 1

theorem counted_start (p : Plan) (st : Store) (side : Side) :
    (start p side).Counted p st (st.ahead p.mode (.start p.mode p.watermark)).length where
  goesOn _ := by simp [start, Scan.start, pages]
  drained h := by cases h

theorem Counted.stepped {rows : Nat} (h : l.Counted p st rows)
    (hs : Stepped p source now false l l') (hl : l.Sound side) (hi : p.interval = 0)
    (hb : 1 ≤ p.batch)
    (hst : st.Scannable p.mode) (hsource : source (p.scanned side) = .ofStore st) :
    l'.Counted p st rows := by
  cases hs with
  | still | clear | ask => exact ⟨h.goesOn, h.drained⟩
  | stop _ hc => cases hc
  | wake _ hphase =>
    exact ⟨fun _ => h.goesOn (Between.isEnded (.inr ⟨_, hphase⟩)), fun hover => by cases hover⟩
  | answer ha =>
    cases ha with
    | @inside _ s es _ hbusy hproceeds =>
      refine ⟨fun _ => ?_, fun hover => absurd (request_ended hover) hproceeds.request⟩
      have hcursor : s.cursor = l.scan.cursor := hproceeds.cursor
      rw [hcursor]
      exact h.goesOn (isEnded_of_request (hl.busy hbusy))
    | @page since outcome s hstage hphase hpaged hgives =>
      obtain ⟨hahead, hfull⟩ := h.goesOn (Between.isEnded (.inl hphase))
      rw [← hl.side] at hsource
      -- So many pages are full just if rows are left for one more.
      have hmore : l.pages < rows ⌈/⌉ p.batch.toNat ↔ l.pages * p.batch.toNat < rows := by
        rw [← not_le, ceilDiv_le_iff_le_mul (by omega), not_le, Nat.mul_comm]
      cases hpaged.passes hi hb hst hsource hgives with
      | failed hcursor hhalted =>
        refine ⟨fun _ => ?_, fun hover => absurd hover hhalted.not_over⟩
        rw [pages_failed rfl, hcursor]
        exact ⟨hahead, hfull⟩
      | drained hnone hended =>
        rw [hnone, List.length_nil] at hahead
        refine ⟨fun hopen => by simp [Scan.isEnded, hended] at hopen, fun _ => ?_⟩
        rw [pages_read rfl]
        change l.pages + 1 = _
        omega
      | @read keys _ hloads hlength hone hdrop =>
        refine ⟨fun _ => ?_, fun hover => absurd (request_ended hover) hloads.request⟩
        rw [pages_read rfl, hdrop, List.length_drop, Nat.add_one_mul]
        change _ = rows - (l.pages * _ + _) ∧ l.pages + 1 ≤ _
        omega

theorem attempts_kept (as : List Attempt) (p : Plan) (side : Side) :
    Kept p side fun _ _ l => as <:+ l.attempts where
  later h _ _ := h
  step := by
    intro source now c l l' _ hs h
    cases hs with
    | still | stop | clear | wake | ask => exact h
    | answer ha =>
      cases ha with
      | page => exact h.trans (List.suffix_cons _ _)
      | inside => exact h

theorem pages_of_read (h : ∀ a ∈ l.attempts, a.failed = false) : l.pages = l.attempts.length :=
  List.countP_eq_length.2 fun a ha => by simp [h a ha]

/-- A page that is being read belongs to those that may still be read. -/
theorem begun_le (h : ∀ a ∈ l.attempts, a.failed = false) (mode : ScanMode) (st : Store) :
    l.begun ≤ l.pages + l.unread mode st := by
  rw [pages_of_read h, begun]
  split
  · next hphase =>
    rw [unread_of_open (Between.isEnded (.inl hphase))]
    omega
  · exact Nat.le_add_right _ _

theorem begun_of_ended (h : l.scan.isEnded = true) : l.begun = l.attempts.length := by
  rw [begun]
  split
  · next hphase => cases (Between.isEnded (.inl hphase)).symm.trans h
  · rfl

end Lane

namespace Flight
variable {x : Flight} {p : Plan} {side : Side} {d : Direction}

/-- Row versions that are committed to a store by these moves. -/
def written (d : Direction) : Flight → List Move → Nat
  | _, [] => 0
  | x, m :: ms => (x.store d).versions ((x.move m).store d) + written d (x.move m) ms

theorem store_move {m : Move} (h : ∀ s, m ≠ .write d s) : (x.move m).store d = x.store d := by
  cases m with
  | step => rw [move]; split <;> rfl
  | write d' s =>
    have hne : d ≠ d' := fun he => h s (he ▸ rfl)
    simp [move, Function.update_of_ne hne]
  | _ => rfl

def Scanned (p : Plan) (side : Side) (x : Flight) (ms : List Move) : Prop :=
  (x.store (p.scanned side)).Scannable p.mode ∧
    ∀ s, .write (p.scanned side) s ∈ ms → s.Scannable p.mode

theorem Scanned.move {m : Move} {ms : List Move} (h : x.Scanned p side (m :: ms)) :
    (x.move m).Scanned p side ms := by
  refine ⟨?_, fun s hs => h.2 s (List.mem_cons_of_mem _ hs)⟩
  by_cases hm : ∃ s, m = .write (p.scanned side) s
  · obtain ⟨s, rfl⟩ := hm
    simpa [Flight.move] using h.2 s List.mem_cons_self
  · rw [store_move fun s hs => hm ⟨s, hs⟩]
    exact h.1

/-- What has been read of a single pass and what may still be read grow together by no more than is
written. -/
theorem Sound.pages_run (hx : x.Sound p) (hi : p.interval = 0) {ms : List Move}
    (hst : x.Scanned p side ms) : ((x.run ms).lane side).pages +
      ((x.run ms).lane side).unread p.mode ((x.run ms).store (p.scanned side)) ≤
        (x.lane side).pages + (x.lane side).unread p.mode (x.store (p.scanned side)) +
          written (p.scanned side) x ms := by
  induction ms generalizing x with
  | nil => exact Nat.le_refl _
  | cons m ms ih =>
    have hstep := (hx.stepped_move m side).pages_unread (hx.lane side) hi hx.batch hst.1 rfl
    have hversions := ((x.move m).lane side).unread_versions p.mode (x.store (p.scanned side))
      ((x.move m).store (p.scanned side))
    have hrest := ih (hx.move m) hst.move
    rw [run_cons, written]
    omega

theorem Sound.read_before (hx : x.Sound p) {ms : List Move}
    (h : ∀ a ∈ ((x.run ms).lane side).attempts, a.failed = false) :
    ∀ a ∈ (x.lane side).attempts, a.failed = false := fun a ha =>
  h a ((hx.kept (Lane.attempts_kept (x.lane side).attempts p side) (List.suffix_refl _) ms).subset
    ha)

/-- A single pass that is served in rounds, and no page of which fails, runs out. -/
theorem single_pass_falls (hi : p.interval = 0) (side : Side) : Falls p side
    (fun x ms => x.Sound p ∧ x.Scanned p side ms ∧ (x.lane side).Smooth ∧
      ∀ a ∈ ((x.run ms).lane side).attempts, a.failed = false)
    fun x ms => (x.lane side).debt ((x.store (p.scanned side)).ahead p.mode
      (x.lane side).scan.cursor).length + 12 * written (p.scanned side) x ms where
  sound h := h.1
  fit := by
    rintro x m ms ⟨hx, hst, hsmooth, hread⟩
    exact ⟨hx.move m, hst.move, hx.kept_move (Lane.smooth_kept hi side) hsmooth m, hread⟩
  awake := by
    rintro x ms ⟨hx, _, hsmooth, hread⟩
    exact .inr fun t ht => hsmooth.not_halted (hx.read_before hread) (.inl ⟨t, ht⟩)
  falls := by
    rintro x m ms ⟨hx, hst, hsmooth, hread⟩
    have hawake : ∀ t, (x.lane side).scan.phase ≠ .pausing t := fun t ht =>
      hsmooth.not_halted (hx.read_before hread) (.inl ⟨t, ht⟩)
    have hstep := (hx.stepped_move m side).debt_lt (hx.lane side) hi hx.batch hst.1 rfl hawake
      ((hx.move m).read_before hread)
    have hversions := ((x.move m).lane side).debt_versions p.mode (x.store (p.scanned side))
      ((x.move m).store (p.scanned side))
    rw [written]
    rcases hstep with hsame | hlt
    · rw [hsame] at hversions ⊢
      exact .inl ⟨rfl, by omega⟩
    · exact .inr (by omega)

/-- A pass over rows that nobody writes, and that nobody cancels. -/
theorem Sound.counted_run (hx : x.Sound p) (hi : p.interval = 0) {st : Store}
    (hst : st.Scannable p.mode)
    {rows : Nat} {ms : List Move} (hstore : x.store (p.scanned side) = st)
    (hstill : ∀ s, .write (p.scanned side) s ∉ ms) (hc : x.cancelled = false) (hcalm : .cancel ∉ ms)
    (h : (x.lane side).Counted p st rows) : ((x.run ms).lane side).Counted p st rows := by
  induction ms generalizing x with
  | nil => exact h
  | cons m ms ih =>
    obtain ⟨hm, hms⟩ := List.ne_and_not_mem_of_not_mem_cons hcalm
    have hsource : x.source (p.scanned side) = .ofStore st := by rw [Flight.source, hstore]
    have hstep := hx.stepped_move m side
    rw [hc] at hstep
    have hsame : (x.move m).store (p.scanned side) = x.store (p.scanned side) :=
      store_move fun s hs => hstill s (hs ▸ List.mem_cons_self)
    exact ih (hx.move m) (hsame.trans hstore) (fun s hs => hstill s (List.mem_cons_of_mem _ hs))
      (uncancelled_move (Ne.symm hm) hc) hms
      (h.stepped hstep (hx.lane side) hi hx.batch hst hsource)

/-- A single pass no page of which fails, among whatever else is done. It begins no more page reads
than one for each row that lies ahead of it at the start, one for each row version that is
committed, and the last one. Served long enough it ends, unless the other scan gives up. If nobody
writes or cancels, it reads the pages that its rows fill and an empty one. -/
theorem single_passes_end_among_writes {store : Direction → Store} {clock : Nat}
    {p : Plan} {n : Int}
    {moves : List Move} (side : Side) (hi : p.interval = 0)
    (hst : (store (p.scanned side)).Scannable p.mode)
    (hwrites : ∀ s, .write (p.scanned side) s ∈ moves → s.Scannable p.mode)
    (hread : ∀ a ∈ (((start store clock (p.withBatch n)).run moves).lane side).attempts,
      a.failed = false) :
    let x := start store clock (p.withBatch n)
    let y := x.run moves
    let rows := ((store (p.scanned side)).ahead p.mode (.start p.mode p.watermark)).length
    let versions := written (p.scanned side) x moves
    (y.lane side).begun ≤ rows + versions + 1 ∧
    (∀ rounds : List (List Move), moves = rounds.flatten → (∀ round ∈ rounds, Serves side round) →
      12 * (rows + versions) + 6 < rounds.length →
        (y.lane side).scan.isEnded = true ∨ ∃ e, y.result? = some (.error e)) ∧
    ((∀ s, .write (p.scanned side) s ∉ moves) → .cancel ∉ moves →
      (y.lane side).scan.isEnded = true → (y.lane side).begun = rows ⌈/⌉ (max n 1).toNat + 1) := by
  intro x y rows versions
  have hb : 1 ≤ (p.withBatch n).batch := Int.le_max_right _ _
  have hx : x.Sound (p.withBatch n) := sound_start hb store clock
  have hscanned : x.Scanned (p.withBatch n) side moves := ⟨hst, hwrites⟩
  have hsmooth : (x.lane side).Smooth := by
    rintro (⟨t, ht⟩ | ⟨e, he⟩)
    · cases ht
    · cases he
  refine ⟨?_, ?_, ?_⟩
  · have hrun := hx.pages_run hi hscanned
    have hbegun := Lane.begun_le hread p.mode (y.store (p.scanned side))
    have hstart : (x.lane side).pages + (x.lane side).unread p.mode (store (p.scanned side)) =
        rows + 1 := by
      rw [Lane.unread_of_open rfl]
      exact Nat.zero_add _
    change _ ≤ (x.lane side).pages + (x.lane side).unread p.mode (store (p.scanned side)) +
      versions at hrun
    exact hbegun.trans (hrun.trans (by omega))
  · rintro rounds rfl hserves hmany
    have hdebt : (x.lane side).debt rows = 6 + 12 * rows := by
      rw [Lane.debt_of_open rfl]
      change 1 + 2 + 3 * (1 + 4 * rows) = _
      omega
    have hfew : (x.lane side).debt rows + 12 * versions < rounds.length := by omega
    rcases (single_pass_falls (p := p.withBatch n) hi side).ends
      (fun round hr => hserves round hr) ⟨hx, hscanned, hsmooth, hread⟩ hfew with hr | hended
    · obtain ⟨r, hr⟩ := Option.isSome_iff_exists.1 hr
      cases r with
      | error e => exact .inr ⟨e, hr⟩
      | ok =>
        have hover := (Validation.result?_eq_ok _).1 hr side
        rw [validation_scan] at hover
        exact .inl (isEnded_iff.2 ⟨_, hover⟩)
    · exact .inl hended
  · intro hstill hcalm hended
    have hcounted := hx.counted_run hi hst rfl hstill rfl hcalm
      (Lane.counted_start _ _ side)
    obtain ⟨r, hr⟩ := isEnded_iff.1 hended
    have hover : (y.lane side).scan.phase = .ended (.ok ()) := by
      cases r with
      | ok => exact hr
      | error e =>
        have hsmooth := hx.kept (Lane.smooth_kept (p := p.withBatch n) hi side) hsmooth moves
        exact absurd (.inr ⟨e, hr⟩) (hsmooth.not_halted hread)
    rw [Lane.begun_of_ended hended, ← Lane.pages_of_read hread]
    exact hcounted.drained hover

/-- A row that has been read is changed, and is read once more. -/
theorem single_pass_reads_a_changed_row_again :
    let base (time : Int) : Store := .ofEntities "src" [⟨1, 1, "b", 0, 0, 0, time, 1⟩]
    let store (d : Direction) : Store := if d = .src then base 5 else .ofEntities "dst" []
    let p : Plan := ⟨.src, .src, .incremental, 3, 1, 0⟩
    let round : List Move :=
      [.step .forward .look, .step .forward .ask, .step .forward (.answer none)]
    let rounds := (round ++ [.write .src (base 8)]) :: List.replicate 30 round
    ((store (p.scanned .forward)).ahead p.mode (.start p.mode p.watermark)).length = 1 ∧
      written (p.scanned .forward) (start store 0 (p.withBatch 0)) rounds.flatten = 1 ∧
      (((start store 0 (p.withBatch 0)).run rounds.flatten).lane .forward).scan.isEnded = true ∧
      (((start store 0 (p.withBatch 0)).run rounds.flatten).lane .forward).begun = 3 := by
  intro base store p round rounds
  have hrows : ((store (p.scanned .forward)).ahead p.mode (.start p.mode p.watermark)).length =
    1 := by
    decide +kernel +revert
  have hversions : written (p.scanned .forward) (start store 0 (p.withBatch 0)) rounds.flatten =
    1 := by
    decide +kernel +revert
  have hread : ∀ a ∈ (((start store 0 (p.withBatch 0)).run rounds.flatten).lane .forward).attempts,
      a.failed = false := by
    decide +kernel +revert
  have hthree : 3 ≤ (((start store 0 (p.withBatch 0)).run rounds.flatten).lane .forward).begun := by
    decide +kernel +revert
  have hgoes : ((start store 0 (p.withBatch 0)).run rounds.flatten).result?.isSome = false := by
    decide +kernel +revert
  have hscannable : ∀ time, (base time).Scannable .incremental := fun time =>
    Store.scannable_ofEntities _ (List.pairwise_singleton ..) _
  have hwrites : ∀ s, .write .src s ∈ rounds.flatten → s.Scannable .incremental := by
    intro s hs
    obtain rfl : s = base 8 := by
      simpa [rounds, round, List.mem_flatten, List.mem_replicate] using hs
    exact hscannable 8
  have hserves : ∀ r ∈ rounds, Serves .forward r := by
    intro r hr
    rcases List.mem_cons.1 hr with rfl | hr
    · simp [Serves, round]
    · obtain rfl := List.eq_of_mem_replicate hr
      simp [Serves, round]
  obtain ⟨hfew, hends, _⟩ := @single_passes_end_among_writes store 0 p 0 rounds.flatten .forward rfl
    (hscannable 5) hwrites hread
  rw [hrows, hversions] at hfew hends
  refine ⟨hrows, hversions, ?_, hfew.antisymm hthree⟩
  refine (hends rounds rfl hserves (by decide)).resolve_right fun ⟨e, he⟩ => ?_
  rw [he] at hgoes
  cases hgoes

end Flight
end DualWrite
