import DualWrite.Proofs.Validation.Overtaking
import DualWrite.Proofs.Validation.Scene

/-!
# Following a table that is written

An incremental scan that tails a table steps back behind the time just below that of the last row it
has read whenever a page comes back empty. Where the times of writes never fall, it loses exactly
the rows that it has overtaken.
-/
namespace DualWrite
open Log

/-- Runs of a validation whose base is written while it is scanned, each with its log. A write puts
one row, of a time above the watermark and of no time below one that a row has had. -/
inductive Tailing (w : World) (p : Plan) (start : List Interactive) : Scene → Log → Prop where
  | start : Tailing w p start (Scene.start w p) []
  /-- The forward scan reads a page. -/
  | page {x log rows} : Tailing w p start x log → x.validation.result? = none →
      (x.observed .forward).phase = .ready →
      (x.world.source p.base).page p.mode p.batch (x.observed .forward).cursor = .ok rows →
      Tailing w p start (x.move (.scan .forward))
        ((if rows = [] then .restarted else .read rows) :: log)
  /-- The forward scan takes a turn inside its page, or the reverse scan takes any turn. -/
  | turn {x log side} : Tailing w p start x log →
      (side = .forward → (x.observed .forward).phase ≠ .ready) →
      Tailing w p start (x.move (.scan side)) log
  | write {x log es es' s e} : Tailing w p start x log → (x.world.store p.base).HoldsTimed es →
      s.HoldsTimed es' → e ∈ es' → (∀ r ∈ es', r = e ∨ r ∈ es) → (∀ r ∈ es', r.id ≤ maxInt) →
      p.watermark < e.uTime → (∀ t ∈ log.times start, t ≤ e.uTime) →
      Tailing w p start (x.move (.write p.base s)) (.wrote e x.validation.forward.cursor :: log)
  | delete {x log es es' s} : Tailing w p start x log → (x.world.store p.base).HoldsTimed es →
      s.HoldsTimed es' → (∀ r ∈ es', r ∈ es) → Tailing w p start (x.move (.write p.base s)) log
  /-- The other store is written. -/
  | elsewhere {x log s} : Tailing w p start x log →
      Tailing w p start (x.move (.write p.base.other s)) log
  /-- A consumer takes a step that leaves the table alone. -/
  | consume {x log n} : Tailing w p start x log →
      (x.move (.consume n)).world.store p.base = x.world.store p.base →
      Tailing w p start (x.move (.consume n)) log
  | wait {x log ms} : Tailing w p start x log → Tailing w p start (x.move (.wait ms)) log
  | cancel {x log} : Tailing w p start x log → Tailing w p start (x.move .cancel) log

structure Followed (p : Plan) (start : List Interactive) (x : Scene) (log : Log) : Prop where
  plan : x.validation.plan = p
  tripwires : x.world.tripwires = []
  side : ∀ side, (x.validation.scan side).side = side
  placed : Placed p.watermark (log.times start) x.validation.forward.cursor
  table : ∃ es, (x.world.store p.base).HoldsTimed es ∧ ∀ e ∈ es, e.id ≤ maxInt ∧
    e.uTime ∈ log.times start ∧
    (p.watermark < e.uTime → Traced x.validation.forward.cursor e log)

section Following
variable {w : World} {p : Plan} {start : List Interactive} {x : Scene} {log : Log}

theorem followed_start (hp : p.mode = .incremental) (ht : w.tripwires = [])
    (hstart : (w.store p.base).HoldsTimed start) (hsmall : ∀ e ∈ start, e.id ≤ maxInt) :
    Followed p start (Scene.start w p) [] where
  plan := rfl
  tripwires := ht
  side := by rintro (_ | _) <;> rfl
  placed := by
    have hcursor : (Scene.start w p).validation.forward.cursor = .start .incremental p.watermark :=
      hp ▸ rfl
    rw [hcursor]
    exact placed_start
  table := by
    have hcursor : (Scene.start w p).validation.forward.cursor = .start .incremental p.watermark :=
      hp ▸ rfl
    rw [hcursor]
    exact ⟨start, hstart, fun e he => ⟨hsmall e he, List.mem_map.2 ⟨e, he, rfl⟩, traced_start⟩⟩

theorem Followed.keep (h : Followed p start x log) {y : Scene} (hv : y.validation.plan = p)
    (ht : y.world.tripwires = [])
    (hs : ∀ side, (y.validation.scan side).side = side)
    (hcursor : y.validation.forward.cursor = x.validation.forward.cursor)
    (hstore : y.world.store p.base = x.world.store p.base) : Followed p start y log where
  plan := hv
  tripwires := ht
  side := hs
  placed := hcursor ▸ h.placed
  table := by
    rw [hcursor, hstore]
    exact h.table

/-- A turn leaves everything in order but the cursor of its scan. -/
theorem Followed.move_scan (h : Followed p start x log) (side : Side)
    (hr : x.validation.result? = none) : ∃ es ns s,
      Scan.Turn p x.world.source x.world.clock (x.observed side) es ns s ∧
      (x.move (.scan side)).validation = x.validation.setScan s side ∧
      (x.move (.scan side)).validation.plan = p ∧ (x.move (.scan side)).world.tripwires = [] ∧
      (∀ other, ((x.move (.scan side)).validation.scan other).side = other) ∧
      (x.move (.scan side)).world.store p.base = x.world.store p.base := by
  obtain ⟨es, ns, s, turn, he⟩ := Scene.move_scan side hr h.tripwires (h.side side)
  rw [he]
  refine ⟨es, ns, s, h.plan ▸ turn, rfl, (Validation.setScan_plan ..).trans h.plan, h.tripwires,
    ?_, rfl⟩
  have hside : s.side = side := turn.side_eq.trans ((Scan.observe_side ..).trans (h.side side))
  exact Validation.forall_setScan (P := fun other s => s.side = other) hside
    fun other _ => h.side other

theorem Followed.turn (h : Followed p start x log) {side : Side}
    (hinside : side = .forward → (x.observed .forward).phase ≠ .ready) :
    Followed p start (x.move (.scan side)) log := by
  by_cases hr : x.validation.result?.isSome
  · rw [Scene.move_ended side hr]
    exact h
  · obtain ⟨es, ns, s, turn, hv, hplan, ht, hs, hstore⟩ := h.move_scan side (by simpa using hr)
    refine h.keep hplan ht hs ?_ hstore
    rw [hv]
    cases side with
    | reverse => rfl
    | forward => exact (turn.cursor_eq (hinside rfl)).trans (Scan.observe_cursor ..)

theorem Followed.page (h : Followed p start x log) (hp : p.mode = .incremental)
    (hi : p.interval ≠ 0)
    (hb : 1 ≤ p.batch) (hmin : minInt ≤ p.watermark) (hr : x.validation.result? = none)
    (hready : (x.observed .forward).phase = .ready) {rows : List Interactive}
    (hpage : (x.world.source p.base).page p.mode p.batch (x.observed .forward).cursor = .ok rows) :
    Followed p start (x.move (.scan .forward))
      ((if rows = [] then .restarted else .read rows) :: log) := by
  obtain ⟨es, ns, s, turn, hv, hplan, ht, hs, hstore⟩ := h.move_scan .forward hr
  obtain ⟨table, htable, hrows⟩ := h.table
  have hside : (x.observed .forward).side = .forward :=
    (Scan.observe_side ..).trans (h.side .forward)
  have hcursor : (x.observed .forward).cursor = x.validation.forward.cursor :=
    Scan.observe_cursor ..
  have hafter : (x.move (.scan .forward)).validation.forward.cursor = s.cursor := by rw [hv]; rfl
  have hmove := turn.cursor_page hside hready hpage hi
  rw [hcursor] at hmove
  rw [hp, hcursor] at hpage
  obtain ⟨hbehind, hsorted, hmet⟩ := htable.page_ok hb hpage
  rcases hmove with ⟨rfl, hback⟩ | ⟨last, hlast, hforth⟩
  · rw [hp] at hback
    refine ⟨hplan, ht, hs, ?_, table, hstore ▸ htable, ?_⟩
    · rw [hafter, hback]
      exact h.placed.restart hmin
    · intro e he
      obtain ⟨hsmall, htime, htraced⟩ := hrows e he
      refine ⟨hsmall, htime, fun hw => ?_⟩
      rw [hafter, hback]
      exact (htraced hw).restart h.placed hmin hsmall
  · have hin : last ∈ rows := List.mem_of_getLast? hlast
    have hne : rows ≠ [] := List.ne_nil_of_mem hin
    obtain ⟨hlastin, hlastbefore⟩ := hbehind last hin
    obtain ⟨hlastsmall, hlasttime, _⟩ := hrows last hlastin
    rw [if_neg hne]
    refine ⟨hplan, ht, hs, ?_, table, hstore ▸ htable, ?_⟩
    · rw [hafter, hforth]
      exact h.placed.page hlastbefore hlastsmall hlasttime
    · intro e he
      obtain ⟨hsmall, htime, htraced⟩ := hrows e he
      refine ⟨hsmall, htime, fun hw => ?_⟩
      rw [hafter, hforth]
      refine (htraced hw).page h.placed hlast (fun r hr => (hbehind r hr).2) hsorted hlastsmall ?_
      intro hbefore
      rcases hmet e he hbefore with hmem | ⟨last', hlast', hlater⟩
      · exact .inl hmem
      · obtain rfl := Option.some.inj (hlast.symm.trans hlast')
        exact .inr hlater

theorem Followed.write (h : Followed p start x log) {es es' : List Interactive} {s : Store}
    {e : Interactive} (hes : (x.world.store p.base).HoldsTimed es) (hes' : s.HoldsTimed es')
    (he : e ∈ es') (hrest : ∀ r ∈ es', r = e ∨ r ∈ es) (hsmall : ∀ r ∈ es', r.id ≤ maxInt)
    (hw : p.watermark < e.uTime) (ht : ∀ t ∈ log.times start, t ≤ e.uTime) :
    Followed p start (x.move (.write p.base s)) (.wrote e x.validation.forward.cursor :: log) := by
  obtain ⟨table, htable, hrows⟩ := h.table
  have hsame : table = es := htable.holds.unique hes.holds
  subst hsame
  refine ⟨h.plan, h.tripwires, h.side, ?_, es', ?_, ?_⟩
  · exact h.placed.mono (List.subset_cons_self _ _)
  · rw [Scene.move, World.store_setStore, if_pos rfl]
    exact hes'
  · intro r hr
    refine ⟨hsmall r hr, ?_⟩
    rcases hrest r hr with rfl | hold
    · exact ⟨List.mem_cons_self, fun _ => traced_wrote h.placed hw ht⟩
    · obtain ⟨_, htime, htraced⟩ := hrows r hold
      refine ⟨List.mem_cons_of_mem _ htime, fun hwr => ?_⟩
      by_cases hid : e.id = r.id
      · obtain rfl := List.inj_on_of_nodup_map hes'.holds.nodup he hr hid
        exact traced_wrote h.placed hw ht
      · exact (htraced hwr).beside hid

theorem Followed.delete (h : Followed p start x log) {es es' : List Interactive} {s : Store}
    (hes : (x.world.store p.base).HoldsTimed es) (hes' : s.HoldsTimed es')
    (hrest : ∀ r ∈ es', r ∈ es) : Followed p start (x.move (.write p.base s)) log := by
  obtain ⟨table, htable, hrows⟩ := h.table
  have hsame : table = es := htable.holds.unique hes.holds
  subst hsame
  refine ⟨h.plan, h.tripwires, h.side, h.placed, es', ?_, fun r hr => hrows r (hrest r hr)⟩
  rw [Scene.move, World.store_setStore, if_pos rfl]
  exact hes'

theorem Tailing.followed (hmode : p.mode = .incremental) (hinterval : p.interval ≠ 0)
    (hbatch : 1 ≤ p.batch) (hmin : minInt ≤ p.watermark) (ht : w.tripwires = [])
    (hstart : (w.store p.base).HoldsTimed start) (hsmall : ∀ e ∈ start, e.id ≤ maxInt)
    (h : Tailing w p start x log) : Followed p start x log := by
  induction h with
  | start => exact followed_start hmode ht hstart hsmall
  | page _ hr hready hpage ih => exact ih.page hmode hinterval hbatch hmin hr hready hpage
  | turn _ hinside ih => exact ih.turn hinside
  | write _ hes hes' he hrest hids hw htimes ih => exact ih.write hes hes' he hrest hids hw htimes
  | delete _ hes hes' hrest ih => exact ih.delete hes hes' hrest
  | @elsewhere x log s _ ih =>
    refine ih.keep ih.plan ih.tripwires ih.side rfl ?_
    rw [Scene.move, World.store_setStore, if_neg p.base.ne_other]
  | @consume x log n _ hstore ih =>
    exact ih.keep ih.plan ((x.world.stepConsumer_frame n).1.trans ih.tripwires) ih.side rfl hstore
  | wait _ ih => exact ih.keep ih.plan ih.tripwires ih.side rfl rfl
  | cancel _ ih => exact ih.keep ih.plan ih.tripwires ih.side rfl rfl

end Following

/-- Whenever a page comes back empty and the key steps back, each row above the watermark has been
read since it was last written or is behind the key, unless the scan has overtaken it: the row was
written behind the key, at the time the key stood at, and the same cycle read a later time. -/
theorem tailing_scan_loses_the_overtaken {w : World} {p : Plan} {n : Int}
    {start : List Interactive} {x : Scene} {log : Log} (hmode : p.mode = .incremental)
    (hinterval : p.interval ≠ 0) (hwatermark : minInt ≤ p.watermark) (htripwires : w.tripwires = [])
    (hstart : (w.store p.base).HoldsTimed start) (hids : ∀ e ∈ start, e.id ≤ maxInt)
    (hrun : Tailing w (p.withBatch n) start x log) (hgoes : x.validation.result? = none)
    (hready : (x.observed .forward).phase = .ready)
    (hempty : (x.world.source p.base).page p.mode (p.withBatch n).batch
      (x.observed .forward).cursor = .ok []) :
    let key := (x.move (.scan .forward)).validation.forward.cursor
    key = x.validation.forward.cursor.restart .incremental ∧
      ∃ es, (x.world.store p.base).HoldsTimed es ∧ ∀ e ∈ es, p.watermark < e.uTime →
        ((ReadSince e log ∨ key.before e) ↔ ¬ Overtaken e log) := by
  have hbatch : 1 ≤ (p.withBatch n).batch := Int.le_max_right _ _
  have h := hrun.followed (p := p.withBatch n) hmode hinterval hbatch hwatermark
    htripwires hstart hids
  obtain ⟨_, _, s, turn, hv, _, _, _, hstore⟩ := h.move_scan .forward hgoes
  have hcursor : (x.move (.scan .forward)).validation.forward.cursor = s.cursor := by rw [hv]; rfl
  have hside : (x.observed .forward).side = .forward :=
    (Scan.observe_side ..).trans (h.side .forward)
  constructor
  · rcases turn.cursor_page hside hready hempty hinterval with ⟨_, hback⟩ | ⟨last, hlast, _⟩
    · rw [hcursor, hback]
      exact congrArg₂ _ (Scan.observe_cursor ..) hmode
    · cases hlast
  · have hafter := h.page hmode hinterval hbatch hwatermark hgoes hready hempty
    obtain ⟨es, hes, hrows⟩ := hafter.table
    rw [if_pos rfl] at hrows
    refine ⟨es, hstore ▸ hes, fun e he hw => ?_⟩
    exact ((hrows e he).2.2 hw).met_iff

def forth (w : World) (p : Plan) (f : Scan) : Scene := ⟨w, ⟨p, f, .start p .reverse⟩, false⟩

namespace Tailing
variable {w₀ w : World} {p : Plan} {c : Cursor} {k : Nat} {start : List Interactive} {log : Log}

theorem read {rows : List Interactive} {last : Interactive}
    (h : Tailing w₀ p start (forth w p ⟨.forward, c, k, .ready⟩) log) (ht : w.tripwires = [])
    (hpage : (w.source p.base).page p.mode p.batch c = .ok rows)
    (hlast : rows.getLast? = some last) : Tailing w₀ p start
      (forth w p ⟨.forward, c.advance last.uTime last.id, 0, .comparing rows []⟩)
      (.read rows :: log) := by
  have hne : rows ≠ [] := List.ne_nil_of_mem (List.mem_of_getLast? hlast)
  have hmoved := h.page rfl rfl hpage
  rw [if_neg hne] at hmoved
  obtain ⟨es, ns, s, turn, he⟩ :=
    Scene.move_scan (x := forth w p ⟨.forward, c, k, .ready⟩) .forward rfl ht rfl
  rw [he] at hmoved
  change Scan.Turn p w.source w.clock ⟨.forward, c, k, .ready⟩ es ns s at turn
  cases turn with
  | page _ _ hpage' hlast' =>
    obtain rfl := Except.ok.inj (hpage.symm.trans hpage')
    obtain rfl := Option.some.inj (hlast.symm.trans hlast')
    rw [World.emit_nil, World.report_nil] at hmoved
    exact hmoved
  | idle hn => cases hn
  | _ => simp_all

/-- A row that the other store holds as well is looked up. -/
theorem agreed {row : Interactive} {es : List Interactive}
    (h : Tailing w₀ p start (forth w p ⟨.forward, c, k, .comparing [row] []⟩) log)
    (ht : w.tripwires = []) (hes : (w.store p.base.other).Holds es)
    (hrow : es.find? (·.id = row.id) = some row) :
    Tailing w₀ p start (forth w p ⟨.forward, c, k, .ready⟩) log := by
  have hmoved : Tailing w₀ p start
      ((forth w p ⟨.forward, c, k, .comparing [row] []⟩).move (.scan .forward)) log :=
    h.turn fun _ hready => by cases hready
  obtain ⟨_, _, s, turn, he⟩ :=
    Scene.move_scan (x := forth w p ⟨.forward, c, k, .comparing [row] []⟩) .forward rfl ht rfl
  rw [he] at hmoved
  have hentity := (hes.entity?_eq row.id).trans (congrArg _ hrow)
  have hanswer : ∀ r, (w.source p.base.other).find row.id = .ok r → r = some row := by
    intro r hr
    have := (Store.find_ok hes.keyed hr).symm.trans hentity
    cases r <;> simp_all
  change Scan.Turn p w.source w.clock ⟨.forward, c, k, .comparing [row] []⟩ _ _ s at turn
  cases turn with
  | find hphase hfind =>
    cases hphase
    rw [hanswer _ hfind, World.emit_nil, World.report_nil] at hmoved
    simpa [Scan.compared, Scan.publish, Scan.difference, forth, Validation.setScan] using hmoved
  | findFailed hphase hfind =>
    cases hphase
    obtain ⟨r, hr⟩ := hes.find row.id
    exact absurd (hr.symm.trans hfind) (by simp)
  | idle hn => cases hn
  | _ => simp_all

end Tailing

/-- While a page with the row 7 of the time 10 is at hand, the row 3 is written at that time and the
row 9 at a later one. The next page holds the row 9; after it the row 3 is lost. -/
theorem tailing_scan_loses_a_row :
    let p : Plan := ⟨.src, .src, .incremental, 5, 1, 1000⟩
    let at' (id time : Int) : Interactive := ⟨id, id, "b", 0, 0, 0, time, 1⟩
    let w := World.ofStores (.ofEntities "src" [at' 7 10, at' 9 2])
      (.ofEntities "dst" [at' 7 10, at' 9 20])
    ∃ x log, Tailing w (p.withBatch 0) [at' 7 10, at' 9 2] x log ∧ x.validation.result? = none ∧
      (x.world.source .src).page .incremental 1 x.validation.forward.cursor = .ok [] ∧
      (x.world.store .src).HoldsTimed [at' 3 10, at' 7 10, at' 9 20] ∧
      ¬ (ReadSince (at' 3 10) log ∨
        (x.move (.scan .forward)).validation.forward.cursor.before (at' 3 10)) := by
  intro p at' w
  let three := Store.ofEntities "src" [at' 3 10, at' 7 10, at' 9 2]
  let later := Store.ofEntities "src" [at' 3 10, at' 7 10, at' 9 20]
  let w₂ := (w.setStore .src three).setStore .src later
  have hold : (w.store .src).HoldsTimed [at' 7 10, at' 9 2] :=
    Store.holdsTimed_ofEntities _ (by decide)
  have hthree : three.HoldsTimed [at' 3 10, at' 7 10, at' 9 2] :=
    Store.holdsTimed_ofEntities _ (by decide)
  have hlater : later.HoldsTimed [at' 3 10, at' 7 10, at' 9 20] :=
    Store.holdsTimed_ofEntities _ (by decide)
  have hdst : (w₂.store .dst).Holds [at' 7 10, at' 9 20] := Store.holds_ofEntities _ (by decide)
  have hfirst : (w.source .src).page .incremental 1 ⟨5, maxInt, false⟩ = .ok [at' 7 10] :=
    (hold.page (by decide) _).trans (by simp [at', Cursor.before])
  have hsecond : (w₂.source .src).page .incremental 1 ⟨10, 7, true⟩ = .ok [at' 9 20] :=
    (hlater.page (by decide) _).trans (by simp [at', Cursor.before])
  have hempty : (w₂.source .src).page .incremental 1 ⟨20, 9, true⟩ = .ok [] :=
    (hlater.page (by decide) _).trans (by simp [at', Cursor.before])
  have hrun : Tailing w (p.withBatch 0) [at' 7 10, at' 9 2]
      (forth w (p.withBatch 0) ⟨.forward, ⟨5, maxInt, false⟩, 0, .ready⟩) [] := .start
  have hread := hrun.read rfl hfirst rfl
  have hwrote :=
    (hread.write hold hthree (e := at' 3 10) (by simp) (by simp) (by decide) (by decide)
    (by decide)).write hthree hlater (e := at' 9 20) (by simp) (by simp) (by decide) (by decide)
    (by decide)
  change Tailing w (p.withBatch 0) [at' 7 10, at' 9 2]
    (forth w₂ (p.withBatch 0) ⟨.forward, ⟨10, 7, true⟩, 0, .comparing [at' 7 10] []⟩)
    [.wrote (at' 9 20) ⟨10, 7, true⟩, .wrote (at' 3 10) ⟨10, 7, true⟩, .read [at' 7 10]] at hwrote
  have hend := ((hwrote.agreed rfl hdst rfl).read rfl hsecond rfl).agreed rfl hdst rfl
  refine ⟨_, _, hend, rfl, hempty, hlater, ?_⟩
  obtain ⟨_, es, hes, hlost⟩ := tailing_scan_loses_the_overtaken (p := p) (n := 0) rfl (by decide)
    (by decide) rfl hold (by decide) hend rfl rfl hempty
  obtain rfl := hes.holds.unique hlater.holds
  rw [hlost (at' 3 10) (by simp) (by decide)]
  simp [Overtaken, Behind, Cursor.before, at']

end DualWrite
