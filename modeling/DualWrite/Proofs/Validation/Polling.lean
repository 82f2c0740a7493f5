import DualWrite.Proofs.Validation.Cycles
import DualWrite.Proofs.Validation.Evidence
import DualWrite.Proofs.Validation.Faults
import DualWrite.Proofs.Validation.Survey
import DualWrite.Proofs.Validation.Tailing

/-!
# Polling a table that changes between cycles

A scan with an interval goes through its table again and again. Whatever is done to the table
between two of its cycles, each cycle reads the rows that are due by what was read before, and no
row at or below the watermark is ever reported.
-/
namespace DualWrite
open Store Scan

def Source.stamps (s : Source) (side : Side) (mode : ScanMode) (batch : Int) (c : Cursor) :
    Except Error (List (Int × Int)) :=
  match side with
  | .forward => (s.page mode batch c).map (List.map fun e => (e.id, e.uTime))
  | .reverse => s.keys mode batch c

def Scene.reading (x : Scene) (side : Side) : Except Error (List (Int × Int)) :=
  (x.world.source (x.validation.plan.scanned side)).stamps side x.validation.plan.mode
    x.validation.plan.batch (x.validation.scan side).cursor

/-- Runs of a validation in which the scan of one side polls a table that changes only between its
cycles, each with what that scan has read. None of its pages fails; of look-ups, of publications and
of the pages of the other side any may. -/
inductive Polling (w : World) (p : Plan) (side : Side) : Scene → Ledger → Prop where
  | start : Polling w p side (Scene.start w p) ⟨[], []⟩
  /-- The scan reads a page. -/
  | read {x l f keys} : Polling w p side x l → x.validation.result? = none →
      (x.observed side).phase = .ready → x.reading side = .ok keys → keys ≠ [] →
      Polling w p side (x.turnUnder f side) (l.read keys)
  /-- The page is empty, and the cycle is over. -/
  | close {x l f} : Polling w p side x l → x.validation.result? = none →
      (x.observed side).phase = .ready → x.reading side = .ok [] →
      Polling w p side (x.turnUnder f side) l.close
  /-- The scan takes a turn inside its page, or the other scan takes any turn. -/
  | turn {x l f other} : Polling w p side x l →
      (other = side → (x.observed side).phase ≠ .ready) → Polling w p side (x.turnUnder f other) l
  /-- Something else happens. While a cycle goes on it leaves the table alone. -/
  | between {x l m} : Polling w p side x l → (∀ other, m ≠ .scan other) →
      ((x.move m).world.store (p.scanned side) = x.world.store (p.scanned side) ∨
        l.now = [] ∧ ∃ t, ((x.move m).world.store (p.scanned side)).table? = some t ∧ t.Pollable) →
      Polling w p side (x.move m) l

/-- Whatever turn comes next, such a run goes on, unless a page of the table fails. -/
theorem Polling.onward {w : World} {p : Plan} {side : Side} {x : Scene} {l : Ledger}
    (h : Polling w p side x l) (f : Faults) (other : Side)
    (hpage : x.validation.result? = none → (x.observed side).phase = .ready →
      ∃ keys, x.reading side = .ok keys) : ∃ l', Polling w p side (x.turnUnder f other) l' := by
  by_cases hr : x.validation.result?.isSome
  · exact ⟨l, (Scene.turnUnder_ended f hr).symm ▸ h⟩
  · have hgoes := Option.not_isSome_iff_eq_none.1 hr
    by_cases hinside : other = side → (x.observed side).phase ≠ .ready
    · exact ⟨l, h.turn hinside⟩
    · obtain ⟨rfl, hready⟩ : other = side ∧ (x.observed side).phase = .ready := by
        simpa using hinside
      obtain ⟨keys, hkeys⟩ := hpage hgoes hready
      by_cases hne : keys = []
      · exact ⟨l.close, h.close hgoes hready (hne ▸ hkeys)⟩
      · exact ⟨l.read keys, h.read hgoes hready hkeys hne⟩

/-- What a page of a table that can be scanned holds is the beginning of what lies ahead. -/
theorem ofStore_stamps {s : Store} {t : Table} (ht : s.table? = some t) {mode : ScanMode}
    (hs : t.Scannable mode) {n : Int} (hn : 0 ≤ n) {side : Side} {c : Cursor}
    {keys : List (Int × Int)}
    (h : (Source.ofStore s).stamps side mode n c = .ok keys) :
    ((t.ahead mode c).take n.toNat).mapM t.stamp = .ok keys := by
  rw [← hs.page_eq]
  cases side with
  | forward =>
    rw [Source.stamps, ofStore_page ht hs.keyed hn] at h
    cases hm : (t.page mode n c).mapM t.entity with
    | error f =>
      rw [hm] at h
      cases h
    | ok es =>
      rw [hm] at h
      obtain rfl := Except.ok.inj h
      rw [mapM_eq_ok, List.forall₂_map_right_iff]
      exact (forall₂_mem (mapM_eq_ok.1 hm)).imp fun r e hr =>
        hs.keyed.stamp_eq (Table.mem_picked hr.1) hr.2
  | reverse =>
    rw [Source.stamps, ofStore_keys ht hs.keyed hn] at h
    cases hm : (t.page mode n c).mapM t.stamp with
    | error f =>
      rw [hm] at h
      cases h
    | ok ks =>
      rw [hm] at h
      obtain rfl := Except.ok.inj h
      rfl

/-- A scan that goes by ids it has met, and sends events of its side about these. -/
def Evidence.met (side : Side) (ids : Int → Prop) : Evidence where
  row r := ids r.id
  key := ids
  event k i := side.reports k = true ∧ ids i

namespace Scan
variable {f : Faults} {p : Plan} {source : Direction → Source} {now : Nat} {s s' : Scan}
  {es : List Event} {ns : List Notice}

theorem ready_of_request {c : Cursor} (h : s.request = .page c ∨ s.request = .keys c) :
    s.phase = .ready := by
  unfold request at h
  split at h <;> simp_all

theorem learns_met {side : Side} (hside : s.side = side) {ids ids' : Int → Prop}
    (hmore : ∀ i, ids i → ids' i)
    (hread : s.phase = .ready → ∀ keys,
      (source (p.scanned side)).stamps side p.mode p.batch s.cursor = .ok keys →
      ∀ k ∈ keys, ids' k.1) :
    Evidence.Learns p source s (.met side ids) (.met side ids') where
  row := hmore _
  key := hmore _
  event := And.imp_right (hmore _)
  page := by
    intro rows r hforward hrequest hpage hr
    obtain rfl : side = .forward := hside.symm.trans hforward
    exact hread (ready_of_request (.inl hrequest)) _
      (by rw [Source.stamps, Plan.scanned, hpage]; rfl) _
      (List.mem_map_of_mem hr)
  keys := by
    intro ks i hreverse hrequest hkeys hi
    obtain rfl : side = .reverse := hside.symm.trans hreverse
    obtain ⟨k, hk, rfl⟩ := List.mem_map.1 hi
    exact hread (ready_of_request (.inr hrequest)) _ hkeys k hk
  missing := by
    intro r hforward hrow _ _
    obtain rfl : side = .forward := hside.symm.trans hforward
    exact ⟨rfl, hmore _ hrow⟩
  unequal := by
    intro r other hforward hrow _ _ _
    obtain rfl : side = .forward := hside.symm.trans hforward
    exact ⟨rfl, hmore _ hrow⟩
  stray := by
    intro chunk there i hreverse hkey _ _ _ _
    obtain rfl : side = .reverse := hside.symm.trans hreverse
    exact ⟨rfl, hmore _ hkey⟩

theorem TurnUnder.grounded {a b : Evidence} (h : TurnUnder f p source now s es ns s')
    (hs : s.Grounded a) (hl : Evidence.Learns p (fun d => (source d).failing f) s a b) :
    (∀ e ∈ es, a.event e.kind e.id) ∧ s'.Grounded b := by
  cases h with
  | turn ht _ =>
    obtain ⟨hsent, hnext⟩ := hs.turn hl ht
    exact ⟨fun e he => hs.found e (hsent e he), hnext⟩
  | @publishFailed e es _ hphase _ =>
    have hfound : s.found = e :: es := by simp [found, hphase]
    refine ⟨List.forall_mem_nil _, (grounded_publish fun e he => ?_).mono hl.toGrows⟩
    exact hs.found e (hfound ▸ List.mem_cons_of_mem _ he)

theorem TurnUnder.cursor_eq (h : TurnUnder f p source now s es ns s') (hr : s.phase ≠ .ready) :
    s'.cursor = s.cursor := by
  cases h with
  | turn ht => exact ht.cursor_eq hr
  | publishFailed => exact publish_cursor ..

/-- The cursor moves to the last row of a page, or steps back behind an empty one. -/
theorem TurnUnder.cursor_page {keys : List (Int × Int)} (h : TurnUnder f p source now s es ns s')
    (hi : p.interval ≠ 0) (hr : s.phase = .ready)
    (hkeys : (source (p.scanned s.side)).stamps s.side p.mode p.batch s.cursor = .ok keys) :
    s'.cursor = match keys.getLast? with
      | none => s.cursor.restart p.mode
      | some last => s.cursor.advance last.2 last.1 := by
  cases h with
  | publishFailed hphase => simp [hr] at hphase
  | turn ht =>
    cases ht with
    | idle hn => cases hs : s.side <;> simp [request, hs, hr] at hn
    | page hside _ hpage hlast =>
      rw [hside, Source.stamps, Plan.scanned, show (source p.base).page _ _ _ = _ from
        hpage] at hkeys
      obtain rfl := Except.ok.inj hkeys
      rw [List.getLast?_map, hlast]
      rfl
    | keys hside _ hpage hlast =>
      rw [hside, Source.stamps] at hkeys
      obtain rfl := Except.ok.inj (hkeys.symm.trans hpage)
      rw [hlast]
    | pageDrained hside _ hpage =>
      rw [hside, Source.stamps, Plan.scanned, show (source p.base).page _ _ _ = _ from
        hpage] at hkeys
      obtain rfl := Except.ok.inj hkeys
      simp [drained, hi]
    | keysDrained hside _ hpage =>
      rw [hside, Source.stamps] at hkeys
      obtain rfl := Except.ok.inj (hkeys.symm.trans hpage)
      simp [drained, hi]
    | pageFailed hside _ hpage =>
      rw [hside, Source.stamps, Plan.scanned, show (source p.base).page _ _ _ = _ from
        hpage] at hkeys
      cases hkeys
    | keysFailed hside _ hpage =>
      rw [hside, Source.stamps] at hkeys
      cases hkeys.symm.trans hpage
    | find hphase | findFailed hphase | present hphase | presentFailed hphase | publish hphase =>
      simp [hr] at hphase

end Scan

structure Polled (w : World) (p : Plan) (side : Side) (x : Scene) (l : Ledger) : Prop where
  plan : x.validation.plan = p
  own : ∀ other, (x.validation.scan other).side = other
  cursor : (x.validation.scan side).cursor = l.cursor p.watermark
  table : ∃ t, (x.world.store (p.scanned side)).table? = some t ∧ t.Pollable ∧
    t.Midway p.watermark l
  above : ∀ k ∈ l.all, p.watermark < k.2
  /-- Of the other side it is only followed which kinds of events it sends. -/
  hand : ∀ other, (x.validation.scan other).Grounded (.met other fun i => other = side → l.Met i)
  events : x.world.events = w.events ++ x.news w
  told : ∀ e ∈ x.told w side, l.Met e.id

section Following
variable {w : World} {p : Plan} {side : Side} {x : Scene} {l : Ledger} {f : Faults}

theorem polled_start (hp : p.mode = .incremental) {t : Table}
    (ht : (w.store (p.scanned side)).table? = some t) (hpoll : t.Pollable) :
    Polled w p side (Scene.start w p) ⟨[], []⟩ where
  plan := rfl
  own := by rintro (_ | _) <;> rfl
  cursor := by
    have hstart : ((Scene.start w p).validation.scan side).cursor = .start p.mode p.watermark := by
      cases side <;> rfl
    rw [hstart, hp]
    rfl
  table := ⟨t, ht, hpoll, Table.midway_fresh rfl⟩
  above := List.forall_mem_nil _
  hand := by rintro (_ | _) <;> exact .of_isResting rfl
  events := by simp [Scene.start, Scene.news]
  told := by simp [Scene.told, Scene.news, Scene.start]

theorem Polled.observed_side (h : Polled w p side x l) (other : Side) :
    (x.observed other).side = other :=
  (Scan.observe_side ..).trans (h.own other)

theorem Polled.source_stamps (h : Polled w p side x l) : x.reading side =
    (x.world.source (p.scanned (x.observed side).side)).stamps (x.observed side).side p.mode p.batch
      (x.observed side).cursor := by
  rw [Scene.reading, h.plan, h.observed_side, Scene.observed, Scan.observe_cursor]

theorem Polled.turn (h : Polled w p side x l) (other : Side) (hr : x.validation.result? = none)
    {l' : Ledger} (hmore : l.all ⊆ l'.all)
    (hread : other = side → (x.observed side).phase = .ready → ∀ keys, x.reading side = .ok keys →
      ∀ k ∈ keys, k ∈ l'.all)
    (hcursor : ((x.turnUnder f other).validation.scan side).cursor = l'.cursor p.watermark)
    (htable : ∃ t, (x.world.store (p.scanned side)).table? = some t ∧ t.Pollable ∧
      t.Midway p.watermark l')
    (habove : ∀ k ∈ l'.all, p.watermark < k.2) : Polled w p side (x.turnUnder f other) l' := by
  obtain ⟨es, ns, s, turn, he⟩ := Scene.turnUnder_turn f other hr
  have hown := h.observed_side other
  have hids : ∀ {i other}, (other = side → l.Met i) → other = side → l'.Met i :=
    fun hi ho => (hi ho).mono hmore
  have hlearns : Evidence.Learns p (fun d => (x.world.source d).failing f) (x.observed other)
      (.met other fun i => other = side → l.Met i) (.met other fun i => other = side →
        l'.Met i) := by
    apply learns_met hown (fun i => hids)
    intro hready keys hkeys k hk ho
    subst ho
    refine ⟨k, hread rfl hready keys ?_ k hk, rfl⟩
    rw [h.source_stamps, hown]
    exact hkeys
  rw [h.plan] at turn
  obtain ⟨hsent, hnext⟩ := turn.grounded ((h.hand other).observe _ _) hlearns
  have hevents : (x.turnUnder f other).world.events = x.world.events ++ es := by
    rw [he]
    rfl
  have hnews := Scene.news_append h.events hevents
  obtain ⟨htold, hothers⟩ := Scene.told_append hnews fun e hin => (hsent e hin).1
  have hvalidation : (x.turnUnder f other).validation = x.validation.setScan s other := by rw [he]
  refine ⟨?_, ?_, hcursor, ?_, habove, ?_, ?_, ?_⟩
  · rw [hvalidation]
    exact (Validation.setScan_plan ..).trans h.plan
  · rw [hvalidation]
    exact Validation.forall_setScan (P := fun other s => s.side = other)
      (turn.side_eq.trans hown) fun other _ => h.own other
  · rw [he]
    exact htable
  · rw [hvalidation]
    refine Validation.forall_setScan (P := fun other s => s.Grounded
      (.met other fun i => other = side → l'.Met i)) hnext fun third _ => ?_
    exact (h.hand third).mono ⟨hids, hids, And.imp_right hids⟩
  · rw [hevents, hnews, ← List.append_assoc, ← h.events]
  · intro e hin
    by_cases ho : side = other
    · subst ho
      rw [htold] at hin
      rcases List.mem_append.1 hin with hin | hin
      · exact (h.told e hin).mono hmore
      · exact ((hsent e hin).2 rfl).mono hmore
    · rw [hothers side ho] at hin
      exact (h.told e hin).mono hmore

theorem Polled.inside (h : Polled w p side x l) {other : Side}
    (hinside : other = side → (x.observed side).phase ≠ .ready) :
    Polled w p side (x.turnUnder f other) l := by
  by_cases hr : x.validation.result?.isSome
  · rwa [Scene.turnUnder_ended f hr]
  · have hgoes := Option.not_isSome_iff_eq_none.1 hr
    obtain ⟨es, ns, s, turn, he⟩ := Scene.turnUnder_turn f other hgoes
    refine h.turn other hgoes (List.Subset.refl _) (fun ho hready =>
      absurd hready (hinside ho)) ?_ h.table
      h.above
    rw [he, ← h.cursor]
    by_cases ho : side = other
    · subst ho
      rw [Validation.scan_setScan, turn.cursor_eq (hinside rfl)]
      exact Scan.observe_cursor ..
    · rw [Validation.scan_setScan_of_ne _ _ _ ho]

theorem Polled.cursor_page (h : Polled w p side x l) (hp : p.mode = .incremental)
    (hi : p.interval ≠ 0) (hr : x.validation.result? = none)
    (hready : (x.observed side).phase = .ready)
    {keys : List (Int × Int)} (hkeys : x.reading side = .ok keys) :
    ((x.turnUnder f side).validation.scan side).cursor = match keys.getLast? with
      | none => (l.cursor p.watermark).restart .incremental
      | some last => (l.cursor p.watermark).advance last.2 last.1 := by
  obtain ⟨es, ns, s, turn, he⟩ := Scene.turnUnder_turn f side hr
  have hcursor : (x.observed side).cursor = l.cursor p.watermark :=
    (Scan.observe_cursor ..).trans h.cursor
  rw [h.source_stamps] at hkeys
  rw [h.plan] at turn
  rw [he, Validation.scan_setScan, turn.cursor_page hi hready hkeys, hcursor, hp]

/-- What is read is the beginning of what lies ahead. -/
theorem Polled.reading (h : Polled w p side x l) (hp : p.mode = .incremental) (hb : 1 ≤ p.batch)
    {t : Table} (ht : (x.world.store (p.scanned side)).table? = some t) (hpoll : t.Pollable)
    {keys : List (Int × Int)} (hkeys : x.reading side = .ok keys) :
    ((t.ahead .incremental (l.cursor p.watermark)).take p.batch.toNat).mapM t.stamp = .ok keys := by
  rw [Scene.reading, h.plan, hp, h.cursor] at hkeys
  exact ofStore_stamps ht hpoll.toScannable (by omega) hkeys

theorem Polled.read (h : Polled w p side x l) (hp : p.mode = .incremental) (hi : p.interval ≠ 0)
    (hb : 1 ≤ p.batch) (hr : x.validation.result? = none)
    (hready : (x.observed side).phase = .ready)
    {keys : List (Int × Int)} (hkeys : x.reading side = .ok keys) (hne : keys ≠ []) :
    Polled w p side (x.turnUnder f side) (l.read keys) := by
  obtain ⟨t, ht, hpoll, hmid⟩ := h.table
  have hnext := hmid.read hpoll.keyed (h.reading hp hb ht hpoll hkeys)
  have hlast := List.getLast?_eq_some_getLast hne
  refine h.turn side hr ?_ ?_ ?_ ⟨t, ht, hpoll, hnext⟩ ?_
  · rw [Ledger.all_read]
    exact List.subset_append_left _ _
  · intro _ _ keys' hkeys' k hk
    obtain rfl := Except.ok.inj (hkeys.symm.trans hkeys')
    rw [Ledger.all_read]
    exact List.mem_append_right _ hk
  · rw [h.cursor_page hp hi hr hready hkeys, hlast, Ledger.cursor_read hlast]
  · intro k hk
    rw [Ledger.all_read] at hk
    rcases List.mem_append.1 hk with hk | hk
    · exact h.above k hk
    · exact l.above_of_due h.above (hnext.due_of_mem hpoll k (List.mem_append_right _ hk))

theorem Polled.close (h : Polled w p side x l) (hp : p.mode = .incremental) (hi : p.interval ≠ 0)
    (hmin : minInt ≤ p.watermark) (hr : x.validation.result? = none)
    (hready : (x.observed side).phase = .ready) (hkeys : x.reading side = .ok []) :
    Polled w p side (x.turnUnder f side) l.close := by
  obtain ⟨t, ht, hpoll, hmid⟩ := h.table
  have hsame : l.close.all = l.all := l.all_close
  refine h.turn side hr (hsame ▸ List.Subset.refl _) ?_ ?_ ⟨t, ht, hpoll, Table.midway_fresh rfl⟩
    (hsame ▸ h.above)
  · intro _ _ keys hkeys' k hk
    obtain rfl := Except.ok.inj (hkeys.symm.trans hkeys')
    cases hk
  · rw [h.cursor_page hp hi hr hready hkeys, Ledger.cursor_fresh (l := l.close) rfl]
    exact (hmid.restart hpoll h.above hmin).1

theorem Polled.between (h : Polled w p side x l) {m : Move} (hm : ∀ other, m ≠ .scan other)
    (hstore : (x.move m).world.store (p.scanned side) = x.world.store (p.scanned side) ∨
      l.now = [] ∧ ∃ t, ((x.move m).world.store (p.scanned side)).table? = some t ∧ t.Pollable) :
    Polled w p side (x.move m) l := by
  obtain ⟨hv, he⟩ := Scene.move_still (x := x) hm
  have hnews : (x.move m).news w = x.news w := by rw [Scene.news, he, Scene.news]
  refine ⟨?_, ?_, ?_, ?_, h.above, ?_, ?_, ?_⟩
  · rw [hv]
    exact h.plan
  · rw [hv]
    exact h.own
  · rw [hv]
    exact h.cursor
  · rcases hstore with hstore | ⟨hnow, t, ht, hpoll⟩
    · rw [hstore]
      exact h.table
    · exact ⟨t, ht, hpoll, Table.midway_fresh hnow⟩
  · rw [hv]
    exact h.hand
  · rw [he, hnews]
    exact h.events
  · rw [Scene.told, hnews]
    exact h.told

theorem Polling.polled (hp : p.mode = .incremental) (hi : p.interval ≠ 0) (hb : 1 ≤ p.batch)
    (hmin : minInt ≤ p.watermark) {t : Table} (ht : (w.store (p.scanned side)).table? = some t)
    (hpoll : t.Pollable) (h : Polling w p side x l) : Polled w p side x l := by
  induction h with
  | start => exact polled_start hp ht hpoll
  | read _ hr hready hkeys hne ih => exact ih.read hp hi hb hr hready hkeys hne
  | close _ hr hready hkeys ih => exact ih.close hp hi hmin hr hready hkeys
  | turn _ hinside ih => exact ih.inside hinside
  | between _ hm hstore ih => exact ih.between hm hstore

end Following

/-- A scan that polls reports nothing but rows that it has read, and reads none at or below the
watermark. Each of its cycles has read, when it comes to an empty page, just the rows of the table
that are above the watermark, if no earlier cycle has read anything, or else those that are not
below the latest time read by an earlier cycle; each of them once, by time and id. The cursor then
steps back to where the next cycle starts: by one if the cycle has read anything, never below the
watermark, and without leaving the 64 bits. -/
theorem polling_cycles_read_what_is_due {w : World} {p : Plan} {n : Int} {side : Side} {t : Table}
    {x : Scene} {l : Ledger} (hmode : p.mode = .incremental) (hinterval : p.interval ≠ 0)
    (hwatermark : minInt ≤ p.watermark) (htable : (w.store (p.scanned side)).table? = some t)
    (hpollable : t.Pollable) (hrun : Polling w (p.withBatch n) side x l) :
    (∀ e ∈ x.told w side, ∃ k ∈ l.all, k.1 = e.id ∧ p.watermark < k.2) ∧
      (x.validation.result? = none → (x.observed side).phase = .ready → x.reading side = .ok [] →
        (∃ t, (x.world.store (p.scanned side)).table? = some t ∧
          t.ReadBy (l.due p.watermark) l.now) ∧
        ∀ f,
          let key := (x.validation.scan side).cursor
          let next := ((x.turnUnder f side).validation.scan side).cursor
          next = (if key.advanced then ⟨key.utime - 1, maxInt, false⟩ else key) ∧
            p.watermark ≤ next.utime ∧ (key.advanced = true → minInt ≤ key.utime - 1)) := by
  have hb : 1 ≤ (p.withBatch n).batch := Int.le_max_right _ _
  have h : Polled w (p.withBatch n) side x l :=
    hrun.polled hmode hinterval hb hwatermark htable hpollable
  constructor
  · intro e he
    obtain ⟨k, hk, hke⟩ := h.told e he
    exact ⟨k, hk, hke, h.above k hk⟩
  · intro hr hready hkeys
    obtain ⟨t', ht, hpoll, hmid⟩ := h.table
    have hempty := h.reading hmode hb ht hpoll hkeys
    have hnone : t'.ahead .incremental (l.cursor p.watermark) = [] := by
      have := List.forall₂_nil_right_iff.1 (mapM_eq_ok.1 hempty)
      rcases List.take_eq_nil_iff.1 this with hzero | hnil
      · omega
      · exact hnil
    refine ⟨⟨t', ht, hmid.readBy hpoll hnone⟩, fun f => ?_⟩
    intro key next
    have hkey : key = l.cursor p.watermark := h.cursor
    have hnext : next = (l.cursor p.watermark).restart .incremental :=
      h.cursor_page hmode hinterval hr hready hkeys
    obtain ⟨hrestart, hrange⟩ := hmid.restart hpoll h.above hwatermark
    have hfloor : p.watermark ≤ (l.close.origin p.watermark).utime := by
      apply Ledger.floor
      rw [Ledger.all_close]
      exact h.above
    refine ⟨?_, ?_, hkey ▸ hrange⟩
    · rw [hnext, hkey]
      exact restart_eq hrange
    · rw [hnext]
      exact hrestart ▸ hfloor

section Forth
variable {w₀ w : World} {p : Plan} {s s' : Scan} {c : Cursor} {k : Nat} {l : Ledger} {f : Faults}
  {ns : List Notice}

theorem forth_turnUnder (hgoes : (forth w p s).validation.result? = none)
    (hsent : (s.observe false w.clock).sent = [])
    (hserved : (s.observe false w.clock).servedUnder f p w.source w.clock = (s', ns)) :
    (forth w p s).turnUnder f .forward = forth (w.report ns) p s' := by
  have hobserved : (forth w p s).observed .forward = s.observe false w.clock := rfl
  have hafter : (s.observe false w.clock).servedUnder f (forth w p s).validation.plan
      (forth w p s).world.source (forth w p s).world.clock = (s', ns) := hserved
  rw [Scene.turnUnder_eq _ hgoes, hobserved]
  simp only [hafter, hsent, Faults.kept_nil, World.emit_nil]
  rfl

theorem forth_reading (rows : List Interactive) (hs : s.cursor = c)
    (h : (w.source p.base).page p.mode p.batch c = .ok rows) :
    (forth w p s).reading .forward = .ok (rows.map fun e => (e.id, e.uTime)) := by
  rw [← hs] at h
  change Except.map _ ((w.source p.base).page p.mode p.batch s.cursor) = _
  rw [h]
  rfl

theorem Polling.forth_page (h : Polling w₀ p .forward (forth w p s) l)
    (hs : s.observe false w.clock = ⟨.forward, c, k, .ready⟩)
    (hgoes : (forth w p s).validation.result? = none) {rows : List Interactive} {last : Interactive}
    (hpage : (w.source p.base).page p.mode p.batch c = .ok rows)
    (hlast : rows.getLast? = some last) : Polling w₀ p .forward
      (forth w p ⟨.forward, c.advance last.uTime last.id, 0, .comparing rows []⟩)
      (l.read (rows.map fun e => (e.id, e.uTime))) := by
  have hcursor : s.cursor = c := by rw [← Scan.observe_cursor false w.clock s, hs]
  have hreading := forth_reading rows hcursor hpage
  have hne : rows.map (fun e => (e.id, e.uTime)) ≠ [] :=
    mt List.map_eq_nil_iff.1 (List.ne_nil_of_mem (List.mem_of_getLast? hlast))
  have hserved : (s.observe false w.clock).servedUnder .none p w.source w.clock =
      (⟨.forward, c.advance last.uTime last.id, 0, .comparing rows []⟩, []) := by
    rw [hs, Scan.servedUnder_none]
    simp only [served, request, reply, receive, Plan.scanned, hpage, onPage, hlast]
  have hnext := forth_turnUnder hgoes (by rw [hs]; rfl) hserved
  rw [World.report_nil] at hnext
  exact hnext ▸ h.read hgoes (congrArg Scan.phase hs) hreading hne

theorem Polling.forth_close (h : Polling w₀ p .forward (forth w p ⟨.forward, c, k, .ready⟩) l)
    (hi : p.interval ≠ 0) (hpage : (w.source p.base).page p.mode p.batch c = .ok []) :
    Polling w₀ p .forward
      (forth w p ⟨.forward, c.restart p.mode, 0, .pausing (w.clock + p.interval)⟩) l.close := by
  have hreading : (forth w p ⟨.forward, c, k, .ready⟩).reading .forward = .ok [] :=
    forth_reading [] rfl hpage
  have hserved : (Scan.mk .forward c k .ready).servedUnder .none p w.source w.clock =
      (⟨.forward, c.restart p.mode, 0, .pausing (w.clock + p.interval)⟩, []) := by
    rw [Scan.servedUnder_none]
    simp [served, request, reply, receive, Plan.scanned, hpage, onPage, drained, hi]
  have hnext := forth_turnUnder (s := ⟨.forward, c, k, .ready⟩) rfl rfl hserved
  rw [World.report_nil] at hnext
  exact hnext ▸ h.close rfl rfl hreading

theorem Polling.forth_failed {row : Interactive} {e : Error}
    (h : Polling w₀ p .forward (forth w p ⟨.forward, c, k, .comparing [row] []⟩) l) :
    Polling w₀ p .forward (forth (w.report [.lookupFailed row.id p.base.other.storeName e]) p
      ⟨.forward, c, k, .ready⟩) l := by
  let f : Faults := { Faults.none with find := fun _ => some e }
  have hnext : (forth w p ⟨.forward, c, k, .comparing [row] []⟩).turnUnder f .forward =
      forth (w.report [.lookupFailed row.id p.base.other.storeName e]) p ⟨.forward, c, k, .ready⟩ :=
    forth_turnUnder rfl rfl rfl
  exact hnext ▸ h.turn fun _ hready => by cases hready

end Forth

/-- Rows behind a key that stand by time and id already are read as they stand. -/
theorem World.page_of_sorted {w : World} {p : Plan} {es : List Interactive} {c : Cursor}
    (kept : List Interactive) (h : (w.store p.base).HoldsTimed es) (hp : p.mode = .incremental)
    (hb : 0 ≤ p.batch)
    (hkept : es.filter (c.before ·) = kept)
    (hsorted : kept.Pairwise (Interactive.notAfter · · = true)) :
    (w.source p.base).page p.mode p.batch c = .ok (kept.take p.batch.toNat) := by
  rw [hp, World.source, h.page hb, hkept, List.mergeSort_of_pairwise hsorted]

theorem Store.HoldsTimed.pollable {s : Store} {es : List Interactive} (h : s.HoldsTimed es)
    (hsmall : ∀ e ∈ es, e.id ≤ maxInt) : ∃ t, s.table? = some t ∧ t.Pollable := by
  obtain ⟨t, ht, hk, htime, hes⟩ := h
  refine ⟨t, ht, ⟨hk, fun _ => htime⟩, fun r hr => ?_⟩
  obtain ⟨e, he, hread⟩ := ok_of_mapM hes hr
  exact hk.id_of_entity hr hread ▸ hsmall e he

/-- The first cycle reads the row 7 of the time 10. Then the row 4 comes in below that time and the
row 3 at it; the second cycle reads the row 3 and the row 7 again, and not the row 4. -/
theorem polling_reads_a_time_again :
    let p : Plan := ⟨.src, .src, .incremental, 3, 1, 1000⟩
    let at' (id time : Int) : Interactive := ⟨id, id, "b", 0, 0, 0, time, 1⟩
    let w := World.ofStores (.ofEntities "src" [at' 2 3, at' 7 10]) (.ofEntities "dst" [])
    ∃ x, Polling w (p.withBatch 0) .forward x ⟨[[(7, 10)]], [(3, 10), (7, 10)]⟩ ∧
      (x.world.store .src).HoldsTimed [at' 2 3, at' 3 10, at' 4 5, at' 7 10] ∧
      x.reading .forward = .ok [] ∧
      ∀ f, ((x.turnUnder f .forward).validation.scan .forward).cursor = ⟨9, maxInt, false⟩ := by
  intro p at' w
  let e : Error := .other "timeout"
  let later := Store.ofEntities "src" [at' 2 3, at' 3 10, at' 4 5, at' 7 10]
  let w₁ := w.report [.lookupFailed 7 "dst" e]
  let w₂ := (w₁.moveTo 1000).setStore .src later
  let w₃ := w₂.report [.lookupFailed 3 "dst" e]
  have hfirst : (w.store .src).HoldsTimed [at' 2 3, at' 7 10] :=
    Store.holdsTimed_ofEntities _ (by decide)
  have hlater : later.HoldsTimed [at' 2 3, at' 3 10, at' 4 5, at' 7 10] :=
    Store.holdsTimed_ofEntities _ (by decide)
  let plan := p.withBatch 0
  have hpage : (w.source plan.base).page plan.mode plan.batch ⟨3, maxInt, false⟩ = .ok [at' 7 10] :=
    World.page_of_sorted [at' 7 10] hfirst rfl (by decide) (by decide) (by decide)
  have hempty : (w₁.source plan.base).page plan.mode plan.batch ⟨10, 7, true⟩ = .ok [] :=
    World.page_of_sorted [] hfirst rfl (by decide) (by decide) (by decide)
  have hthree : (w₂.source plan.base).page plan.mode plan.batch ⟨9, maxInt, false⟩ =
    .ok [at' 3 10] :=
    World.page_of_sorted [at' 3 10, at' 7 10] hlater rfl (by decide) (by decide) (by decide)
  have hseven : (w₃.source plan.base).page plan.mode plan.batch ⟨10, 3, true⟩ = .ok [at' 7 10] :=
    World.page_of_sorted [at' 7 10] hlater rfl (by decide) (by decide) (by decide)
  let w₄ := w₃.report [.lookupFailed 7 "dst" e]
  have hend : (w₄.source plan.base).page plan.mode plan.batch ⟨10, 7, true⟩ = .ok [] :=
    World.page_of_sorted [] hlater rfl (by decide) (by decide) (by decide)
  have hstart : Polling w plan .forward (forth w plan ⟨.forward, ⟨3, maxInt, false⟩, 0, .ready⟩)
      ⟨[], []⟩ := .start
  have hread : Polling w plan .forward
      (forth w plan ⟨.forward, ⟨10, 7, true⟩, 0, .comparing [at' 7 10] []⟩) ⟨[], [(7, 10)]⟩ :=
    hstart.forth_page rfl rfl hpage rfl
  have hmissed : Polling w plan .forward (forth w₁ plan ⟨.forward, ⟨10, 7, true⟩, 0, .ready⟩)
      ⟨[], [(7, 10)]⟩ := hread.forth_failed
  have hclosed : Polling w plan .forward
      (forth w₁ plan ⟨.forward, ⟨9, maxInt, false⟩, 0, .pausing 1000⟩) ⟨[[(7, 10)]], []⟩ :=
    hmissed.forth_close (by decide) hempty
  have hwaited : Polling w plan .forward
      (forth (w₁.moveTo 1000) plan ⟨.forward, ⟨9, maxInt, false⟩, 0, .pausing 1000⟩)
      ⟨[[(7, 10)]], []⟩ :=
    hclosed.between (m := .wait 1000) (by simp) (.inl rfl)
  have hwritten : Polling w plan .forward
      (forth w₂ plan ⟨.forward, ⟨9, maxInt, false⟩, 0, .pausing 1000⟩) ⟨[[(7, 10)]], []⟩ :=
    hwaited.between (m := .write .src later) (by simp) (.inr ⟨rfl, hlater.pollable (by decide)⟩)
  have hrun : Polling w plan .forward (forth w₃ plan ⟨.forward, ⟨10, 3, true⟩, 0, .ready⟩)
      ⟨[[(7, 10)]], [(3, 10)]⟩ :=
    (hwritten.forth_page rfl rfl hthree rfl).forth_failed
  have hrun' : Polling w plan .forward
      (forth w₄ plan ⟨.forward, ⟨10, 7, true⟩, 0, .ready⟩)
      ⟨[[(7, 10)]], [(3, 10), (7, 10)]⟩ :=
    (hrun.forth_page rfl rfl hseven rfl).forth_failed
  have hreading : (forth w₄ plan ⟨.forward, ⟨10, 7, true⟩, 0, .ready⟩).reading .forward = .ok [] :=
    forth_reading [] rfl hend
  obtain ⟨t, ht, hpollable⟩ := hfirst.pollable (by decide)
  obtain ⟨_, hcycles⟩ := polling_cycles_read_what_is_due (p := p) (n := 0) rfl (by decide)
    (by decide) ht
    hpollable hrun'
  refine ⟨_, hrun', hlater, hreading, fun f => ?_⟩
  exact ((hcycles rfl rfl hreading).2 f).1

end DualWrite
