import DualWrite.Proofs.Validation.Ascent

/-!
# What a full scan makes of every id

Once the cursor of a scan has passed an id, either the id is held in the page at hand or the scan
has settled it: what it has sent about the id is what the two stores differ in at some moment. At
the end of the scan every id is settled.
-/
namespace DualWrite.Scan

section
variable (p : Plan) (side : Side) (i : Int) (b : View) (seen : View → Prop)

/-- The id is still to be looked up: `b` is what the base holds under it, `seen` what the target
has held. -/
def Awaits (s : Scan) : Prop :=
  match s.phase with
  | .comparing rows _ => ∃ r ∈ rows, r.id = i ∧ b = some (.ok r)
  | .checking ids chunks present => i ∈ ids ∧ (∃ t, seen t ∧ t.isSome) ∧ (i ∈ present → b.isSome) ∧
      (i ∈ chunks.flatten ∨ (b.isSome → i ∈ present))
  | _ => False

/-- What the scan has sent or found about the id is all that it will. -/
def Settled (out : List Event) (s : Scan) : Prop :=
  i ∉ s.toFind.map (·.id) ∧ i ∉ s.toCheck ∧ ∃ t, seen t ∧
    (out ++ s.found).filter (·.id = i) = (p.verdict i b t).filter (side.reports ·.kind)

/-- A scan that has passed the id awaits it or has settled it. -/
def Met (out : List Event) (s : Scan) : Prop :=
  i ≤ s.cursor.id ∨ s.isEnded = true → Awaits i b seen s ∨ Settled p side i b seen out s

end

variable {p : Plan} {side : Side} {i : Int} {b : View} {seen : View → Prop} {out : List Event}
  {s s' : Scan}

theorem met_start (hp : p.mode = .full) (hi : minInt < i) :
    Met p side i b seen [] (start p side) := by
  rintro (h | h)
  · simp [start, Cursor.start, hp] at h
    omega
  · cases h

theorem Met.mono {seen' : View → Prop} (h : Met p side i b seen out s)
    (hs : ∀ t, seen t → seen' t) : Met p side i b seen' out s := by
  intro hm
  rcases h hm with ha | ⟨hf, hc, t, ht, he⟩
  · left
    unfold Awaits at ha ⊢
    split at ha
    · exact ha
    · obtain ⟨hid, ⟨t, ht, hsome⟩, hrest⟩ := ha
      exact ⟨hid, ⟨t, hs t ht, hsome⟩, hrest⟩
    · exact ha
  · exact .inr ⟨hf, hc, t, hs t ht, he⟩

theorem filter_events (k : Event.Kind) {ids : List Int} (h : ids.Nodup) :
    (ids.map (p.event k)).filter (·.id = i) = if i ∈ ids then [p.event k i] else [] := by
  have hpred : ((fun e : Event => decide (e.id = i)) ∘ p.event k) = (· == i) := by
    funext j
    rw [Function.comp_apply, Bool.eq_iff_iff, decide_eq_true_eq, beq_iff_eq]
    rfl
  rw [List.filter_map, hpred, List.filter_beq, h.count]
  split <;> rfl

theorem not_awaits_of_ready (hr : s.phase = .ready) : ¬ Awaits i b seen s := by
  simp [Awaits, hr]

/-- Nothing has been sent about an id that the cursor has not reached. -/
theorem Sound.filter_above (hs : Sound p side out s) (hi : s.cursor.id < i) :
    (out ++ s.found).filter (·.id = i) = [] := by
  rw [List.filter_eq_nil_iff]
  intro e he hid
  have hle := (hs.within e.id (List.mem_append_left _
    (List.mem_append_left _ (List.mem_map.2 ⟨e, he, rfl⟩)))).2
  have : e.id = i := by simpa using hid
  omega

/-- The page at hand leaves the id out: it stays as settled as it was. -/
theorem Settled.keep {out' : List Event} (h : Settled p side i b seen out s)
    (hf : i ∉ s'.toFind.map (·.id)) (hc : i ∉ s'.toCheck)
    (he : (out' ++ s'.found).filter (·.id = i) = (out ++ s.found).filter (·.id = i)) :
    Settled p side i b seen out' s' := by
  obtain ⟨_, _, t, ht, h⟩ := h
  exact ⟨hf, hc, t, ht, he.trans h⟩

theorem Met.observe (h : Met p side i b seen out s) (now : Nat) :
    Met p side i b seen out (s.observe false now) := by
  rcases observe_false now s with he | ⟨⟨t, hr⟩, he⟩
  · rwa [he]
  · rw [he]
    intro hmet
    rcases h (hmet.imp_right (by simp [isEnded])) with ha | hsettled
    · simp [Awaits, hr] at ha
    · exact .inr (hsettled.keep (by simp [toFind]) (by simp [toCheck]) (by simp [found, hr]))

section Turns
variable {st : Direction → Store} {now : Nat}
variable (hk : ∀ d, (st d).Keyed) (hbase : (st p.base).entity? i = b)
  (hseen : seen ((st p.base.other).entity? i)) (hs : Sound p side out s)
  (h : Met p side i b seen out s)
include hk hbase hseen hs h

theorem met_page (hb : 1 ≤ p.batch) (hside : s.side = .forward) (hr : s.phase = .ready)
    {rows : List Interactive} {last : Interactive}
    (hpage : (Source.ofStore (st p.base)).page .full p.batch s.cursor = .ok rows)
    (hlast : rows.getLast? = some last) :
    Met p side i b seen out { s with
      failures := 0
      cursor := s.cursor.advance last.uTime last.id
      phase := .comparing rows [] } := by
  obtain ⟨hstretch, hrows⟩ := Store.page_ok (hk p.base) hb hpage
  have hforward : side = .forward := hs.own ▸ hside
  intro hmet
  have hle : i ≤ last.id := hmet.resolve_right (by simp [isEnded])
  by_cases hold : i ≤ s.cursor.id
  · right
    have hsettled := (h (.inl hold)).resolve_left (not_awaits_of_ready hr)
    refine hsettled.keep ?_ (by simp [toCheck]) (by simp [found, hr])
    intro hin
    have := hstretch.behind i (by simpa [toFind] using hin)
    omega
  · have habove : s.cursor.id < i := by omega
    cases b with
    | none =>
      right
      refine ⟨?_, by simp [toCheck], _, hseen, ?_⟩
      · intro hin
        have := hstretch.present i (by simpa [toFind] using hin)
        simp [hbase] at this
      · rw [hforward, verdict_forward_none]
        simpa [found, hr] using hs.filter_above habove
    | some x =>
      left
      have hin : i ∈ rows.map (·.id) := by
        refine hstretch.gapless i habove (by simp [hbase]) ?_
        intro j hj
        rw [List.getLast?_map, hlast, Option.map_some, Option.some.injEq] at hj
        omega
      obtain ⟨r, hr, rfl⟩ := List.mem_map.1 hin
      exact ⟨r, hr, rfl, hbase ▸ hrows r hr⟩

omit hbase in
theorem met_keys (hb : 1 ≤ p.batch) (hside : s.side = .reverse) (hr : s.phase = .ready)
    {ks : List (Int × Int)} {last : Int × Int}
    (hkeys : (Source.ofStore (st p.base.other)).keys .full p.batch s.cursor = .ok ks)
    (hlast : ks.getLast? = some last) :
    Met p side i b seen out { s with
      failures := 0, cursor := s.cursor.advance last.2 last.1,
      phase := .checking (ks.map (·.1)) (chunks chunkSize (ks.map (·.1))) [] } := by
  have hstretch := Store.keys_ok (hk p.base.other) hb hkeys
  have hreverse : side = .reverse := hs.own ▸ hside
  intro hmet
  have hle : i ≤ last.1 := hmet.resolve_right (by simp [isEnded])
  by_cases hold : i ≤ s.cursor.id
  · right
    have hsettled := (h (.inl hold)).resolve_left (not_awaits_of_ready hr)
    refine hsettled.keep (by simp [toFind]) ?_ (by simp [found, hr])
    intro hin
    have := hstretch.behind i hin
    omega
  · have habove : s.cursor.id < i := by omega
    rcases ht : (st p.base.other).entity? i with _ | x
    · right
      refine ⟨by simp [toFind], ?_, _, hseen, ?_⟩
      · intro hin
        have := hstretch.present i hin
        simp [ht] at this
      · rw [ht, hreverse, verdict_reverse_absent]
        simpa [found, hr] using hs.filter_above habove
    · left
      have hin : i ∈ ks.map (·.1) := by
        refine hstretch.gapless i habove (by simp [ht]) ?_
        intro j hj
        rw [List.getLast?_map, hlast, Option.map_some, Option.some.injEq] at hj
        omega
      exact ⟨hin, ⟨_, hseen, by simp [ht]⟩, by simp, .inl (by rwa [flatten_chunks])⟩

omit hk hbase in
/-- A scan that finds nothing more behind its cursor has settled every id. -/
theorem met_drained (hi : p.interval = 0) (hr : s.phase = .ready)
    (hrest : s.cursor.id < i → (p.verdict i b ((st p.base.other).entity? i)).filter
      (side.reports ·.kind) = []) :
    Met p side i b seen out (({ s with failures := 0 } : Scan).drained p now) := by
  have hdrained : ({ s with failures := 0 } : Scan).drained p now =
      ({ s with failures := 0 } : Scan).endWith (.ok ()) := by simp [drained, hi]
  rw [hdrained]
  intro _
  right
  by_cases hold : i ≤ s.cursor.id
  · have hsettled := (h (.inl hold)).resolve_left (not_awaits_of_ready hr)
    exact hsettled.keep (by simp [toFind, endWith]) (by simp [toCheck, endWith])
      (by simp [found, endWith, hr])
  · have habove : s.cursor.id < i := by omega
    refine ⟨by simp [toFind, endWith], by simp [toCheck, endWith], _, hseen, ?_⟩
    rw [hrest habove]
    simpa [found, endWith, hr] using hs.filter_above habove

theorem met_find {row : Interactive} {rows : List Interactive} {held : List Event}
    {other : Option Interactive} (hphase : s.phase = .comparing (row :: rows) held)
    (hfind : (Source.ofStore (st (p.asked s.side))).find row.id = .ok other) :
    Met p side i b seen out (s.compared rows (held ++ difference p row other)) := by
  have hfound : s.found = held := by simp [found, hphase]
  have htofind : s.toFind = row :: rows := by simp [toFind, hphase]
  have hcheck : s.toCheck = [] := by simp [toCheck, hphase]
  have hforward : side = .forward := hs.forward_of_finds (by simp [htofind])
  have hasked : p.asked s.side = p.base.other := by rw [hs.own, hforward]; rfl
  have hview := Store.find_ok (hk _) hfind
  rw [hasked] at hview
  have hascending := hs.ascending
  rw [trail, hfound, htofind, hcheck, List.append_nil, List.map_cons,
    List.pairwise_append] at hascending
  obtain ⟨_, hrows, hbefore⟩ := hascending
  obtain ⟨hafter, _⟩ := List.pairwise_cons.1 hrows
  have hnotin : row.id ∉ rows.map (·.id) := fun hin => Int.lt_irrefl _ (hafter _ hin)
  intro hmet
  have hmet : Awaits i b seen s ∨ Settled p side i b seen out s := by
    refine h (hmet.imp_left ?_ |>.imp_right ?_) <;> simp
  by_cases hid : i = row.id
  · right
    subst hid
    have hb : b = some (.ok row) := by
      rcases hmet with ha | ⟨hf, _⟩
      · simp only [Awaits, hphase] at ha
        obtain ⟨r, hr, hrid, hb⟩ := ha
        rcases List.mem_cons.1 hr with rfl | hr
        · exact hb
        · exact absurd (List.mem_map.2 ⟨r, hr, hrid⟩) hnotin
      · simp [htofind] at hf
    refine ⟨by simpa using hnotin, by simp, _, hseen, ?_⟩
    have hearlier : (out ++ held).filter (·.id = row.id) = [] := by
      rw [List.filter_eq_nil_iff]
      intro e he hid
      have := hbefore e.id (List.mem_map.2 ⟨e, he, rfl⟩) row.id List.mem_cons_self
      simp at hid
      omega
    have hall : (difference p row other).filter (·.id = row.id) = difference p row other := by
      rw [List.filter_eq_self]
      intro e he
      rw [(mem_difference he).1]
      simp [Plan.event]
    rw [compared_found, ← List.append_assoc, List.filter_append, hearlier, hall, List.nil_append,
      difference_eq, ← hview, hb, hforward, verdict_forward_some]
  · rcases hmet with ha | hsettled
    · left
      simp only [Awaits, hphase] at ha
      obtain ⟨r, hr, hrid, hb⟩ := ha
      have hr : r ∈ rows := (List.mem_cons.1 hr).resolve_left fun he => hid (by rw [← hrid, he])
      rw [compared, if_neg (List.ne_nil_of_mem hr)]
      exact ⟨r, hr, hrid, hb⟩
    · right
      have hnone : (difference p row other).filter (·.id = i) = [] := by
        rw [List.filter_eq_nil_iff]
        intro e he
        rw [(mem_difference he).1]
        simp [Plan.event, Ne.symm hid]
      refine hsettled.keep ?_ (by simp) (by simp [hfound, List.filter_append, hnone])
      intro hin
      rw [compared_toFind] at hin
      exact hsettled.1 (by rw [htofind]; exact List.mem_cons_of_mem _ hin)

omit hseen in
theorem met_present {ids chunk there more : List Int} {chunks : List (List Int)}
    (hphase : s.phase = .checking ids (chunk :: chunks) there)
    (hpresent : (Source.ofStore (st (p.asked s.side))).present chunk = .ok more) :
    Met p side i b seen out (s.checked p ids chunks (there ++ more)) := by
  have hfound : s.found = [] := by simp [found, hphase]
  have hfind : s.toFind = [] := by simp [toFind, hphase]
  have hcheck : s.toCheck = ids := by simp [toCheck, hphase]
  intro hmet
  have hmet : Awaits i b seen s ∨ Settled p side i b seen out s := by
    refine h (hmet.imp_left ?_ |>.imp_right ?_) <;> simp
  have hascending := hs.ascending
  rw [trail, hfound, hfind, hcheck, List.append_nil, List.map_nil, List.append_nil,
    List.pairwise_append] at hascending
  obtain ⟨_, hids, hbefore⟩ := hascending
  have hnodup : ids.Nodup := hids.imp Int.ne_of_lt
  rcases hmet with ha | hsettled
  · simp only [Awaits, hphase] at ha
    obtain ⟨hin, ⟨t, ht, hsome⟩, hthere, hleft⟩ := ha
    have hreverse : side = .reverse := hs.reverse_of_checks (hcheck ▸ List.ne_nil_of_mem hin)
    have hasked : p.asked s.side = p.base := by
      rw [hs.own, hreverse, Plan.asked, Plan.scanned]
      cases p.base <;> rfl
    have hmore : i ∈ more ↔ i ∈ chunk ∧ b.isSome := by
      rw [Store.mem_present (hk _) hpresent, hasked, hbase]
    by_cases hc : chunks = []
    · right
      have hknown : i ∈ there ++ more ↔ b.isSome := by
        rw [List.mem_append, hmore]
        simp only [hc, List.flatten_cons, List.flatten_nil, List.append_nil] at hleft
        grind
      refine ⟨by simp, by simp [hc], t, ht, ?_⟩
      have hearlier : out.filter (·.id = i) = [] := by
        rw [List.filter_eq_nil_iff]
        intro e he hid
        have := hbefore e.id (List.mem_map.2 ⟨e, he, rfl⟩) i hin
        simp at hid
        omega
      rw [checked_found, if_pos hc, List.filter_append, hearlier, filter_events _ (hnodup.filter _),
        List.nil_append, hreverse]
      obtain ⟨x, rfl⟩ := Option.isSome_iff_exists.1 hsome
      cases b with
      | none =>
        rw [if_pos (List.mem_filter.2 ⟨hin, by simpa using hknown⟩), verdict_reverse_none]
        rfl
      | some y =>
        rw [if_neg (by simp at hknown; simp [List.mem_filter]; grind), verdict_reverse_some]
    · left
      rw [checked, if_neg hc]
      refine ⟨hin, ⟨t, ht, hsome⟩, ?_, ?_⟩
      · rw [List.mem_append, hmore]
        grind
      · rw [List.mem_append, hmore]
        rw [List.flatten_cons, List.mem_append] at hleft
        grind
  · right
    have hnotin : i ∉ ids := hcheck ▸ hsettled.2.1
    refine hsettled.keep (by simp) ?_ ?_
    · rw [checked_toCheck]
      split
      · simp
      · exact hnotin
    · rw [checked_found, hfound]
      split
      · rw [List.filter_append, filter_events _ (hnodup.filter _),
          if_neg fun hin => hnotin (List.mem_filter.1 hin).1, List.append_nil, List.append_nil]
      · rfl

/-- A turn of a full scan in which nothing fails keeps every id met. -/
theorem Met.turn (hp : p.mode = .full) (hi : p.interval = 0) (hb : 1 ≤ p.batch) {es : List Event}
    {ns : List Notice} (hn : ns = [])
    (ht : Turn p (fun d => Source.ofStore (st d)) now s es ns s') :
    Met p side i b seen (out ++ es) s' := by
  cases ht with
  | idle => simpa using h
  | page hside hphase hpage hlast =>
    rw [List.append_nil]
    exact met_page hk hbase hseen hs h hb hside hphase (hp ▸ hpage) hlast
  | keys hside hphase hkeys hlast =>
    rw [List.append_nil]
    exact met_keys hk hseen hs h hb hside hphase (hp ▸ hkeys) hlast
  | pageDrained hside hphase hpage =>
    rw [List.append_nil]
    refine met_drained hseen hs h hi hphase fun habove => ?_
    have hnone := (Store.page_ok (hk p.base) hb (hp ▸ hpage)).1.eq_none habove
    rw [← hs.own, hside, ← hbase, hnone, verdict_forward_none]
  | keysDrained hside hphase hkeys =>
    rw [List.append_nil]
    refine met_drained hseen hs h hi hphase fun habove => ?_
    have hnone := (Store.keys_ok (hk p.base.other) hb (hp ▸ hkeys)).eq_none habove
    rw [← hs.own, hside, hnone, verdict_reverse_absent]
  | pageFailed | keysFailed => exact absurd hn (backOff_reports _ _)
  | find hphase hfind =>
    rw [List.append_nil]
    exact met_find hk hbase hseen hs h hphase hfind
  | present hphase hpresent =>
    rw [List.append_nil]
    exact met_present hk hbase hs h hphase hpresent
  | findFailed | presentFailed => cases hn
  | @publish e es hphase =>
    have hfound : s.found = e :: es := by simp [found, hphase]
    intro hmet
    have hmet := h (hmet.imp_right (by simp))
    rcases hmet with ha | hsettled
    · simp [Awaits, hphase] at ha
    · exact .inr (hsettled.keep (by simp) (by simp) (by simp [hfound]))

end Turns

end DualWrite.Scan

namespace DualWrite.Scene
open Scan
variable {w : World} {p : Plan} {x : Scene}

def told (w : World) (x : Scene) (side : Side) : List Event :=
  (x.news w).filter (side.reports ·.kind)

/-- What one side sends comes behind what it has sent, and the other side sends nothing. -/
theorem told_append {y : Scene} {side : Side} {es : List Event} (hnews : y.news w = x.news w ++ es)
    (hkind : ∀ e ∈ es, side.reports e.kind = true) :
    y.told w side = x.told w side ++ es ∧ ∀ other ≠ side, y.told w other = x.told w other := by
  constructor
  · rw [told, hnews, List.filter_append, List.filter_eq_self.2 hkind, told]
  · intro other ho
    have hnone : es.filter (other.reports ·.kind) = [] := by
      rw [List.filter_eq_nil_iff]
      intro e he hcontra
      have := hkind e he
      cases side <;> cases other <;> simp_all [Side.reports]
    rw [told, hnews, List.filter_append, hnone, List.append_nil, told]

def Orderly (w : World) (p : Plan) (x : Scene) : Prop :=
  ∀ side, Sound p side (x.told w side) (x.validation.scan side)

theorem orderly_start (hp : p.mode = .full) : Orderly w p (start w p) := by
  intro side
  have hnews : (start w p).news w = [] := by simp [start, news]
  rw [told, hnews]
  cases side <;> exact sound_start hp _

/-- A move that is no turn leaves the validation and its events as they are. -/
theorem move_still {m : Move} (hm : ∀ side, m ≠ .scan side) :
    (x.move m).validation = x.validation ∧ (x.move m).world.events = x.world.events := by
  cases m with
  | scan side => exact absurd rfl (hm side)
  | consume n => exact ⟨rfl, (x.world.stepConsumer_frame n).2.1⟩
  | _ => exact ⟨rfl, rfl⟩

/-- A turn as the scans see it: one side moves and sends, the other stays. -/
theorem Calm.turn (h : Calm w p x) (hs : Orderly w p x) (hp : p.mode = .full) (hb : 1 ≤ p.batch)
    (side : Side) (hr : x.validation.result? = none) :
    ∃ es ns s, Turn p x.world.source x.world.clock
      ((x.validation.scan side).observe false x.world.clock)
        es ns s ∧
      (x.move (.scan side)).world.notices = x.world.notices ++ ns ∧
      (x.move (.scan side)).validation = x.validation.setScan s side ∧
      Sound p side (x.told w side ++ es) s ∧
      (x.move (.scan side)).told w side = x.told w side ++ es ∧
      ∀ other ≠ side, (x.move (.scan side)).told w other = x.told w other := by
  obtain ⟨es, ns, s, turn, hm⟩ := h.move_scan side hr
  have hobserved : x.observed side = (x.validation.scan side).observe false x.world.clock := by
    rw [observed, h.uncancelled]
  rw [hobserved] at turn
  have hsound : Sound p side (x.told w side ++ es) s :=
    ((hs side).observe x.world.clock).turn hp hb h.keyed turn
  have hnews : (x.move (.scan side)).news w = x.news w ++ es := h.news_append (by rw [hm]; rfl)
  have hkind : ∀ e ∈ es, side.reports e.kind = true := fun e he =>
    (hsound.labelled e (List.mem_append_left _ (List.mem_append_right _ he))).2
  exact ⟨es, ns, s, turn, by rw [hm]; rfl, by rw [hm], hsound, told_append hnews hkind⟩

theorem Orderly.move (hs : Orderly w p x) (h : Calm w p x) (hp : p.mode = .full)
    (hb : 1 ≤ p.batch) (m : Move) : Orderly w p (x.move m) := by
  by_cases hm : ∀ side, m ≠ .scan side
  · obtain ⟨hv, he⟩ := move_still (x := x) hm
    intro side
    rw [told, news, he, hv]
    exact hs side
  · push Not at hm
    obtain ⟨side, rfl⟩ := hm
    by_cases hr : x.validation.result?.isSome
    · rw [Scene.move_ended side hr]
      exact hs
    · obtain ⟨es, ns, s, _, _, hv, hsound, htold, hothers⟩ :=
        h.turn hs hp hb side (by simpa using hr)
      rw [Orderly, hv]
      refine Validation.forall_setScan
        (P := fun other s => Sound p other ((x.move (.scan side)).told w other) s) ?_ ?_
      · rw [htold]
        exact hsound
      · intro other ho
        rw [hothers other ho]
        exact hs other

def Surveyed (w : World) (p : Plan) (i : Int) (b : View) (seen : View → Prop) (x : Scene) : Prop :=
  ∀ side, Met p side i b seen (x.told w side) (x.validation.scan side)

theorem surveyed_start {i : Int} {b : View} {seen : View → Prop} (hp : p.mode = .full)
    (hi : minInt < i) : Surveyed w p i b seen (start w p) := by
  intro side
  have hnews : (start w p).news w = [] := by simp [start, news]
  rw [told, hnews]
  cases side <;> exact met_start hp hi

theorem Surveyed.move {i : Int} {b : View} {seen : View → Prop} (hm : Surveyed w p i b seen x)
    (h : Calm w p x) (hs : Orderly w p x) (hp : p.mode = .full) (hi : p.interval = 0)
    (hb : 1 ≤ p.batch) (hbase : (x.world.store p.base).entity? i = b)
    (hseen : seen ((x.world.store p.base.other).entity? i)) (m : Move)
    (hn : (x.move m).world.notices = x.world.notices) : Surveyed w p i b seen (x.move m) := by
  by_cases hstill : ∀ side, m ≠ .scan side
  · obtain ⟨hv, he⟩ := move_still (x := x) hstill
    intro side
    rw [told, news, he, hv]
    exact hm side
  · push Not at hstill
    obtain ⟨side, rfl⟩ := hstill
    by_cases hr : x.validation.result?.isSome
    · rw [Scene.move_ended side hr]
      exact hm
    · obtain ⟨es, ns, s, turn, hnotices, hv, _, htold, hothers⟩ :=
        h.turn hs hp hb side (by simpa using hr)
      have hns : ns = [] := by simpa [hn] using hnotices
      rw [Surveyed, hv]
      refine Validation.forall_setScan
        (P := fun other s => Met p other i b seen ((x.move (.scan side)).told w other) s) ?_ ?_
      · rw [htold]
        exact ((hm side).observe _).turn h.keyed hbase hseen ((hs side).observe _) hp hi hb hns turn
      · intro other ho
        rw [hothers other ho]
        exact hm other

end DualWrite.Scene

namespace DualWrite

/-- One pass over full tables that nobody cancels. Anyone may write meanwhile, as long as ids stay
keys. -/
structure FullPass (w : World) (p : Plan) (moves : List Move) : Prop where
  full : p.mode = .full
  once : p.interval = 0
  batch : 1 ≤ p.batch
  tripwires : w.tripwires = []
  keyed : ∀ d, (w.store d).Keyed
  uncancelled : .cancel ∉ moves
  written : ∀ d s, .write d s ∈ moves → s.Keyed

namespace FullPass
open Scene
variable {w : World} {p : Plan} {moves : List Move} (h : FullPass w p moves)
include h

theorem calm : ∀ pre, pre <+: moves → Calm w p ((start w p).run pre) :=
  calm_run h.tripwires h.keyed h.uncancelled h.written

theorem orderly : ∀ pre, pre <+: moves → Orderly w p ((start w p).run pre) := by
  refine at_every_moment (orderly_start h.full) fun pre m hpre hs => ?_
  rw [run_concat]
  exact hs.move (h.calm pre ((List.prefix_append _ _).trans hpre)) h.full h.batch m

theorem ascending (side : Side) :
    ((((start w p).run moves).told w side).map (·.id)).Pairwise (· < ·) :=
  ((h.orderly moves (List.prefix_refl _)) side).ascending.sublist
  (by simp [Scan.trail, List.append_assoc])

/-- A pass that ends well, with nothing failed, has reported of an id whose base row stood still
what the two stores differed in at some moment. -/
theorem survey (hn : ((start w p).run moves).world.notices = w.notices)
    (hok : ((start w p).run moves).validation.result? = some (.ok ())) {i : Int} (hi : minInt < i)
    {b : View} (hbase : ∀ pre, pre <+: moves →
      (((start w p).run pre).world.store p.base).entity? i = b) :
    ∃ pre, pre <+: moves ∧ (((start w p).run moves).news w).filter (·.id = i) =
      p.verdict i b ((((start w p).run pre).world.store p.base.other).entity? i) := by
  let seen (pre : List Move) (t : View) : Prop :=
    ∃ q, q <+: pre ∧ (((start w p).run q).world.store p.base.other).entity? i = t
  have hnotices := notices_eq h.calm hn
  have hsurveyed : ∀ pre, pre <+: moves → Surveyed w p i b (seen pre) ((start w p).run pre) := by
    refine at_every_moment (surveyed_start h.full hi) fun pre m hpre hs => ?_
    have hbefore : pre <+: moves := (List.prefix_append _ _).trans hpre
    have hgrown : Surveyed w p i b (seen (pre ++ [m])) ((start w p).run pre) := fun side =>
      (hs side).mono fun t ⟨q, hq, ht⟩ => ⟨q, hq.trans (List.prefix_append _ _), ht⟩
    rw [run_concat]
    refine hgrown.move (h.calm pre hbefore) (h.orderly pre hbefore) h.full h.once h.batch
      (hbase pre hbefore) ⟨pre, List.prefix_append _ _, rfl⟩ m ?_
    rw [← run_concat, hnotices _ hpre, hnotices _ hbefore]
  have hsettled : ∀ side : Side, ∃ pre, pre <+: moves ∧
      ((((start w p).run moves).news w).filter (·.id = i)).filter (side.reports ·.kind) =
        (p.verdict i b ((((start w p).run pre).world.store p.base.other).entity? i)).filter
          (side.reports ·.kind) := by
    intro side
    have hphase := Validation.result?_eq_ok _ |>.1 hok side
    rcases hsurveyed moves (List.prefix_refl _) side
      (.inr (by simp [Scan.isEnded, hphase])) with ha | hs
    · simp [Scan.Awaits, hphase] at ha
    · obtain ⟨_, _, _, ⟨pre, hpre, rfl⟩, he⟩ := hs
      refine ⟨pre, hpre, ?_⟩
      rw [List.filter_comm, ← he]
      simp [told, Scan.found, hphase]
  obtain ⟨prf, hprf, hf⟩ := hsettled .forward
  obtain ⟨prr, hprr, hr⟩ := hsettled .reverse
  cases b with
  | none =>
    rw [verdict_forward_none] at hf
    rw [verdict_reverse_none] at hr
    refine ⟨prr, hprr, ?_⟩
    rw [← hr, eq_comm, List.filter_eq_self]
    intro e he
    simpa [Side.reports] using List.filter_eq_nil_iff.1 hf e he
  | some x =>
    rw [verdict_forward_some] at hf
    rw [verdict_reverse_some] at hr
    refine ⟨prf, hprf, ?_⟩
    rw [← hf, eq_comm, List.filter_eq_self]
    intro e he
    simpa [Side.reports] using List.filter_eq_nil_iff.1 hr e he

end FullPass
end DualWrite
