import DualWrite.Proofs.Validation.Standing
import Mathlib.Data.List.Pairwise

/-!
# Failures stay where they happen

A look-up of a row that fails costs the event of that row, a chunk of a page that fails costs the
events of that page, and a publication that fails costs its own event. Everything else is sent as if
nothing had failed, and in the same order. Each of these failures is reported once, as an error.
-/
namespace DualWrite
open Store Scan Scene

/-- The look-ups for an event of this side pass: that of its row, or those of all chunks of its
page. -/
def Faults.reaches (f : Faults) (pages : List (List Int)) : Side → Event → Bool
  | .forward, e => (f.find e.id).isNone
  | .reverse, e => pages.all fun page =>
    !page.contains e.id || (chunks chunkSize page).all fun c => (f.present c).isNone

theorem append_swap_perm {α : Type} (as bs cs ds : List α) :
    (as ++ bs ++ (cs ++ ds)).Perm (as ++ cs ++ (bs ++ ds)) := by
  rw [List.append_assoc, List.append_assoc]
  exact (List.perm_append_comm_assoc bs cs ds).append_left as

theorem flatMap_ite {α β : Type} {q : α → Bool} {g : α → List β} (xs : List α) :
    xs.flatMap (fun x => if q x then g x else []) = (xs.filter q).flatMap g := by
  induction xs with
  | nil => rfl
  | cons x xs ih =>
    rw [List.flatMap_cons, ih]
    by_cases hx : q x = true
    · rw [if_pos hx, List.filter_cons_of_pos hx, List.flatMap_cons]
    · rw [if_neg hx, List.filter_cons_of_neg hx, List.nil_append]

/-- A failed look-up takes the event of its row, and no other. -/
theorem differences_failing (p : Plan) (s : Source) (f : Faults) (rows : List Interactive) :
    differences p (s.failing f) rows =
      (differences p s rows).filter fun e => (f.find e.id).isNone := by
  have heach : ∀ s, differences p s rows = rows.flatMap fun r => differences p s [r] := by
    intro s
    apply List.flatMap_congr
    intro r _
    rw [differences, List.flatMap_singleton]
  have hone : ∀ r, differences p (s.failing f) [r] =
      if (f.find r.id).isNone then differences p s [r] else [] := by
    intro r
    simp only [differences, List.flatMap_singleton, Source.failing]
    cases f.find r.id <;> rfl
  have hids : ∀ r ∈ rows, ∀ e ∈ differences p s [r], (f.find e.id).isNone =
    (f.find r.id).isNone := by
    intro r _ e he
    rw [differences, List.flatMap_singleton] at he
    split at he
    · rw [(mem_difference he).1]
      rfl
    · cases he
  calc differences p (s.failing f) rows
      = rows.flatMap fun r => if (f.find r.id).isNone then differences p s [r] else [] := by
        rw [heach]
        exact List.flatMap_congr fun r _ => hone r
    _ = (rows.filter fun r => (f.find r.id).isNone).flatMap fun r => differences p s [r] :=
        flatMap_ite rows
    _ = (differences p s rows).filter fun e => (f.find e.id).isNone := by
        rw [heach s]
        exact (filter_flatMap_of hids).symm

/-- A failed page takes the events of its ids, and no others. -/
theorem filter_pages {g : List Int → List Event} (hg : ∀ page, ∀ e ∈ g page, e.id ∈ page)
    (f : Faults) {pages : List (List Int)} (hnodup : pages.flatten.Nodup) :
    (pages.flatMap g).filter (f.reaches pages .reverse) = pages.flatMap fun page =>
      if (chunks chunkSize page).all (fun c => (f.present c).isNone) then g page else [] := by
  rw [flatMap_ite]
  apply filter_flatMap_of
  intro page hpage e he
  have hsymm : Std.Symm (@List.Disjoint Int) := ⟨fun _ _ h _ ha hb => h hb ha⟩
  have honly : ∀ other ∈ pages, e.id ∈ other → other = page := by
    intro other hother hin
    by_contra hne
    exact (List.nodup_flatten.1 hnodup).2.forall hother hpage hne hin (hg page e he)
  rw [Faults.reaches, Bool.eq_iff_iff, List.all_eq_true]
  constructor
  · intro hall
    simpa [hg page e he] using hall page hpage
  · intro hpasses other hother
    by_cases hin : e.id ∈ other
    · rw [honly other hother hin, hpasses, Bool.or_true]
    · simp [hin]

theorem level_of_noticesOf {f : Faults} {p : Plan} {source : Direction → Source} {side : Side}
    {pages : List Page} {notice : Notice} (h : notice ∈ noticesOf f p source side pages) :
    notice.level = .error := by
  rcases List.mem_append.1 h with h | h
  · obtain ⟨page, _, h⟩ := List.mem_flatMap.1 h
    cases page with
    | rows rs =>
      obtain ⟨r, _, h⟩ := List.mem_filterMap.1 h
      split at h <;> cases h
      rfl
    | ids is =>
      rw [Page.failures, presenceFailures] at h
      split at h
      · cases h
      · rw [List.mem_singleton.1 h]
        rfl
  · obtain ⟨e, _, h⟩ := List.mem_filterMap.1 h
    obtain ⟨err, _, rfl⟩ := Option.map_eq_some_iff.1 h
    rfl

namespace Standing
variable {w : World} {p : Plan} {base : List Interactive} {target : List (Int × Int)}

/-- What gets through of a clean pass is what the pass under faults sends. -/
theorem eventsOf_eq (h : Standing w p base target) (f : Faults) (side : Side) :
    eventsOf f p w.source side (p.pages base target side) =
      (eventsOf .none p w.source side (p.pages base target side)).filter
        (f.reaches (chunks p.batch.toNat (target.map (·.1))) side) := by
  cases side with
  | forward =>
    rw [eventsOf_forward, eventsOf_forward]
    exact differences_failing p (w.source (p.asked .forward)) f base
  | reverse =>
    have hnone : ∀ cs : List (List Int), cs.all (fun c => (Faults.none.present c).isNone) = true :=
      fun cs => List.all_eq_true.2 fun _ _ => rfl
    rw [h.eventsOf_reverse, h.eventsOf_reverse]
    simp only [hnone, if_true]
    rw [filter_pages _ f (by rw [flatten_chunks]; exact h.offersTarget.nodup)]
    intro page e he
    obtain ⟨i, hi, rfl⟩ := List.mem_map.1 he
    exact (List.mem_filter.1 hi).1

/-- All that both sides report: the failed look-ups, the failed pages, and the failed
publications. -/
theorem noticesOf_perm (h : Standing w p base target) (f : Faults) :
    (noticesOf f p w.source .forward (p.pages base target .forward) ++
      noticesOf f p w.source .reverse (p.pages base target .reverse)).Perm
      (lookupFailures ((w.source p.base.other).failing f) p.base.other.storeName base ++
        (chunks p.batch.toNat (target.map (·.1))).filterMap (fun page =>
          ((chunks chunkSize page).findSome? f.present).map (.presenceFailed p.base.storeName)) ++
        (eventsOf f p w.source .forward (p.pages base target .forward) ++
          eventsOf f p w.source .reverse (p.pages base target .reverse)).filterMap fun e =>
            (f.publish e).map (.publishFailed e)) := by
  have hlost : ∀ es es' : List Event, (es ++ es').filterMap (fun e =>
      (f.publish e).map (Notice.publishFailed e)) = f.lost es ++ f.lost es' := fun es es' =>
    f.lost_append es es'
  rw [noticesOf_forward, h.noticesOf_reverse, hlost, eventsOf_forward]
  exact append_swap_perm _ _ _ _

/-- An id that the base holds is never reported as missing there. -/
theorem absent_of_told (h : Standing w p base target) {f : Faults} {e : Event}
    (he : e ∈ f.kept (eventsOf f p w.source .reverse (p.pages base target .reverse))) :
    (w.store p.base).entity? e.id = none := by
  have hin := (List.mem_filter.1 he).1
  rw [h.eventsOf_reverse] at hin
  obtain ⟨page, _, hin⟩ := List.mem_flatMap.1 hin
  split at hin
  · obtain ⟨i, hi, rfl⟩ := List.mem_map.1 hin
    exact Option.isNone_iff_eq_none.1 (List.mem_filter.1 hi).2
  · cases hin

end Standing

/-- A pass of either mode over two tables that stand still ends well whatever fails of its look-ups
and publications, as long as what it reads of the tables can be read. Each side sends what it would
send if nothing failed, without the events of the rows, pages and publications that fail. Of each of
these failures there is one notice, an error, and there is no other. -/
theorem failures_cost_their_own_events {w : World} {p : Plan} {n : Int} {f : Faults}
    {base : List Interactive} {target : List (Int × Int)} {turns clean : List Side}
    (honce : p.interval = 0) (htripwires : w.tripwires = [])
    (hbase : (w.store p.base).Offers p.mode (.start p.mode p.watermark) Table.entity base)
    (htarget : (w.store p.base.other).Offers p.mode (.start p.mode p.watermark) Table.stamp target)
    (hforward : 4 * base.length < min (turns.count .forward) (clean.count .forward))
    (hreverse : 4 * target.length < min (turns.count .reverse) (clean.count .reverse)) :
    let pages := chunks (max n 1).toNat (target.map (·.1))
    let x := (start w (p.withBatch n)).runUnder f turns
    let y := (start w (p.withBatch n)).run (clean.map .scan)
    let reached side := (y.told w side).filter (f.reaches pages side)
    x.validation.result? = some (.ok ()) ∧ y.validation.result? = some (.ok ()) ∧
      ((∀ r ∈ base, ∃ other, (w.source p.base.other).find r.id = .ok other) →
        y.world.notices = w.notices) ∧
      (∀ side, x.told w side = (reached side).filter fun e => (f.publish e).isNone) ∧
      (∀ e ∈ x.told w .reverse, (w.store p.base).entity? e.id = none) ∧
      ∃ ns, x.world.notices = w.notices ++ ns ∧ (∀ notice ∈ ns, notice.level = .error) ∧
        ns.Perm (lookupFailures ((w.source p.base.other).failing f) p.base.other.storeName base ++
          pages.filterMap (fun page => ((chunks chunkSize page).findSome? f.present).map
            (.presenceFailed p.base.storeName)) ++
          (reached .forward ++ reached .reverse).filterMap fun e =>
            (f.publish e).map (.publishFailed e)) := by
  intro pages x y reached
  have h : Standing w (p.withBatch n) base target :=
    ⟨honce, Int.le_max_right _ _, hbase, htarget⟩
  have hturns : 4 * base.length < turns.count .forward ∧
    4 * target.length < turns.count .reverse := by
    omega
  have hclean : 4 * base.length < clean.count .forward ∧
    4 * target.length < clean.count .reverse := by
    omega
  obtain ⟨hok, _, htold, ns, hns, hperm⟩ := h.run f hturns.1 hturns.2
  obtain ⟨hok', _, htold', ns', hns', hperm'⟩ := h.run .none hclean.1 hclean.2
  rw [runUnder_none htripwires] at hok' htold' hns'
  have hreached : ∀ side, reached side =
      eventsOf f (p.withBatch n) w.source side ((p.withBatch n).pages base target side) := by
    intro side
    rw [h.eventsOf_eq f side, ← Faults.kept_none (eventsOf .none _ _ side _), ← htold' side]
    rfl
  refine ⟨hok, hok', ?_, ?_, ?_, ns, hns, ?_, ?_⟩
  · intro hfind
    rw [h.noticesOf_none hfind, h.noticesOf_none hfind] at hperm'
    rw [show y.world.notices = w.notices ++ ns' from hns', hperm'.eq_nil, List.append_nil]
  · intro side
    rw [htold, hreached]
    rfl
  · intro e he
    rw [htold] at he
    exact h.absent_of_told he
  · intro notice hnotice
    rw [hperm.mem_iff, List.mem_append] at hnotice
    exact hnotice.elim level_of_noticesOf level_of_noticesOf
  · rw [hreached, hreached]
    exact hperm.trans (h.noticesOf_perm f)

/-- One failure of each kind: the look-up of a row, a page of the reverse scan, a publication of
each side. -/
theorem failures_of_each_kind :
    let e : Error := .other "timeout"
    let f : Faults := ⟨fun i => if i = 1 then some e else none,
      fun ids => if ids = [3, 5] then some e else none,
      fun event => if event.id = 2 ∨ event.id = 6 then some e else none⟩
    let w := World.ofStores (.ofEntities "src" [.plain 1 0, .plain 2 0, .plain 3 0, .plain 4 0])
      (.ofEntities "dst" [.plain 3 7, .plain 5 0, .plain 6 0, .plain 7 0])
    let turns := List.replicate 17 Side.forward ++ List.replicate 17 .reverse
    let x := (start w ((Plan.whole .src).withBatch 2)).runUnder f turns
    x.validation.result? = some (.ok ()) ∧
      x.told w .forward = [⟨3, "SRC", .unequal⟩, ⟨4, "SRC", .targetMissing⟩] ∧
      x.told w .reverse = [⟨7, "SRC", .baseMissing⟩] ∧
      x.world.notices.Perm [.lookupFailed 1 "dst" e, .presenceFailed "src" e,
        .publishFailed ⟨2, "SRC", .targetMissing⟩ e,
        .publishFailed ⟨6, "SRC", .baseMissing⟩ e] := by
  intro e f w turns x
  let base : List Interactive := [.plain 1 0, .plain 2 0, .plain 3 0, .plain 4 0]
  let target : List Interactive := [.plain 3 7, .plain 5 0, .plain 6 0, .plain 7 0]
  have hbase : (w.store .src).Holds base := Store.holds_ofEntities _ (by decide)
  have htarget : (w.store .dst).Holds target := Store.holds_ofEntities _ (by decide)
  have hoffers : (w.store .src).Offers .full (.start .full 0) Table.entity base := hbase.offers _
  have hkeys : (w.store .dst).Offers .full (.start .full 0) Table.stamp
      (target.map fun e => (e.id, e.uTime)) := (htarget.offers (.start .full 0)).stamps
  have hstanding : Standing w ((Plan.whole .src).withBatch 2) base
      (target.map fun e => (e.id, e.uTime)) := ⟨rfl, by decide, hoffers, hkeys⟩
  have hturns : 4 * 4 < turns.count .forward ∧ 4 * 4 < turns.count .reverse := by decide
  have hforward : 4 * base.length < min (turns.count .forward) (turns.count .forward) := by decide
  have hreverse : 4 * (target.map fun e => (e.id, e.uTime)).length <
      min (turns.count .reverse) (turns.count .reverse) := by decide
  let y := (start w ((Plan.whole .src).withBatch 2)).run (turns.map .scan)
  obtain ⟨_, _, _, hf, hr⟩ := hstanding.clean rfl hbase htarget hturns.1 hturns.2
  obtain ⟨hok, _, _, htold, _, ns, hns, _, hperm⟩ := failures_cost_their_own_events
    (p := .whole .src) (n := 2) (f := f) rfl rfl hoffers hkeys hforward hreverse
  have hpages : chunks (max (2 : Int) 1).toNat ((target.map fun e => (e.id, e.uTime)).map (·.1)) =
      [[3, 5], [6, 7]] := by
    simp [chunks, target, Interactive.plain]
  have hchunks : chunks chunkSize [(3 : Int), 5] = [[3, 5]] ∧
      chunks chunkSize [(6 : Int), 7] = [[6, 7]] := by
    simp [chunks, chunkSize]
  have hrows : f.reaches [[3, 5], [6, 7]] .forward = fun event => decide (event.id ≠ 1) := by
    funext event
    by_cases hid : event.id = 1 <;> simp [Faults.reaches, f, hid]
  have hids : f.reaches [[3, 5], [6, 7]] .reverse =
      fun event => decide (event.id ≠ 3 ∧ event.id ≠ 5) := by
    funext event
    simp [Faults.reaches, hchunks, f]
  have hfind : lookupFailures ((w.source .dst).failing f) "dst" base =
    [.lookupFailed 1 "dst" e] := by
    rfl
  have hpresence : [[(3 : Int), 5], [6, 7]].filterMap (fun page =>
      ((chunks chunkSize page).findSome? f.present).map
        (Notice.presenceFailed (Plan.whole .src).base.storeName)) = [.presenceFailed "src" e] := by
    rw [List.filterMap_cons, List.filterMap_cons, hchunks.1, hchunks.2]
    rfl
  have hforwardReached : (y.told w .forward).filter (f.reaches [[3, 5], [6, 7]] .forward) =
      [⟨2, "SRC", .targetMissing⟩, ⟨3, "SRC", .unequal⟩, ⟨4, "SRC", .targetMissing⟩] := by
    rw [hf, hrows]
    decide
  have hreverseReached : (y.told w .reverse).filter (f.reaches [[3, 5], [6, 7]] .reverse) =
      [⟨6, "SRC", .baseMissing⟩, ⟨7, "SRC", .baseMissing⟩] := by
    rw [hr, hids]
    decide
  simp only [hpages] at htold hperm
  refine ⟨hok, ?_, ?_, ?_⟩
  · rw [htold, hforwardReached]
    rfl
  · rw [htold, hreverseReached]
    rfl
  · rw [hforwardReached, hreverseReached] at hperm
    have hfresh : w.notices = [] := rfl
    rw [hfresh, List.nil_append] at hns
    rw [hns]
    refine hperm.trans (.of_eq ?_)
    change lookupFailures ((w.source .dst).failing f) "dst" base ++ _ ++ _ = _
    rw [hfind, hpresence]
    rfl

end DualWrite
