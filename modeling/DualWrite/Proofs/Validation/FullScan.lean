import DualWrite.Proofs.Validation.Standing

/-!
# Full validation of tables that stand still

The findings of two tables are what a full validation is there to report. A pass over tables that
nobody writes ends well whatever the order of its turns, and reports exactly the findings on ids
above the least, which is where its cursor starts.
-/
namespace DualWrite

/-- The rows in which two tables differ, by the side that is to report them. -/
def Plan.findings (p : Plan) (base target : List Interactive) : Side → List Event
  | .forward => base.flatMap fun r =>
    match target.find? (·.id = r.id) with
    | none => [p.event .targetMissing r.id]
    | some t => if r = t then [] else [p.event .unequal r.id]
  | .reverse => (target.filter fun t => base.all (·.id ≠ t.id)).map fun t =>
    p.event .baseMissing t.id

def view (es : List Interactive) (i : Int) : View := (es.find? (·.id = i)).map .ok

theorem view_eq_some {es : List Interactive} (h : (es.map (·.id)).Nodup) {r : Interactive}
    (hr : r ∈ es) : view es r.id = some (.ok r) := by
  rw [view, (Interactive.find?_eq_some h).2 ⟨hr, rfl⟩]
  rfl

theorem view_isSome {es : List Interactive} {i : Int} :
    (view es i).isSome ↔ ∃ r ∈ es, r.id = i := by
  simp [view]

section Findings
variable {p : Plan} {base target : List Interactive}

theorem findings_forward : p.findings base target .forward =
    base.flatMap fun r => Scan.difference p r (target.find? (·.id = r.id)) :=
  rfl

theorem findings_ids (p : Plan) (base target : List Interactive) :
    ((p.findings base target .forward).map (·.id)).Sublist (base.map (·.id)) ∧
      ((p.findings base target .reverse).map (·.id)).Sublist (target.map (·.id)) := by
  constructor
  · rw [findings_forward]
    induction base with
    | nil => exact List.Sublist.refl _
    | cons r base ih =>
      rw [List.flatMap_cons, List.map_append, List.map_cons, ← List.singleton_append]
      exact (difference_ids p r _).append ih
  · simp only [Plan.findings, List.map_map]
    exact List.filter_sublist.map _

/-- A finding is what the two views of its id call for. -/
theorem mem_findings (hb : (base.map (·.id)).Nodup) (ht : (target.map (·.id)).Nodup) {side : Side}
    {e : Event} : e ∈ p.findings base target side ↔
      e ∈ p.verdict e.id (view base e.id) (view target e.id) ∧ side.reports e.kind = true := by
  cases side with
  | forward =>
    rw [findings_forward, List.mem_flatMap]
    constructor
    · rintro ⟨r, hr, he⟩
      obtain ⟨hlabel, hkind⟩ := mem_difference he
      have hid : e.id = r.id := by rw [hlabel]; rfl
      rw [difference_eq] at he
      exact ⟨by rw [hid, view_eq_some hb hr]; exact he, hkind⟩
    · rintro ⟨he, hkind⟩
      have hmem : e ∈ (p.verdict e.id (view base e.id) (view target e.id)).filter
          (Side.reports .forward ·.kind) := List.mem_filter.2 ⟨he, hkind⟩
      cases hbase : view base e.id with
      | none =>
        rw [hbase, verdict_forward_none] at hmem
        cases hmem
      | some b =>
        obtain ⟨r, hr, hid⟩ := view_isSome.1 (Option.isSome_iff_exists.2 ⟨b, hbase⟩)
        refine ⟨r, hr, ?_⟩
        rw [difference_eq, ← view_eq_some hb hr, hid]
        exact he
  | reverse =>
    simp only [Plan.findings, List.mem_map, List.mem_filter]
    constructor
    · rintro ⟨t, ⟨hin, hnone⟩, rfl⟩
      have hbase : view base t.id = none := by
        rw [← Option.not_isSome_iff_eq_none, view_isSome]
        simpa using hnone
      refine ⟨?_, rfl⟩
      simp only [Plan.event]
      rw [hbase, view_eq_some ht hin]
      exact List.mem_singleton.2 rfl
    · rintro ⟨he, hkind⟩
      have hmem : e ∈ (p.verdict e.id (view base e.id) (view target e.id)).filter
          (Side.reports .reverse ·.kind) := List.mem_filter.2 ⟨he, hkind⟩
      cases hbase : view base e.id with
      | some b =>
        rw [hbase, verdict_reverse_some] at hmem
        cases hmem
      | none =>
        cases htarget : view target e.id with
        | none =>
          rw [htarget, verdict_reverse_absent] at hmem
          cases hmem
        | some x =>
          obtain ⟨t, hin, hid⟩ := view_isSome.1 (Option.isSome_iff_exists.2 ⟨x, htarget⟩)
          refine ⟨t, ⟨hin, ?_⟩, ?_⟩
          · have hno : ¬ ∃ r ∈ base, r.id = e.id := by
              rw [← view_isSome, hbase]
              simp
            simpa [hid] using hno
          · rw [hbase, htarget] at he
            rw [hid]
            exact (List.mem_singleton.1 he).symm

end Findings

open Scene

/-- One pass over two tables that stand still, turn by turn. -/
structure StillPass (w : World) (p : Plan) (base target : List Interactive) (turns : List Side) :
    Prop where
  full : p.mode = .full
  once : p.interval = 0
  batch : 1 ≤ p.batch
  tripwires : w.tripwires = []
  holdsBase : (w.store p.base).Holds base
  holdsTarget : (w.store p.base.other).Holds target
  /-- The pass is given the turns that it needs. -/
  forward : 4 * base.length < turns.count .forward
  reverse : 4 * target.length < turns.count .reverse

namespace StillPass
variable {w : World} {p : Plan} {base target : List Interactive} {turns : List Side}
variable (h : StillPass w p base target turns)
include h

theorem holds (d : Direction) : ∃ es, (w.store d).Holds es := by
  rcases d.eq_or_eq_other p.base with rfl | rfl
  · exact ⟨base, h.holdsBase⟩
  · exact ⟨target, h.holdsTarget⟩

theorem fullPass : FullPass w p (turns.map .scan) :=
  ⟨h.full, h.once, h.batch, h.tripwires, fun d => (h.holds d).choose_spec.keyed, by simp, by simp⟩

/-- What such a pass is offered: the rows of all ids but the least. -/
theorem standing : Standing w p (base.filter (minInt < ·.id))
    ((target.filter (minInt < ·.id)).map fun e => (e.id, e.uTime)) := by
  refine ⟨h.once, h.batch, ?_, ?_⟩
  · rw [h.full]
    exact h.holdsBase.offers _
  · rw [h.full]
    exact (h.holdsTarget.offers _).stamps

theorem clean :
    let x := (start w p).run (turns.map .scan)
    x.validation.result? = some (.ok ()) ∧ (∀ d, x.world.store d = w.store d) ∧
      x.world.notices = w.notices ∧
      x.told w .forward = (base.filter (minInt < ·.id)).flatMap
        (fun r => Scan.difference p r (target.find? (·.id = r.id))) ∧
      x.told w .reverse = ((target.filter (minInt < ·.id)).filter fun t =>
        base.all (·.id ≠ t.id)).map
        fun t => p.event .baseMissing t.id := by
  have hbase := List.length_filter_le (minInt < ·.id) base
  have htarget := List.length_filter_le (minInt < ·.id) target
  have hforward := h.forward
  have hreverse := h.reverse
  exact h.standing.clean h.tripwires h.holdsBase h.holdsTarget (by omega) (by omega)

theorem run :
    (∀ pre, pre <+: turns.map .scan → ∀ d, ((start w p).run pre).world.store d = w.store d) ∧
    ((start w p).run (turns.map .scan)).world.notices = w.notices ∧
    ((start w p).run (turns.map .scan)).validation.result? = some (.ok ()) := by
  obtain ⟨hok, _, hnotices, _⟩ := h.clean
  refine ⟨?_, hnotices, hok⟩
  intro pre hpre
  obtain ⟨k, rfl⟩ : ∃ k, pre = (turns.take k).map .scan := by
    obtain ⟨rest, hr⟩ := hpre
    refine ⟨pre.length, ?_⟩
    rw [List.map_take, ← hr, List.take_left]
  exact h.standing.still h.tripwires (turns.take k)

theorem told_eq (side : Side) : ((start w p).run (turns.map .scan)).told w side =
    (p.findings base target side).filter (minInt < ·.id) := by
  obtain ⟨_, _, _, hforward, hreverse⟩ := h.clean
  cases side with
  | forward =>
    rw [hforward, findings_forward, eq_comm]
    apply filter_flatMap_of
    intro r _ e he
    have hid : e.id = r.id := by
      rw [(mem_difference he).1]
      rfl
    rw [hid]
  | reverse =>
    rw [hreverse, Plan.findings, List.filter_map, List.filter_filter, List.filter_filter]
    congr 1
    apply List.filter_congr
    intro t _
    exact Bool.and_comm ..

/-- No finding is left out exactly if the tables agree on the least id. -/
theorem told_all (hids : ∀ r ∈ base ++ target, minInt ≤ r.id) :
    (∀ side, ((start w p).run (turns.map .scan)).told w side = p.findings base target side) ↔
      view base minInt = view target minInt := by
  have hverdict : ∀ e side, e ∈ p.findings base target side ↔
      e ∈ p.verdict e.id (view base e.id) (view target e.id) ∧ side.reports e.kind = true :=
    fun e side => mem_findings h.holdsBase.nodup h.holdsTarget.nodup
  constructor
  · intro htold
    by_contra hne
    obtain ⟨k, hk⟩ := Option.ne_none_iff_exists'.1 (mt Event.Kind.between?_eq_none.1 hne)
    have hmem : p.event k minInt ∈ p.verdict minInt (view base minInt) (view target minInt) := by
      rw [Plan.verdict, hk]
      exact List.mem_singleton.2 rfl
    obtain ⟨side, hside⟩ := Side.exists_reports k
    have hin := (hverdict (p.event k minInt) side).2 ⟨hmem, hside⟩
    rw [← htold side, h.told_eq, List.mem_filter, decide_eq_true_eq] at hin
    exact Int.lt_irrefl _ hin.2
  · intro hsame side
    rw [h.told_eq, List.filter_eq_self]
    intro e he
    by_contra hle
    have hnone : ∀ es : List Interactive, (∀ r ∈ es, minInt ≤ r.id) → e.id < minInt →
        view es e.id = none := by
      intro es hes hlt
      rw [← Option.not_isSome_iff_eq_none, view_isSome]
      rintro ⟨r, hr, hid⟩
      have := hes r hr
      omega
    have heq : view base e.id = view target e.id := by
      rcases Int.lt_or_eq_of_le (Int.not_lt.1 (by simpa using hle) : e.id ≤ minInt) with hlt | he
      · rw [hnone base (fun r hr => hids r (List.mem_append_left _ hr)) hlt,
          hnone target (fun r hr => hids r (List.mem_append_right _ hr)) hlt]
      · rw [he, hsame]
    have hmem := ((hverdict e side).1 he).1
    rw [Plan.verdict, Event.Kind.between?_eq_none.2 heq] at hmem
    cases hmem

end StillPass

/-- A full validation of two tables that stand still ends well, whatever their ids, the size that is
asked for its pages and the order of its turns. Each side reports its findings in the order of their
ids, those on the least id left out; so all are reported exactly if the tables agree on that one. -/
theorem full_validation_of_still_tables {w : World} {p : Plan} {n : Int}
    {base target : List Interactive} {turns : List Side} (hfull : p.mode = .full)
    (honce : p.interval = 0) (htripwires : w.tripwires = [])
    (hbase : (w.store p.base).Holds base) (htarget : (w.store p.base.other).Holds target)
    (hids : ∀ r ∈ base ++ target, minInt ≤ r.id)
    (hforward : 4 * base.length < turns.count .forward)
    (hreverse : 4 * target.length < turns.count .reverse) :
    let x := (start w (p.withBatch n)).run (turns.map .scan)
    x.validation.result? = some (.ok ()) ∧ x.world.notices = w.notices ∧
      (∀ side, ((x.told w side).map (·.id)).Pairwise (· < ·) ∧
        x.told w side = (p.findings base target side).filter (minInt < ·.id)) ∧
      ((∀ side, x.told w side = p.findings base target side) ↔
        view base minInt = view target minInt) := by
  have h : StillPass w (p.withBatch n) base target turns :=
    ⟨hfull, honce, Int.le_max_right _ _, htripwires, hbase, htarget, hforward, hreverse⟩
  have hfindings : ∀ side, (p.withBatch n).findings base target side =
    p.findings base target side := by
    rintro (_ | _) <;> rfl
  obtain ⟨_, hnotices, hok⟩ := h.run
  refine ⟨hok, hnotices, fun side => ⟨h.fullPass.ascending side, ?_⟩, ?_⟩
  · rw [h.told_eq, hfindings]
  · simpa only [hfindings] using h.told_all hids

theorem full_validation_of_three_ids :
    let w := World.ofStores (.ofEntities "src" [.plain 1 0, .plain 2 0])
      (.ofEntities "dst" [.plain 2 7, .plain 3 0])
    let turns := List.replicate 9 Side.forward ++ List.replicate 9 .reverse
    let x := (start w ((Plan.whole .src).withBatch (-5))).run (turns.map .scan)
    x.validation.result? = some (.ok ()) ∧
      x.told w .forward = [⟨1, "SRC", .targetMissing⟩, ⟨2, "SRC", .unequal⟩] ∧
      x.told w .reverse = [⟨3, "SRC", .baseMissing⟩] := by
  intro w turns x
  have hbase : (w.store .src).Holds [.plain 1 0, .plain 2 0] :=
    Store.holds_ofEntities _ (by decide)
  have htarget : (w.store .dst).Holds [.plain 2 7, .plain 3 0] :=
    Store.holds_ofEntities _ (by decide)
  have hforward : 4 * 2 < turns.count .forward := by decide
  have hreverse : 4 * 2 < turns.count .reverse := by decide
  obtain ⟨hok, _, htold, _⟩ := full_validation_of_still_tables (p := .whole .src) (n := -5)
    rfl rfl rfl hbase htarget (by decide) hforward hreverse
  exact ⟨hok, (htold .forward).2.trans (by decide), (htold .reverse).2.trans (by decide)⟩

/-- A row under the least id that the target lacks goes unreported. -/
theorem least_id_unreported :
    let w := World.ofStores (.ofEntities "src" [.plain minInt 0]) (.ofEntities "dst" [])
    let turns := List.replicate 5 Side.forward ++ [.reverse]
    let x := (start w ((Plan.whole .src).withBatch 10)).run (turns.map .scan)
    x.validation.result? = some (.ok ()) ∧ x.told w .forward = [] ∧
      (Plan.whole .src).findings [.plain minInt 0] [] .forward =
      [⟨minInt, "SRC", .targetMissing⟩] := by
  intro w turns x
  have h : StillPass w ((Plan.whole .src).withBatch 10) [.plain minInt 0] [] turns :=
    ⟨rfl, rfl, by decide, rfl, Store.holds_ofEntities _ (by decide),
      Store.holds_ofEntities _ (by decide), by decide, by decide⟩
  exact ⟨h.run.2.2, (h.told_eq .forward).trans (by decide), by decide⟩

end DualWrite
