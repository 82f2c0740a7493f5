import DualWrite.Proofs.Validation.FullScan

/-!
# Incremental validation of tables that stand still

An incremental pass reads the rows that are later than the watermark, by time and id. A key of the
watermark and the greatest id stands behind every row of the watermark's time and before every later
one; so nothing is left out, however many rows have one time and wherever the pages are cut.
-/
namespace DualWrite
open Scene

/-- The rows that are later than the watermark, by time and id. -/
def Plan.late (p : Plan) (es : List Interactive) : List Interactive :=
  (es.filter (p.watermark < ·.uTime)).mergeSort Interactive.notAfter

section Late
variable {p : Plan} {es : List Interactive}

theorem late_perm (p : Plan) (es : List Interactive) :
    (p.late es).Perm (es.filter (p.watermark < ·.uTime)) :=
  List.mergeSort_perm _ _

theorem length_late_le (p : Plan) (es : List Interactive) : (p.late es).length ≤ es.length := by
  rw [(late_perm p es).length_eq]
  exact List.length_filter_le _ _

theorem nodup_late (h : (es.map (·.id)).Nodup) : ((p.late es).map (·.id)).Nodup :=
  ((late_perm p es).map _).nodup_iff.2 (h.sublist (List.filter_sublist.map _))

theorem late_eq (h : (es.map (·.id)).Nodup) {sorted : List Interactive}
    (hsorted : sorted.Pairwise (Interactive.notAfter · · = true))
    (hperm : sorted.Perm (es.filter (p.watermark < ·.uTime))) : p.late es = sorted := by
  apply ((late_perm p es).trans hperm.symm).eq_of_pairwise _
    (Interactive.sorted_mergeSort _) hsorted
  intro a b ha hb hab hba
  have hmem : ∀ e, e ∈ es.filter (p.watermark < ·.uTime) → e ∈ es :=
    fun e he => (List.mem_filter.1 he).1
  rw [Interactive.notAfter_iff] at hab hba
  exact List.inj_on_of_nodup_map h (hmem a ((late_perm p es).mem_iff.1 ha))
    (hmem b (hperm.mem_iff.1 hb))
    (by omega)

/-- The start of an incremental scan stands behind the watermark's time. -/
theorem start_before {e : Interactive} {watermark : Int} (h : e.id ≤ maxInt) :
    (Cursor.start .incremental watermark).before e ↔ watermark < e.uTime := by
  change watermark < e.uTime ∨ watermark = e.uTime ∧ maxInt < e.id ↔ _
  omega

end Late

theorem offers_late {s : Store} {p : Plan} {es : List Interactive} (h : s.HoldsTimed es)
    (hincremental : p.mode = .incremental) (hids : ∀ e ∈ es, e.id ≤ maxInt) :
    s.Offers p.mode (.start p.mode p.watermark) Store.Table.entity (p.late es) := by
  have hlate : es.filter ((Cursor.start .incremental p.watermark).before ·) =
      es.filter (p.watermark < ·.uTime) :=
    List.filter_congr fun e he => decide_eq_decide.2 (start_before (hids e he))
  rw [hincremental, Plan.late, ← hlate]
  exact h.offers _

/-- An incremental validation of two tables that stand still ends well, whatever the watermark, the
size that is asked for its pages and the order of its turns. Each side reports, by time and id, its
findings on exactly the rows that are later than the watermark, each once. -/
theorem incremental_validation_of_still_tables {w : World} {p : Plan} {n : Int}
    {base target : List Interactive} {turns : List Side} (hincremental : p.mode = .incremental)
    (honce : p.interval = 0) (htripwires : w.tripwires = [])
    (hbase : (w.store p.base).HoldsTimed base) (htarget : (w.store p.base.other).HoldsTimed target)
    (hids : ∀ r ∈ base ++ target, r.id ≤ maxInt)
    (hforward : 4 * base.length < turns.count .forward)
    (hreverse : 4 * target.length < turns.count .reverse) :
    let x := (start w (p.withBatch n)).run (turns.map .scan)
    x.validation.result? = some (.ok ()) ∧ x.world.notices = w.notices ∧
      x.told w .forward = p.findings (p.late base) target .forward ∧
      x.told w .reverse = p.findings base (p.late target) .reverse ∧
      ∀ side, ((x.told w side).map (·.id)).Nodup := by
  intro x
  have h : Standing w (p.withBatch n) (p.late base)
    ((p.late target).map fun e => (e.id, e.uTime)) :=
    ⟨honce, Int.le_max_right _ _,
      offers_late hbase hincremental fun r hr => hids r (List.mem_append_left _ hr),
      (offers_late htarget hincremental fun r hr => hids r (List.mem_append_right _ hr)).stamps⟩
  have hlate : 4 * (p.late base).length < turns.count .forward := by
    have := length_late_le p base
    omega
  have hlate' : 4 * (p.late target).length < turns.count .reverse := by
    have := length_late_le p target
    omega
  obtain ⟨hok, _, hnotices, htold, htold'⟩ :=
    h.clean htripwires hbase.holds htarget.holds hlate hlate'
  have hf : x.told w .forward = p.findings (p.late base) target .forward := htold
  have hr : x.told w .reverse = p.findings base (p.late target) .reverse := htold'
  refine ⟨hok, hnotices, hf, hr, ?_⟩
  rintro (_ | _)
  · rw [hf]
    exact (nodup_late hbase.holds.nodup).sublist (findings_ids p _ target).1
  · rw [hr]
    exact (nodup_late htarget.holds.nodup).sublist (findings_ids p base _).2

/-- Four rows of one time, cut by pages of two, one that is later with a smaller id, and one at the
watermark. -/
theorem incremental_validation_across_pages :
    let row (id time : Int) : Interactive := ⟨id, id, "b", 0, 0, 0, time, 1⟩
    let w := World.ofStores
      (.ofEntities "src" [row 1 10, row 2 12, row 3 11, row 4 11, row 5 11, row 6 11])
      (.ofEntities "dst" [row 4 11, row 5 12, row 7 10, row 8 11])
    let p : Plan := ⟨.src, .src, .incremental, 10, 1, 0⟩
    let turns := List.replicate 25 Side.forward ++ List.replicate 17 .reverse
    let x := (start w (p.withBatch 2)).run (turns.map .scan)
    x.validation.result? = some (.ok ()) ∧
      x.told w .forward = [⟨3, "SRC", .targetMissing⟩, ⟨5, "SRC", .unequal⟩,
        ⟨6, "SRC", .targetMissing⟩, ⟨2, "SRC", .targetMissing⟩] ∧
      x.told w .reverse = [⟨8, "SRC", .baseMissing⟩] := by
  intro row w p turns x
  have hbase : (w.store .src).HoldsTimed
      [row 1 10, row 2 12, row 3 11, row 4 11, row 5 11, row 6 11] :=
    Store.holdsTimed_ofEntities _ (by decide)
  have htarget : (w.store .dst).HoldsTimed [row 4 11, row 5 12, row 7 10, row 8 11] :=
    Store.holdsTimed_ofEntities _ (by decide)
  have hlate : p.late [row 1 10, row 2 12, row 3 11, row 4 11, row 5 11, row 6 11] =
      [row 3 11, row 4 11, row 5 11, row 6 11, row 2 12] :=
    late_eq (by decide) (by decide) (by decide)
  have hlate' : p.late [row 4 11, row 5 12, row 7 10, row 8 11] = [row 4 11, row 8 11, row 5 12] :=
    late_eq (by decide) (by decide) (by decide)
  have hforward : 4 * 6 < turns.count .forward := by decide
  have hreverse : 4 * 4 < turns.count .reverse := by decide
  obtain ⟨hok, _, htold, htold', _⟩ := incremental_validation_of_still_tables (p := p) (n := 2)
    rfl rfl rfl hbase htarget (by decide) hforward hreverse
  rw [hlate] at htold
  rw [hlate'] at htold'
  exact ⟨hok, htold.trans (by decide), htold'.trans (by decide)⟩

end DualWrite
