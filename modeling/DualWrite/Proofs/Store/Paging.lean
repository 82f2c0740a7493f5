import DualWrite.Proofs.Store.Incremental
import DualWrite.Proofs.Value.Order

/-!
# Pages one after the other

What lies ahead of a cursor is a sorted list of rows, whatever the columns hold. A page is its
beginning, and behind the last row of a page lies the rest. So the pages that are read of a table
that stands still are that list, cut into pieces.
-/
namespace DualWrite

def Cursor.key (c : Cursor) : ScanMode → List Value
  | .full => [.int c.id]
  | .incremental => [.int c.utime, .int c.id]

namespace Store

def Table.key (t : Table) (r : Row) : ScanMode → List Value
  | .full => [.int r.number]
  | .incremental => [t.schema.read r Source.timeName, .int r.number]

def compareKeys : List Value → List Value → Ordering := List.compareLex Value.compare

instance : Std.TransCmp compareKeys :=
  inferInstanceAs (Std.TransCmp (List.compareLex Value.compare))

/-- The rows that lie ahead of a cursor, in the order in which they are read. -/
def Table.ahead (t : Table) (mode : ScanMode) (c : Cursor) : List Row :=
  (t.rows.filter fun r => compareKeys (c.key mode) (t.key r mode) = .lt).mergeSort
    fun a b => (compareKeys (t.key a mode) (t.key b mode)).isLE

/-- A table whose ids are keys, and whose times are kept as numbers where the mode compares them. -/
structure Table.Scannable (t : Table) (mode : ScanMode) : Prop where
  keyed : t.Keyed
  timed : mode = .incremental → t.Timed

theorem compareKeys_cons (a b : Value) (as bs : List Value) :
    compareKeys (a :: as) (b :: bs) = (a.compare b).then (compareKeys as bs) :=
  List.compareLex_cons_cons

theorem compareKeys_int (a b : Int) : compareKeys [.int a] [.int b] = Ord.compare a b := by
  rw [compareKeys_cons, compare_int]
  exact Ordering.then_eq

theorem compareKeys_swap (a b : List Value) : compareKeys a b = (compareKeys b a).swap :=
  Std.OrientedCmp.eq_swap

theorem above_whole (v : Value) (k : Int) :
    v.above (.int k) = decide ((Value.int k).compare v = .lt) := by
  have hswap : (Value.int k).compare v = (v.compare (.int k)).swap := Std.OrientedCmp.eq_swap
  by_cases hv : v = .null
  · subst hv
    rfl
  · rw [hswap, Value.above]
    cases v.compare (.int k) <;> simp [hv]

theorem equals_whole (v : Value) (k : Int) :
    v.equals (.int k) = decide ((Value.int k).compare v = .eq) := by
  have hswap : (Value.int k).compare v = (v.compare (.int k)).swap := Std.OrientedCmp.eq_swap
  by_cases hv : v = .null
  · subst hv
    rfl
  · rw [hswap, Value.equals]
    cases v.compare (.int k) <;> simp [hv]

/-- In a full scan the rows of greater ids lie ahead, as they stand. -/
theorem Table.Keyed.ahead_full {t : Table} (hk : t.Keyed) (c : Cursor) :
    t.ahead .full c = t.rows.filter (c.id < ·.number) := by
  have hkept : (t.rows.filter fun r => compareKeys (c.key .full) (t.key r .full) = .lt) =
      t.rows.filter (c.id < ·.number) := by
    refine List.filter_congr fun r _ => ?_
    rw [Cursor.key, Table.key, compareKeys_int, decide_eq_decide]
    exact Int.compare_eq_lt
  have hsorted : (t.rows.filter (c.id < ·.number)).Pairwise
      fun a b => (compareKeys (t.key a .full) (t.key b .full)).isLE = true := by
    refine (hk.ascending.filter _).imp fun {a b} hab => ?_
    rw [Table.key, Table.key, compareKeys_int, Int.compare_eq_lt.2 hab]
    rfl
  rw [Table.ahead, hkept, List.mergeSort_of_pairwise hsorted]

namespace Table.Scannable
variable {t : Table} {mode : ScanMode} (ht : t.Scannable mode)
include ht

/-- The condition of a page is that a row lies ahead. -/
theorem holds_pair (hm : mode = .incremental) (r : Row) (hr : r ∈ t.rows) (c : Cursor)
    (args : List Value) : t.schema.holds r (.pairAbove Source.timeName Source.idName)
      (.int c.utime :: .int c.id :: args) =
        decide (compareKeys (c.key .incremental) (t.key r .incremental) = .lt) := by
  have hk := ht.keyed
  obtain ⟨i, hkey, hplace, _⟩ := hk.place
  have hne :
    ¬ (t.schema.key?.isSome && decide (t.schema.place? Source.timeName.text = t.schema.key?)) =
      true := by
    rw [Bool.and_eq_true, decide_eq_true_eq, hkey]
    exact fun h => time_ne_id hplace h.2
  rw [Schema.holds, Schema.above, Schema.equals, if_neg hne, hk.above hr, facing_time (ht.timed hm),
    above_whole, equals_whole, Cursor.key, Table.key, compareKeys_cons, compareKeys_int]
  rw [Bool.eq_iff_iff]
  cases (Value.int c.utime).compare (t.schema.read r Source.timeName) <;>
    simp [Int.compare_eq_lt]

theorem compareRows_pair {a b : Row} (ha : a ∈ t.rows) (hb : b ∈ t.rows) :
    t.schema.compareRows [Source.timeName, Source.idName] a b =
      compareKeys (t.key a .incremental) (t.key b .incremental) := by
  have hk := ht.keyed
  rw [Schema.compareRows, Value.compareLists_eq]
  simp only [List.map_cons, List.map_nil, hk.number a ha, hk.number b hb]
  rfl

theorem page_eq (n : Int) (c : Cursor) : t.page mode n c = (t.ahead mode c).take n.toNat := by
  have hk := ht.keyed
  cases mode with
  | full => rw [hk.page_full, hk.ahead_full]
  | incremental =>
    have hkept : (t.rows.filter fun r => t.schema.holds r (.pairAbove Source.timeName Source.idName)
        [.int c.utime, .int c.id, .int n]) =
        t.rows.filter fun r => compareKeys (c.key .incremental) (t.key r .incremental) = .lt :=
      List.filter_congr fun r hr => ht.holds_pair rfl r hr c _
    have hle : ∀ o : Ordering, (o != .gt) = o.isLE := fun o => by cases o <;> rfl
    have hsort := List.map_mergeSort (f := id)
      (r := fun a b => t.schema.compareRows [Source.timeName, Source.idName] a b != .gt)
      (s := fun a b => (compareKeys (t.key a .incremental) (t.key b .incremental)).isLE)
      (l := t.rows.filter fun r => compareKeys (c.key .incremental) (t.key r .incremental) = .lt)
      fun a ha b hb => by
        rw [ht.compareRows_pair (List.mem_filter.1 ha).1 (List.mem_filter.1 hb).1]
        exact hle _
    rw [List.map_id, List.map_id] at hsort
    simp only [Table.page, Table.picked, pageSelection, Source.pageArguments, hkept]
    rw [if_neg (by simp), hsort, Table.ahead]

end Table.Scannable

section Ahead
variable {t : Table} {mode : ScanMode} {c : Cursor}

theorem mem_ahead {r : Row} : r ∈ t.ahead mode c ↔
    r ∈ t.rows ∧ compareKeys (c.key mode) (t.key r mode) = .lt := by
  rw [Table.ahead, List.mem_mergeSort, List.mem_filter, decide_eq_true_eq]

theorem sorted_ahead (t : Table) (mode : ScanMode) (c : Cursor) :
    (t.ahead mode c).Pairwise fun a b => (compareKeys (t.key a mode) (t.key b mode)).isLE =
    true := by
  apply List.pairwise_mergeSort
  · intro a b c
    exact Std.TransCmp.isLE_trans
  · intro a b
    rw [compareKeys_swap (t.key b mode)]
    cases compareKeys (t.key a mode) (t.key b mode) <;> rfl

theorem number_eq {a b : Row} (h : compareKeys (t.key a mode) (t.key b mode) = .eq) :
    a.number = b.number := by
  cases mode with
  | full =>
    rw [Table.key, Table.key, compareKeys_int] at h
    exact Int.compare_eq_eq.1 h
  | incremental =>
    rw [Table.key, Table.key, compareKeys_cons, compareKeys_int, Ordering.then_eq_eq] at h
    exact Int.compare_eq_eq.1 h.2

theorem nodup_ahead (hk : t.Keyed) : (t.ahead mode c).Nodup := by
  rw [Table.ahead, (List.mergeSort_perm _ _).nodup_iff]
  exact (hk.ascending.imp fun h he => Int.ne_of_lt h (congrArg Row.number he)).filter _

/-- Where a cursor stands at a row, it is compared like that row. -/
theorem key_advance {r : Row} {k : Int × Int} (h : t.stamp r = .ok k) :
    (c.advance k.2 k.1).key mode = t.key r mode := by
  rw [Table.stamp] at h
  split at h
  · next u hu =>
    obtain rfl := Except.ok.inj h
    cases mode with
    | full => rfl
    | incremental => rw [Table.key, hu]; rfl
  · cases h

/-- Behind a row that is ahead, what lies ahead is what came after that row. -/
theorem ahead_advance (hk : t.Keyed) {r : Row} (hr : r ∈ t.ahead mode c) {k : Int × Int}
    (hs : t.stamp r = .ok k) : t.ahead mode (c.advance k.2 k.1) =
      (t.ahead mode c).filter fun x => compareKeys (t.key r mode) (t.key x mode) = .lt := by
  have hkept :
    (t.rows.filter fun x => compareKeys ((c.advance k.2 k.1).key mode) (t.key x mode) = .lt).Perm
      ((t.ahead mode c).filter fun x => compareKeys (t.key r mode) (t.key x mode) = .lt) := by
    rw [key_advance hs, List.perm_ext_iff_of_nodup ((hk.ascending.imp fun h he =>
      Int.ne_of_lt h (congrArg Row.number he)).filter _) ((nodup_ahead hk).filter _)]
    intro x
    rw [List.mem_filter, List.mem_filter, mem_ahead, decide_eq_true_eq]
    constructor
    · rintro ⟨hx, hlt⟩
      exact ⟨⟨hx, Std.TransCmp.lt_trans (mem_ahead.1 hr).2 hlt⟩, hlt⟩
    · rintro ⟨⟨hx, _⟩, hlt⟩
      exact ⟨hx, hlt⟩
  apply ((List.mergeSort_perm _ _).trans hkept).eq_of_pairwise _ (sorted_ahead _ _ _)
    ((sorted_ahead _ _ _).filter _)
  intro a b ha hb hab hba
  rw [compareKeys_swap] at hba
  have heq : compareKeys (t.key a mode) (t.key b mode) = .eq := by
    revert hab hba
    cases compareKeys (t.key a mode) (t.key b mode) <;> simp
  exact hk.eq_of_number (mem_ahead.1 ha).1 (mem_ahead.1 (List.mem_filter.1 hb).1).1 (number_eq heq)

theorem ahead_drop (hk : t.Keyed) {n : Nat} {r : Row}
    (hr : ((t.ahead mode c).take n).getLast? = some r)
    {k : Int × Int} (hs : t.stamp r = .ok k) :
    t.ahead mode (c.advance k.2 k.1) = (t.ahead mode c).drop n := by
  have hin : r ∈ (t.ahead mode c).take n := List.mem_of_getLast? hr
  have hrow : ∀ x ∈ t.ahead mode c, x ∈ t.rows := fun x hx => (mem_ahead.1 hx).1
  have hsorted := sorted_ahead t mode c
  have hnodup : (t.ahead mode c).Nodup := nodup_ahead hk
  rw [ahead_advance hk (List.mem_of_mem_take hin) hs]
  generalize t.ahead mode c = l at *
  rw [← List.take_append_drop n l, List.nodup_append] at hnodup
  have htake : (l.take n).Pairwise fun a b => (compareKeys (t.key a mode) (t.key b mode)).isLE =
    true :=
    hsorted.sublist (List.take_sublist n l)
  rw [← List.take_append_drop n l, List.pairwise_append] at hsorted
  obtain ⟨before, hbefore⟩ := List.getLast?_eq_some_iff.1 hr
  rw [hbefore, List.pairwise_append] at htake
  conv => lhs; rw [← List.take_append_drop n l]
  rw [List.filter_append, List.filter_eq_nil_iff.2, List.filter_eq_self.2, List.nil_append]
  · intro y hy
    rw [decide_eq_true_eq]
    have hle := hsorted.2.2 r hin y hy
    cases hc : compareKeys (t.key r mode) (t.key y mode) with
    | lt => rfl
    | eq =>
      have hsame := hk.eq_of_number (hrow r (List.mem_of_mem_take hin))
        (hrow y (List.mem_of_mem_drop hy))
        (number_eq hc)
      exact absurd hsame (hnodup.2.2 r hin y hy)
    | gt => simp [hc] at hle
  · intro x hx
    rw [decide_eq_true_eq]
    rw [hbefore, List.mem_append, List.mem_singleton] at hx
    rcases hx with hx | rfl
    · have hle := htake.2.2 x hx r (List.mem_singleton_self r)
      rw [compareKeys_swap]
      cases hc : compareKeys (t.key x mode) (t.key r mode) <;> simp [hc] at hle ⊢
    · have hself : compareKeys (t.key x mode) (t.key x mode) = .eq := Std.ReflCmp.compare_self
      simp [hself]

end Ahead

end Store
end DualWrite
