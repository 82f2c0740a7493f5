import DualWrite.Proofs.Store.Holding

/-!
# Pages of an incremental scan

Rows behind a key of time and id, in the order of both. As with full pages, what such a page holds
can be said of the entities alone.
-/
namespace DualWrite

/-- A row stands behind a key: it is later, or of the same time with a greater id. -/
def Cursor.before (c : Cursor) (e : Interactive) : Prop :=
  c.utime < e.uTime ∨ c.utime = e.uTime ∧ c.id < e.id

instance (c : Cursor) (e : Interactive) : Decidable (c.before e) :=
  inferInstanceAs (Decidable (_ ∨ _ ∧ _))

namespace Interactive

def notAfter (a b : Interactive) : Bool :=
  decide (a.uTime < b.uTime ∨ a.uTime = b.uTime ∧ a.id ≤ b.id)

theorem notAfter_iff {a b : Interactive} :
    notAfter a b = true ↔ a.uTime < b.uTime ∨ a.uTime = b.uTime ∧ a.id ≤ b.id := decide_eq_true_iff

theorem sorted_mergeSort (es : List Interactive) :
    (es.mergeSort notAfter).Pairwise (notAfter · · = true) := by
  apply List.pairwise_mergeSort
  · intro a b c hab hbc
    rw [notAfter_iff] at *
    omega
  · intro a b
    rw [Bool.or_eq_true, notAfter_iff, notAfter_iff]
    omega

end Interactive

namespace Store

def Table.Timed (t : Table) : Prop :=
  (((t.schema.place? Source.timeName.text).bind (t.schema.columns[·]?)).map (·.affinity)) =
    some .integer

/-- A store of these entities that compares their times as numbers. -/
def HoldsTimed (s : Store) (es : List Interactive) : Prop :=
  ∃ t, s.table? = some t ∧ t.Keyed ∧ t.Timed ∧ t.rows.mapM t.entity = .ok es

theorem HoldsTimed.holds {s : Store} {es : List Interactive} (h : s.HoldsTimed es) :
    s.Holds es := by
  obtain ⟨t, ht, hk, _, hes⟩ := h
  exact ⟨t, ht, hk, hes⟩

section Comparing
variable {t : Table} (hk : t.Keyed) (htime : t.Timed) {r : Row} (hr : r ∈ t.rows) {e : Interactive}
  (he : t.entity r = .ok e)

include hk hr he in
theorem read_time : t.schema.read r Source.timeName = .int e.uTime := by
  have hstamp := hk.stamp_eq hr he
  rw [Table.stamp] at hstamp
  split at hstamp
  · next u hu =>
    have hue : u = e.uTime := congrArg Prod.snd (Except.ok.inj hstamp)
    rw [hu, hue]
  · cases hstamp

include htime in
theorem facing_time (k : Int) : t.schema.facing Source.timeName (.int k) = .int k := by
  obtain ⟨c, hc, ha⟩ := Option.map_eq_some_iff.1 htime
  simp only [Schema.facing, hc, ha]
  rfl

/-- The column of times is not that of ids. -/
theorem time_ne_id {s : Schema} {k : Nat} (hid : s.place? Source.idName.text = some k) :
    s.place? Source.timeName.text ≠ some k := by
  intro htime
  obtain ⟨_, hi, _⟩ := List.findIdx?_eq_some_iff_getElem.1 hid
  obtain ⟨_, ht, _⟩ := List.findIdx?_eq_some_iff_getElem.1 htime
  have hsame : Text.lower Source.timeName.text = Text.lower Source.idName.text :=
    (eq_of_beq ht).symm.trans (eq_of_beq hi)
  revert hsame
  decide

include hk htime hr he in
theorem above_time (k : Int) :
    t.schema.above r Source.timeName (.int k) = decide (k < e.uTime) := by
  rw [Schema.above, read_time hk hr he, facing_time htime, above_int]

include hk htime hr he in
theorem equals_time (k : Int) :
    t.schema.equals r Source.timeName (.int k) = decide (e.uTime = k) := by
  obtain ⟨i, hkey, hplace, _⟩ := hk.place
  have hne :
    ¬ (t.schema.key?.isSome && decide (t.schema.place? Source.timeName.text = t.schema.key?)) =
      true := by
    rw [Bool.and_eq_true, decide_eq_true_eq, hkey]
    exact fun h => time_ne_id hplace h.2
  rw [Schema.equals, if_neg hne, read_time hk hr he, facing_time htime, equals_int]

include hk htime hr he in
theorem pairAbove_time (c : Cursor) (args : List Value) :
    t.schema.holds r (.pairAbove Source.timeName Source.idName)
        (.int c.utime :: .int c.id :: args) =
      decide (c.before e) := by
  have hid := hk.id_of_entity hr he
  rw [Schema.holds, above_time hk htime hr he, equals_time hk htime hr he, hk.above hr, ← hid,
    Bool.eq_iff_iff]
  simp only [Bool.or_eq_true, Bool.and_eq_true, decide_eq_true_eq]
  rw [Cursor.before]
  omega

end Comparing

theorem compareRows_time {t : Table} (hk : t.Keyed) {x y : Row} (hx : x ∈ t.rows) (hy : y ∈ t.rows)
    {a b : Interactive} (ha : t.entity x = .ok a) (hb : t.entity y = .ok b) :
    (t.schema.compareRows [Source.timeName, Source.idName] x y != .gt) =
    Interactive.notAfter a b := by
  have hia := hk.id_of_entity hx ha
  have hib := hk.id_of_entity hy hb
  rw [Bool.eq_iff_iff, Interactive.notAfter_iff, hia, hib]
  simp only [Schema.compareRows, List.map_cons, List.map_nil, read_time hk hx ha,
    read_time hk hy hb, hk.number x hx, hk.number y hy, Value.compareLists, compare_int, bne_iff_ne]
  rcases Int.lt_trichotomy a.uTime b.uTime with h | h | h
  · rw [Int.compare_eq_lt.2 h]
    simp [h]
  · rw [Int.compare_eq_eq.2 h]
    rcases Int.lt_trichotomy x.number y.number with hn | hn | hn
    · rw [Int.compare_eq_lt.2 hn]
      simp [h, Int.le_of_lt hn]
    · rw [Int.compare_eq_eq.2 hn]
      simp [h, hn]
    · rw [Int.compare_eq_gt.2 hn]
      simp [h, hn]
  · rw [Int.compare_eq_gt.2 h]
    simp
    omega

/-- An incremental page: the first of the rows behind the key. -/
theorem HoldsTimed.page {s : Store} {es : List Interactive} (h : s.HoldsTimed es) {n : Int}
    (hn : 0 ≤ n) (c : Cursor) : (Source.ofStore s).page .incremental n c =
      .ok (((es.filter (c.before ·)).mergeSort Interactive.notAfter).take n.toNat) := by
  obtain ⟨t, ht, hk, htime, hes⟩ := h
  let g (r : Row) : Interactive := (t.entity r).toOption.getD (.plain 0 0)
  have hg : ∀ r ∈ t.rows, t.entity r = .ok (g r) := by
    intro r hr
    obtain ⟨e, _, he⟩ := ok_of_mapM hes hr
    simp only [g, he]
    rfl
  have hrows : es = t.rows.map g := by
    have := map_of_mapM (g := g) (k := id) hes fun r hr e he =>
      Except.ok.inj (he.symm.trans (hg r hr))
    rwa [List.map_id] at this
  have hkept : t.rows.filter (fun r => t.schema.holds r (.pairAbove Source.timeName Source.idName)
      [.int c.utime, .int c.id, .int n]) = t.rows.filter (fun r => c.before (g r)) :=
    List.filter_congr fun r hr => pairAbove_time hk htime hr (hg r hr) c _
  have hpage : t.page .incremental n c = ((t.rows.filter fun r => c.before (g r)).mergeSort
      fun a b => t.schema.compareRows [Source.timeName, Source.idName] a b != .gt).take
        n.toNat := by
    simp only [Table.page, Table.picked, pageSelection, Source.pageArguments, hkept]
    rfl
  have hsorted : (t.page .incremental n c).map g =
      ((es.filter (c.before ·)).mergeSort Interactive.notAfter).take n.toNat := by
    rw [hpage, List.map_take, List.map_mergeSort (s := Interactive.notAfter), hrows,
      List.filter_map]
    · rfl
    · intro a ha b hb
      have ha := (List.mem_filter.1 ha).1
      have hb := (List.mem_filter.1 hb).1
      exact compareRows_time hk ha hb (hg a ha) (hg b hb)
  have hread : (t.page .incremental n c).mapM t.entity = .ok ((t.page .incremental n c).map g) := by
    rw [mapM_eq_ok, List.forall₂_map_right_iff, List.forall₂_same]
    exact fun r hr => hg r (Table.mem_picked hr)
  rw [ofStore_page ht hk hn, hread, hsorted]
  rfl

/-- The rows of a page are behind the key and in order, and none is left out before the last. -/
theorem HoldsTimed.page_ok {s : Store} {es : List Interactive} (h : s.HoldsTimed es) {n : Int}
    (hn : 1 ≤ n) {c : Cursor} {rows : List Interactive}
    (hpage : (Source.ofStore s).page .incremental n c = .ok rows) :
    (∀ e ∈ rows, e ∈ es ∧ c.before e) ∧ rows.Pairwise (Interactive.notAfter · · = true) ∧
      ∀ e ∈ es, c.before e →
        e ∈ rows ∨ ∃ last, rows.getLast? = some last ∧ (c.advance last.uTime last.id).before e := by
  rw [h.page (by omega)] at hpage
  obtain rfl := Except.ok.inj hpage
  have hmem : ∀ e, e ∈ (es.filter (c.before ·)).mergeSort Interactive.notAfter ↔ e ∈ es ∧
    c.before e := by
    intro e
    rw [List.mem_mergeSort, List.mem_filter, decide_eq_true_eq]
  have hsorted := Interactive.sorted_mergeSort (es.filter (c.before ·))
  refine ⟨fun e he => (hmem e).1 (List.mem_of_mem_take he),
    hsorted.sublist (List.take_sublist _ _), ?_⟩
  intro e he hbefore
  have hin := (hmem e).2 ⟨he, hbefore⟩
  generalize (es.filter (c.before ·)).mergeSort Interactive.notAfter = l at *
  rw [← List.take_append_drop n.toNat l, List.mem_append] at hin
  rcases hin with hin | hin
  · exact .inl hin
  · have hne : l.take n.toNat ≠ [] := by
      intro hnil
      rcases List.take_eq_nil_iff.1 hnil with h0 | h0
      · omega
      · simp [h0] at hin
    let last := (l.take n.toNat).getLast hne
    have hlast : last ∈ l.take n.toNat := List.getLast_mem hne
    rw [← List.take_append_drop n.toNat l, List.pairwise_append] at hsorted
    have hle := Interactive.notAfter_iff.1 (hsorted.2.2 last hlast e hin)
    by_cases hid : last.id = e.id
    · left
      have hlastes := ((hmem last).1 (List.mem_of_mem_take hlast)).1
      exact List.inj_on_of_nodup_map h.holds.nodup hlastes he hid ▸ hlast
    · right
      refine ⟨last, List.getLast?_eq_some_getLast hne, ?_⟩
      change last.uTime < e.uTime ∨ last.uTime = e.uTime ∧ last.id < e.id
      omega

/-- The table as it is made keeps times as whole numbers. -/
theorem Table.timed_ofEntities (es : List Interactive) : (Table.ofEntities es).Timed := by
  change ((Interactive.schema.place? Source.timeName.text).bind
    (Interactive.schema.columns[·]?)).map
    (·.affinity) = some .integer
  decide

theorem holdsTimed_ofEntities (name : String) {es : List Interactive}
    (h : (es.map (·.id)).Pairwise (· < ·)) : (ofEntities name es).HoldsTimed es :=
  ⟨.ofEntities es, table?_ofEntities name es, Table.keyed_ofEntities h,
    Table.timed_ofEntities es, Table.entities_ofEntities es⟩

end Store
end DualWrite
