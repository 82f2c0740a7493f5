import DualWrite.Proofs.Store.Keyed
import Mathlib.Data.List.Forall2

/-!
# What is read of a keyed store

Every answer of a store whose ids are keys, as a list of the rows of its table. A row that an
entity can be read of is seen through `Table.entity`.
-/
namespace DualWrite
open Store

/-- A traversal that may fail succeeds where every element does. -/
theorem mapM_eq_ok {ε α β : Type} {f : α → Except ε β} {xs : List α} {ys : List β} :
    xs.mapM f = .ok ys ↔ List.Forall₂ (fun x y => f x = .ok y) xs ys := by
  induction xs generalizing ys with
  | nil => simp [pure, Except.pure, eq_comm]
  | cons x xs ih =>
    rw [List.mapM_cons, List.forall₂_cons_left_iff]
    rcases hx : f x with e | y
    · simp [bind, Except.bind]
    · rcases hxs : xs.mapM f with e | zs
      · have hno : ∀ zs, ¬ List.Forall₂ (fun x y => f x = .ok y) xs zs := fun zs h => by
          rw [← ih, hxs] at h; cases h
        simp [bind, Except.bind, hno]
      · have hyes : ∀ us, List.Forall₂ (fun x y => f x = .ok y) xs us ↔ zs = us := fun us => by
          rw [← ih, hxs, Except.ok.injEq]
        simp [bind, Except.bind, pure, Except.pure, hyes, eq_comm]

theorem exists_of_mapM {ε α β : Type} {f : α → Except ε β} {xs : List α} {ys : List β}
    (h : xs.mapM f = .ok ys) {y : β} (hy : y ∈ ys) : ∃ x ∈ xs, f x = .ok y := by
  have hall := mapM_eq_ok.1 h
  clear h
  induction hall with
  | nil => simp at hy
  | cons hx _ ih =>
    rcases List.mem_cons.1 hy with rfl | hy
    · exact ⟨_, List.mem_cons_self, hx⟩
    · obtain ⟨x, hx, he⟩ := ih hy
      exact ⟨x, List.mem_cons_of_mem _ hx, he⟩

theorem ok_of_mapM {ε α β : Type} {f : α → Except ε β} {xs : List α} {ys : List β}
    (h : xs.mapM f = .ok ys) {x : α} (hx : x ∈ xs) : ∃ y ∈ ys, f x = .ok y := by
  have hall := mapM_eq_ok.1 h
  clear h
  induction hall with
  | nil => simp at hx
  | cons hy _ ih =>
    rcases List.mem_cons.1 hx with rfl | hx
    · exact ⟨_, List.mem_cons_self, hy⟩
    · obtain ⟨y, hy, he⟩ := ih hx
      exact ⟨y, List.mem_cons_of_mem _ hy, he⟩

theorem exists_mapM_eq_ok {ε α β : Type} {f : α → Except ε β} {xs : List α}
    (h : ∀ x ∈ xs, ∃ y, f x = .ok y) : ∃ ys, xs.mapM f = .ok ys := by
  induction xs with
  | nil => exact ⟨[], rfl⟩
  | cons x xs ih =>
    obtain ⟨y, hy⟩ := h x List.mem_cons_self
    obtain ⟨ys, hys⟩ := ih fun z hz => h z (List.mem_cons_of_mem _ hz)
    exact ⟨y :: ys, mapM_eq_ok.2 (.cons hy (mapM_eq_ok.1 hys))⟩

theorem map_of_mapM {ε α β γ : Type} {f : α → Except ε β} {xs : List α} {ys : List β} {g : α → γ}
    {k : β → γ} (h : xs.mapM f = .ok ys) (hk : ∀ x ∈ xs, ∀ y, f x = .ok y → k y = g x) :
    ys.map k = xs.map g := by
  have hall := mapM_eq_ok.1 h
  clear h
  induction hall with
  | nil => rfl
  | cons hx _ ih =>
    rw [List.map_cons, List.map_cons, hk _ List.mem_cons_self _ hx,
      ih fun x hx => hk x (List.mem_cons_of_mem _ hx)]

theorem mapM_congr {ε α β : Type} {f g : α → Except ε β} {xs : List α} (h : ∀ x ∈ xs, f x = g x) :
    xs.mapM f = xs.mapM g := by
  induction xs with
  | nil => rfl
  | cons x xs ih =>
    rw [List.mapM_cons, List.mapM_cons, h x List.mem_cons_self,
      ih fun y hy => h y (List.mem_cons_of_mem _ hy)]

namespace Store

def table? (s : Store) : Option Table := s.committed.table? Interactive.table

def Table.entity (t : Table) (r : Row) : Except Fault Interactive :=
  Interactive.ofRow t.schema.names r.values

/-- The row under an id, read as an entity; nothing if there is none. -/
def entity? (s : Store) (id : Int) : Option (Except Fault Interactive) :=
  s.table?.bind fun t => (t.row? id).map t.entity

/-- The ids of the entity table are its keys. -/
def Keyed (s : Store) : Prop := ∃ t, s.table? = some t ∧ t.Keyed

theorem unresolved_eq_none {s : Schema} {ps : List Piece} {n : Nat}
    (h : ∀ c, .column c ∈ ps → (s.place? c.text).isSome ∨ c.isQuoted) :
    unresolved s n ps = none := by
  induction ps generalizing n with
  | nil => rfl
  | cons p ps ih =>
    have hps : ∀ c, .column c ∈ ps → (s.place? c.text).isSome ∨ c.isQuoted :=
      fun c hc => h c (List.mem_cons_of_mem _ hc)
    cases p with
    | words w => exact ih hps
    | column c =>
      have hc : ¬ ((s.place? c.text).isNone && !c.isQuoted) = true := by
        rcases h c List.mem_cons_self with hp | hq
        · simp [Option.isNone_eq_false_iff.2 hp]
        · simp [hq]
      rw [unresolved, if_neg hc]
      exact ih hps

@[simp] theorem own?_none {s : Store} : s.own? none = none := by
  cases h : s.writer? <;> simp [own?, h]

theorem view_none (s : Store) : s.view none = s.committed := by
  rw [view, own?_none]

/-- A selection whose names are there is run on what is committed. -/
theorem query_select {s : Store} {t : Table} (ht : s.table? = some t) (q : Selection)
    (args : List Value) (hq : q.table.text = Interactive.table)
    (hn : ∀ c, .column c ∈ q.pieces → (t.schema.place? c.text).isSome ∨ c.isQuoted)
    (ha : args.length = q.parameters) : (s.query none (.select q) args).2 = t.select q args := by
  have htab : s.committed.tableOf q.table = .ok t := by
    have hfound : s.committed.table? Interactive.table = some t := ht
    simp only [Contents.tableOf, hq, hfound]
  have hready : s.ready none (.select q) args = .ok () := by
    have hun : unresolved t.schema 0 (Statement.select q).pieces = none := unresolved_eq_none hn
    simp [ready, view_none, Contents.prepare, htab, resolveAll, hun, Statement.parameters, ha,
      bind, Except.bind, pure, Except.pure]
  simp [query, hready, view_none, Contents.rows, htab, bind, Except.bind]

/-- A selection that was answered was run on a table that is there. -/
theorem exists_select {s : Store} {q : Selection} {args : List Value} {rows : Rows}
    (h : (s.query none (.select q) args).2 = .ok rows) :
    ∃ t, s.committed.table? q.table.text = some t ∧ t.select q args = .ok rows := by
  simp only [query, view_none] at h
  split at h
  · cases h
  · simp only [Contents.rows, Contents.tableOf] at h
    cases ht : s.committed.table? q.table.text with
    | none => simp [ht, bind, Except.bind] at h
    | some t => exact ⟨t, rfl, by simpa [ht, bind, Except.bind] using h⟩

def Table.stamp (t : Table) (r : Row) : Except Fault (Int × Int) :=
  match t.schema.read r Source.timeName with
  | .int u => .ok (r.number, u)
  | v => .error (.columnType v.className 1
      (((t.schema.place? Source.timeName.text).map t.schema.nameAt).getD Source.timeName.sql))

def pageSelection (mode : ScanMode) (selected : Selected) : Selection :=
  match mode with
  | .full =>
    ⟨selected, Source.tableName, some (.above Source.idName), [Source.idName], .parameter⟩
  | .incremental =>
    ⟨selected, Source.tableName, some (.pairAbove Source.timeName Source.idName),
      [Source.timeName, Source.idName], .parameter⟩

def Table.page (t : Table) (mode : ScanMode) (n : Int) (c : Cursor) : List Row :=
  t.picked (pageSelection mode .all) (Source.pageArguments mode n c) (some n.toNat)

theorem Table.Keyed.page_full {t : Table} (hk : t.Keyed) (n : Int) (c : Cursor) :
    t.page .full n c = (t.rows.filter (c.id < ·.number)).take n.toNat :=
  hk.picked_above _ _ _ _

theorem Table.Keyed.idName_place {t : Table} (hk : t.Keyed) :
    (t.schema.place? Source.idName.text).isSome := by
  have h := hk.key
  exact h.2 ▸ h.1

theorem pageSelection_named {t : Table} (hk : t.Keyed) (mode : ScanMode) {selected : Selected}
     (hs : selected = .all ∨ selected = .columns [Source.idName, Source.timeName]) :
    ∀ c, .column c ∈ (pageSelection mode selected).pieces →
      (t.schema.place? c.text).isSome ∨ c.isQuoted := by
  have hid := hk.idName_place
  have htime : Source.timeName.isQuoted := rfl
  rcases hs with rfl | rfl <;> cases mode <;>
    simp [pageSelection, Selection.pieces, Condition.pieces, commas, List.intersperse, hid, htime]

theorem limitOf_page {n : Int} (hn : 0 ≤ n) (mode : ScanMode) (c : Cursor) (selected : Selected) :
    limitOf (pageSelection mode selected).limit (Source.pageArguments mode n c) =
      .ok (some n.toNat) := by
  have hparameter : (pageSelection mode selected).limit = .parameter := by cases mode <;> rfl
  have hlast : (Source.pageArguments mode n c).getLast?.getD .null = .int n := by cases mode <;> rfl
  simp [hparameter, limitOf, hlast, Value.store, Int.not_lt.2 hn]

theorem query_page {s : Store} {t : Table} (ht : s.table? = some t) (hk : t.Keyed) {n : Int}
    (hn : 0 ≤ n) (mode : ScanMode) (c : Cursor) {selected : Selected}
    (hs : selected = .all ∨ selected = .columns [Source.idName, Source.timeName]) :
    (s.query none (Source.pageStatement mode selected) (Source.pageArguments mode n c)).2 =
      .ok (t.shown (pageSelection mode selected) (t.page mode n c)) := by
  have hstatement : Source.pageStatement mode selected = .select (pageSelection mode selected) := by
    cases mode <;> rfl
  rw [hstatement, query_select ht _ _ (by cases mode <;> rfl) (pageSelection_named hk mode hs)
    (by cases mode <;> rfl),
    t.select_eq (by rcases hs with rfl | rfl <;> cases mode <;> simp [pageSelection])
      (limitOf_page hn mode c selected)]
  cases mode <;> rfl

theorem Table.mem_picked {t : Table} {q : Selection} {args : List Value} {limit : Option Nat}
    {r : Row} (h : r ∈ t.picked q args limit) : r ∈ t.rows := by
  rcases q with ⟨selected, table, condition, order, bound⟩
  have hsorted : ∀ kept : List Row, (∀ x ∈ kept, x ∈ t.rows) →
      ∀ x ∈ (if order.isEmpty then kept
        else kept.mergeSort fun a b => t.schema.compareRows order a b != .gt), x ∈ t.rows := by
    intro kept hkept x hx
    split at hx
    · exact hkept x hx
    · exact hkept x (List.mem_mergeSort.1 hx)
  cases condition with
  | none =>
    have hwhole : ∀ x ∈ t.rows, x ∈ t.rows := fun _ hx => hx
    cases limit with
    | none => exact hsorted _ hwhole r h
    | some n => exact hsorted _ hwhole r (List.mem_of_mem_take h)
  | some c =>
    have hkept : ∀ x ∈ t.rows.filter (t.schema.holds · c args), x ∈ t.rows :=
      fun x hx => (List.mem_filter.1 hx).1
    cases limit with
    | none => exact hsorted _ hkept r h
    | some n => exact hsorted _ hkept r (List.mem_of_mem_take h)

section Sources
variable {s : Store} {t : Table} (ht : s.table? = some t) (hk : t.Keyed)
include ht hk

theorem ofStore_page {n : Int} (hn : 0 ≤ n) (mode : ScanMode) (c : Cursor) :
    (Source.ofStore s).page mode n c = ((t.page mode n c).mapM t.entity).mapError .store := by
  simp only [Source.ofStore, query_page ht hk hn mode c (.inl rfl)]
  cases mode <;> simp only [Table.shown, pageSelection, Interactive.ofRows, List.mapM_map] <;> rfl

theorem ofStore_keys {n : Int} (hn : 0 ≤ n) (mode : ScanMode) (c : Cursor) :
    (Source.ofStore s).keys mode n c = ((t.page mode n c).mapM t.stamp).mapError .store := by
  have hread : ∀ r ∈ t.page mode n c, (do
      return (← Source.intIn
          (t.shown (pageSelection mode (.columns [Source.idName, Source.timeName])) (t.page mode n c))
          [t.schema.read r Source.idName, t.schema.read r Source.timeName] 0,
        ← Source.intIn
          (t.shown (pageSelection mode (.columns [Source.idName, Source.timeName])) (t.page mode n c))
          [t.schema.read r Source.idName, t.schema.read r Source.timeName] 1)) =
      t.stamp r := by
    intro r hr
    rw [hk.number r (Table.mem_picked hr), Table.stamp]
    cases mode <;> cases t.schema.read r Source.timeName <;> rfl
  rw [← mapM_congr hread]
  simp only [Source.ofStore, query_page ht hk hn mode c (.inr rfl)]
  cases mode <;> simp only [Table.shown, pageSelection, Source.keysOf, List.mapM_map] <;> rfl

theorem ofStore_find (id : Int) :
    (Source.ofStore s).find id = ((t.row? id).mapM t.entity).mapError .store := by
  have hid := hk.idName_place
  have hquery := query_select ht ⟨.all, Source.tableName, some (.equals Source.idName), [], .none⟩
    [.int id] rfl (by simp [Selection.pieces, Condition.pieces, hid]) rfl
  rw [t.select_eq (by simp) rfl, hk.picked_equals] at hquery
  have hhead : (t.rows.filter (·.number = id)).head? = t.row? id := List.head?_filter
  simp only [Source.ofStore, Source.findStatement, hquery, Table.shown, List.head?_map, hhead]
  cases t.row? id <;> rfl

theorem ofStore_present (ids : List Int) :
    (Source.ofStore s).present ids = .ok ((t.rows.filter (·.number ∈ ids)).map (·.number)) := by
  have hid := hk.idName_place
  have hquery := query_select ht ⟨.columns [Source.idName], Source.tableName,
    some (.among Source.idName ids.length), [], .none⟩ (ids.map .int) rfl
    (by simp [Selection.pieces, Condition.pieces, commas, hid])
    (by simp [Selection.parameters, Condition.parameters])
  rw [t.select_eq (by simp) rfl, hk.picked_among] at hquery
  have hread : (t.rows.filter (·.number ∈ ids)).mapM (fun r => Source.intIn
      (t.shown ⟨.columns [Source.idName], Source.tableName,
        some (.among Source.idName ids.length), [], .none⟩ (t.rows.filter (·.number ∈ ids)))
      [t.schema.read r Source.idName] 0) =
      .ok ((t.rows.filter (·.number ∈ ids)).map (·.number)) := by
    rw [mapM_eq_ok, List.forall₂_map_right_iff, List.forall₂_same]
    intro r hr
    rw [hk.number r (List.mem_filter.1 hr).1]
    rfl
  simp only [Source.ofStore, Source.presentStatement, hquery]
  simp only [Table.shown, Source.idsOf, List.mapM_map] at hread ⊢
  exact congrArg (Except.mapError Error.store) hread

end Sources

section Limits
variable {s : Store} {n : Int}

/-- A selection with a limit gives no more rows than that, whatever the store holds. -/
theorem length_query {q : Selection} {args : List Value} {limit : Nat} {rows : Rows}
    (hq : q.selected ≠ .count) (hl : limitOf q.limit args = .ok (some limit))
    (h : (s.query none (.select q) args).2 = .ok rows) : rows.rows.length ≤ limit := by
  obtain ⟨t, _, hselect⟩ := exists_select h
  have hshown : t.shown q (t.picked q args (some limit)) = rows := by
    simpa [t.select_eq hq hl] using hselect
  have hpicked : (t.picked q args (some limit)).length ≤ limit := List.length_take_le ..
  rw [← hshown, Table.shown]
  split <;> simpa using hpicked

/-- What is read of the answer to a page comes from no more rows than were asked for. -/
theorem length_read {α : Type} {read : List Value → Except Fault α} {mode : ScanMode} {c : Cursor}
    {selected : Selected} {rows : Rows} {xs : List α} (hn : 0 ≤ n) (hs : selected ≠ .count)
    (h : (s.query none (Source.pageStatement mode selected) (Source.pageArguments mode n c)).2 =
      .ok rows) (hread : rows.rows.mapM read = .ok xs) : xs.length ≤ n.toNat := by
  have hstatement : Source.pageStatement mode selected = .select (pageSelection mode selected) := by
    cases mode <;> rfl
  have hselected : (pageSelection mode selected).selected ≠ .count := by cases mode <;> exact hs
  rw [hstatement] at h
  rw [← (mapM_eq_ok.1 hread).length_eq]
  exact length_query hselected (limitOf_page hn mode c selected) h

theorem length_page {mode : ScanMode} {c : Cursor} {es : List Interactive} (hn : 0 ≤ n)
    (h : (Source.ofStore s).page mode n c = .ok es) : es.length ≤ n.toNat := by
  simp only [Source.ofStore] at h
  split at h
  · next rows hrows =>
    have hes : Interactive.ofRows rows = .ok es := by
      revert h
      cases Interactive.ofRows rows <;> simp [Except.mapError]
    exact length_read hn (by simp) hrows hes
  · cases h

theorem length_keys {mode : ScanMode} {c : Cursor} {ks : List (Int × Int)} (hn : 0 ≤ n)
    (h : (Source.ofStore s).keys mode n c = .ok ks) : ks.length ≤ n.toNat := by
  simp only [Source.ofStore] at h
  split at h
  · next rows hrows =>
    have hks : Source.keysOf rows = .ok ks := by
      revert h
      cases Source.keysOf rows <;> simp [Except.mapError]
    exact length_read hn (by simp) hrows hks
  · cases h

end Limits

end Store
end DualWrite
