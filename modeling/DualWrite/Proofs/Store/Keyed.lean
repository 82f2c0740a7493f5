import DualWrite.Validation.Source
import Mathlib.Data.List.Nodup

/-!
# Tables whose ids are keys

In a keyed table the id column is the key, so rows stand in the order of their ids. What a
selection picks from such a table can be said without sorting and without comparing values.
-/
namespace DualWrite.Store
open DualWrite.Source

/-- Two lists of the same elements, both in ascending order of some number, are the same. -/
theorem eq_of_ascending {α : Type} {f : α → Int} {xs ys : List α}
    (hx : xs.Pairwise (fun a b => f a < f b)) (hy : ys.Pairwise (fun a b => f a < f b))
    (h : ∀ a, a ∈ xs ↔ a ∈ ys) : xs = ys := by
  have hne : ∀ a b : α, f a < f b → a ≠ b := fun a b hlt he => by
    rw [he] at hlt
    exact Int.lt_irrefl _ hlt
  have hperm := (List.perm_ext_iff_of_nodup (hx.imp (hne _ _)) (hy.imp (hne _ _))).2 h
  exact hperm.eq_of_pairwise (fun a b _ _ hab hba =>
    absurd (Int.lt_trans hab hba) (Int.lt_irrefl _))
    hx hy

/-- The column `id` is the key and keeps whole numbers; every row stands under its id. -/
structure Table.Keyed (t : Table) : Prop where
  key : t.schema.key?.isSome ∧ t.schema.place? "id" = t.schema.key?
  whole : (((t.schema.place? "id").bind (t.schema.columns[·]?)).map (·.affinity)) = some .integer
  number : ∀ r ∈ t.rows, t.schema.read r idName = .int r.number
  ascending : t.rows.Pairwise (fun a b => a.number < b.number)

def Table.row? (t : Table) (id : Int) : Option Row := t.rows.find? (·.number = id)

def Table.picked (t : Table) (q : Selection) (args : List Value) (limit : Option Nat) : List Row :=
  let kept := match q.condition with
    | some c => t.rows.filter fun r => t.schema.holds r c args
    | none => t.rows
  let sorted := if q.order.isEmpty then kept
    else kept.mergeSort fun a b => t.schema.compareRows q.order a b != .gt
  match limit with
  | some n => sorted.take n
  | none => sorted

def Table.shown (t : Table) (q : Selection) (rows : List Row) : Rows :=
  match q.selected with
  | .columns ns =>
    ⟨ns.map fun n => ((t.schema.place? n.text).map t.schema.nameAt).getD n.sql,
      rows.map fun r => ns.map (t.schema.read r)⟩
  | _ => ⟨t.schema.names, rows.map (·.values)⟩

theorem Table.select_eq (t : Table) {q : Selection} {args : List Value} {limit : Option Nat}
    (hq : q.selected ≠ .count) (hl : limitOf q.limit args = .ok limit) :
    t.select q args = .ok (t.shown q (t.picked q args limit)) := by
  rcases q with ⟨selected, table, condition, order, bound⟩
  have hs : limitOf bound args = .ok limit := hl
  simp only [Table.select, hs, bind, Except.bind]
  cases selected with
  | all => rfl
  | count => exact absurd rfl hq
  | columns ns => rfl

@[simp] theorem compare_int (a b : Int) : (Value.int a).compare (.int b) = Ord.compare a b := rfl

theorem above_int (a b : Int) : (Value.int a).above (.int b) = decide (b < a) := by
  simp [Value.above, Int.compare_eq_gt]

theorem equals_int (a b : Int) : (Value.int a).equals (.int b) = decide (a = b) := by
  simp [Value.equals]

namespace Table.Keyed
variable {t : Table}

theorem place (h : t.Keyed) : ∃ k, t.schema.key? = some k ∧ t.schema.place? idName.text = some k ∧
    k < t.schema.columns.length := by
  obtain ⟨k, hkey⟩ := Option.isSome_iff_exists.1 h.key.1
  have hplace : t.schema.place? "id" = some k := h.key.2.trans hkey
  exact ⟨k, hkey, hplace, (List.findIdx?_eq_some_iff_findIdx_eq.1 hplace).1⟩

theorem facing (h : t.Keyed) (k : Int) : t.schema.facing idName (.int k) = .int k := by
  obtain ⟨c, hc, ha⟩ := Option.map_eq_some_iff.1 h.whole
  have hp : (t.schema.place? idName.text).bind (t.schema.columns[·]?) = some c := hc
  simp only [Schema.facing, hp, ha]
  rfl

theorem above (h : t.Keyed) {r : Row} (hr : r ∈ t.rows) (k : Int) :
    t.schema.above r idName (.int k) = decide (k < r.number) := by
  rw [Schema.above, h.number r hr, h.facing, above_int]

theorem equals (h : t.Keyed) {r : Row} (hr : r ∈ t.rows) (k : Int) :
    t.schema.equals r idName (.int k) = decide (r.number = k) := by
  have hk : (t.schema.key?.isSome && decide (t.schema.place? idName.text = t.schema.key?)) =
    true := by
    rw [Bool.and_eq_true, decide_eq_true_eq]
    exact h.key
  have hv : (Value.int k).store .integer = .int k := rfl
  rw [Schema.equals, if_pos hk, h.number r hr, hv]
  simp

theorem compareRows (h : t.Keyed) {a b : Row} (ha : a ∈ t.rows) (hb : b ∈ t.rows) :
    t.schema.compareRows [idName] a b = Ord.compare a.number b.number := by
  simp only [Schema.compareRows, List.map_cons, List.map_nil, h.number a ha, h.number b hb,
    Value.compareLists, compare_int]
  cases Ord.compare a.number b.number <;> rfl

/-- The rows above a key come in the order in which they stand. -/
theorem picked_above (h : t.Keyed) (sel : Selected) (k b : Int) (n : Nat) :
    t.picked ⟨sel, tableName, some (.above idName), [idName], .parameter⟩ [.int k,
      .int b] (some n) = (t.rows.filter (k < ·.number)).take n := by
  have hkept : (t.rows.filter fun r => t.schema.holds r (.above idName) [.int k, .int b]) =
      t.rows.filter (k < ·.number) :=
    List.filter_congr fun r hr => h.above hr k
  have hsorted : (t.rows.filter (k < ·.number)).Pairwise
      (fun a b => (t.schema.compareRows [idName] a b != .gt) = true) := by
    refine (h.ascending.filter _).imp_of_mem fun {a b} ha hb hab => ?_
    rw [h.compareRows (List.mem_filter.1 ha |>.1) (List.mem_filter.1 hb |>.1)]
    simpa [Int.compare_eq_gt] using Int.le_of_lt hab
  simp only [Table.picked, hkept]
  rw [if_neg (by simp), List.mergeSort_of_pairwise hsorted]

theorem picked_equals (h : t.Keyed) (sel : Selected) (k : Int) :
    t.picked ⟨sel, tableName, some (.equals idName), [], .none⟩ [.int k] none =
      t.rows.filter (·.number = k) := by
  exact List.filter_congr fun r hr => h.equals hr k

theorem picked_among (h : t.Keyed) (sel : Selected) (ids : List Int) :
    t.picked ⟨sel, tableName, some (.among idName ids.length), [], .none⟩ (ids.map .int) none =
      t.rows.filter (·.number ∈ ids) := by
  refine List.filter_congr fun r hr => ?_
  have ht : (ids.map Value.int).take ids.length = ids.map .int := List.take_of_length_le (by simp)
  rw [Schema.holds, ht, List.any_map, Bool.eq_iff_iff, List.any_eq_true, decide_eq_true_eq]
  constructor
  · rintro ⟨k, hk, he⟩
    rw [Function.comp_apply, h.equals hr, decide_eq_true_eq] at he
    exact he ▸ hk
  · intro hk
    exact ⟨r.number, hk, by simp [h.equals hr]⟩

theorem eq_of_number (h : t.Keyed) {a b : Row} (ha : a ∈ t.rows) (hb : b ∈ t.rows)
    (hab : a.number = b.number) : a = b := by
  have hd : (t.rows.map (·.number)).Nodup := List.pairwise_map.2 (h.ascending.imp Int.ne_of_lt)
  exact List.inj_on_of_nodup_map hd ha hb hab

theorem row?_eq_some (h : t.Keyed) {id : Int} {r : Row} :
    t.row? id = some r ↔ r ∈ t.rows ∧ r.number = id := by
  constructor
  · intro hr
    exact ⟨List.mem_of_find?_eq_some hr, by simpa using List.find?_some hr⟩
  · rintro ⟨hr, rfl⟩
    obtain ⟨x, hx⟩ := Option.isSome_iff_exists.1
      (List.find?_isSome.2 ⟨r, hr, by simp⟩ : (t.row? r.number).isSome)
    have hxr : x.number = r.number := by simpa using List.find?_some hx
    exact h.eq_of_number (List.mem_of_find?_eq_some hx) hr hxr ▸ hx

end Table.Keyed

end DualWrite.Store
