import DualWrite.Value.Basic
import Mathlib.Algebra.Order.Field.Rat
import Mathlib.Data.Rat.Cast.Order
import Mathlib.Order.Compare
import Mathlib.Order.WithBot

/-!
# The order of stored values is total

A comparison of two values looks at three things in turn: the class, the exact number, and the
octets or code points one by one. Each is compared in a linear order, so that sorting rows by their
values gives a sorted list whatever the columns hold.
-/
namespace DualWrite

namespace Binary64

/-- The number that a value is, among the rational numbers and the two infinities. -/
def exact (x : Binary64) : WithBot (WithTop ℚ) :=
  match x with
  | .infinite true => ⊥
  | .infinite false => ((⊤ : WithTop ℚ) : WithBot (WithTop ℚ))
  | .finite s m p => (((((finite s m p).toRatio.getD (0, 1)).1 : ℚ) /
      ((finite s m p).toRatio.getD (0, 1)).2 : ℚ) : WithTop ℚ)

/-- Every value but the infinities is a quotient with a positive denominator. -/
theorem toRatio_finite (s : Bool) (m : Nat) (p : Int) :
    ∃ q : Int × Nat, (finite s m p).toRatio = some q ∧ 0 < q.2 := by
  rcases hnd : (if 0 ≤ p then (m * Nat.pow 2 p.toNat, 1) else (m, Nat.pow 2 (-p).toNat)) with ⟨n, d⟩
  have hd : 0 < d := by
    split at hnd
    · rw [← (Prod.mk.inj hnd).2]
      exact Nat.one_pos
    · rw [← (Prod.mk.inj hnd).2]
      exact Nat.two_pow_pos _
  exact ⟨(if s then -(n : Int) else n, d), by simp only [toRatio, hnd], hd⟩

theorem compare_rat (a c : Int) {b d : Nat} (hb : 0 < b) (hd : 0 < d) :
    Ord.compare (a * (d : Int)) (c * (b : Int)) = Ord.compare ((a : ℚ) / b) ((c : ℚ) / d) := by
  have hb' : (0 : ℚ) < b := by exact_mod_cast hb
  have hd' : (0 : ℚ) < d := by exact_mod_cast hd
  have hlt : a * (d : Int) < c * (b : Int) ↔ (a : ℚ) / b < (c : ℚ) / d := by
    rw [div_lt_div_iff₀ hb' hd']
    exact_mod_cast Iff.rfl
  have hgt : c * (b : Int) < a * (d : Int) ↔ (c : ℚ) / d < (a : ℚ) / b := by
    rw [div_lt_div_iff₀ hd' hb']
    exact_mod_cast Iff.rfl
  rcases lt_trichotomy (a * (d : Int)) (c * (b : Int)) with h | h | h
  · rw [compare_lt_iff_lt.2 h, compare_lt_iff_lt.2 (hlt.1 h)]
  · have heq : (a : ℚ) / b = (c : ℚ) / d :=
      le_antisymm (not_lt.1 fun hl => (hgt.2 hl).ne' h) (not_lt.1 fun hl => (hlt.2 hl).ne h)
    rw [compare_eq_iff_eq.2 h, compare_eq_iff_eq.2 heq]
  · rw [compare_gt_iff_gt.2 h, compare_gt_iff_gt.2 (hgt.1 h)]

theorem compare_coe (x y : ℚ) :
    Ord.compare ((x : WithTop ℚ) : WithBot (WithTop ℚ)) ((y : WithTop ℚ) : WithBot (WithTop ℚ)) =
      Ord.compare x y := by
  have hmono : StrictMono fun x : ℚ => ((x : WithTop ℚ) : WithBot (WithTop ℚ)) :=
    WithBot.coe_strictMono.comp WithTop.coe_strictMono
  rw [← cmp_eq_compare, ← cmp_eq_compare]
  exact hmono.cmp_map_eq x y

/-- A quotient is compared with a value by what both are exactly. -/
theorem compareRatio_eq (a : Int) {b : Nat} (hb : 0 < b) (y : Binary64) :
    compareRatio (a, b) y =
      Ord.compare ((((a : ℚ) / b : ℚ) : WithTop ℚ) : WithBot (WithTop ℚ)) y.exact := by
  cases y with
  | infinite s =>
    cases s with
    | false =>
      rw [exact, compare_lt_iff_lt.2 (WithBot.coe_lt_coe.2 (WithTop.coe_lt_top _))]
      rfl
    | true =>
      rw [exact, compare_gt_iff_gt.2 (WithBot.bot_lt_coe _)]
      rfl
  | finite s m p =>
    obtain ⟨q, hq, hpos⟩ := toRatio_finite s m p
    rw [exact, hq, compare_coe, Option.getD_some, ← compare_rat a q.1 hb hpos]
    simp only [compareRatio, hq]

theorem compare_eq (x y : Binary64) : x.compare y = Ord.compare x.exact y.exact := by
  cases x with
  | finite s m p =>
    obtain ⟨q, hq, hpos⟩ := toRatio_finite s m p
    rw [exact, hq, Option.getD_some, ← compareRatio_eq q.1 hpos y]
    simp only [compare, hq]
  | infinite s =>
    cases y with
    | finite t m p =>
      cases s with
      | false =>
        rw [exact, exact, compare_gt_iff_gt.2 (WithBot.coe_lt_coe.2 (WithTop.coe_lt_top _))]; rfl
      | true => rw [exact, exact, compare_lt_iff_lt.2 (WithBot.bot_lt_coe _)]; rfl
    | infinite t =>
      have hlt : (⊥ : WithBot (WithTop ℚ)) < ((⊤ : WithTop ℚ) : WithBot (WithTop ℚ)) :=
        WithBot.bot_lt_coe _
      cases s <;> cases t
      · rw [exact, compare_eq_iff_eq.2 rfl]; rfl
      · rw [exact, exact, compare_gt_iff_gt.2 hlt]; rfl
      · rw [exact, exact, compare_lt_iff_lt.2 hlt]; rfl
      · rw [exact, compare_eq_iff_eq.2 rfl]; rfl

end Binary64

namespace Value

/-- The number that a value is; nothing else is one. -/
def exact : Value → WithBot (WithTop ℚ)
  | .int n => ((n : ℚ) : WithTop ℚ)
  | .real x => x.exact
  | _ => ⊥

def codes : Value → List Nat
  | .text s => s.toList.map Char.toNat
  | .blob b => b.map UInt8.toNat
  | _ => []

theorem compareLists_eq {α : Type} (cmp : α → α → Ordering) (as bs : List α) :
    compareLists cmp as bs = List.compareLex cmp as bs := by
  induction as generalizing bs with
  | nil => cases bs <;> rfl
  | cons a as ih =>
    cases bs with
    | nil => rfl
    | cons b bs =>
      rw [compareLists, List.compareLex_cons_cons, ih]
      cases cmp a b <;> rfl

theorem compareLex_map {α : Type} (f : α → Nat) (as bs : List α) :
    List.compareLex (fun a b => Ord.compare (f a) (f b)) as bs =
      List.compareLex Ord.compare (as.map f) (bs.map f) := by
  induction as generalizing bs with
  | nil => cases bs <;> rfl
  | cons a as ih =>
    cases bs with
    | nil => rfl
    | cons b bs => rw [List.map_cons, List.map_cons, List.compareLex_cons_cons,
        List.compareLex_cons_cons, ih]

theorem exact_int (n : Int) :
    exact (.int n) = ((((n : ℚ) / (1 : Nat) : ℚ) : WithTop ℚ) : WithBot (WithTop ℚ)) := by
  simp [exact]

/-- Two numbers are compared by what they are exactly. -/
theorem compare_numbers {a b : Value} (ha : a.rank = 1) (hb : b.rank = 1) :
    a.compare b = Ord.compare a.exact b.exact := by
  cases a <;> cases b
  case int.int m n =>
    have h := Binary64.compare_rat m n Nat.one_pos Nat.one_pos
    rw [exact_int, exact_int, Binary64.compare_coe, ← h]
    simp [compare]
  case int.real m y =>
    rw [exact_int, exact, ← Binary64.compareRatio_eq m Nat.one_pos]
    rfl
  case real.int x n =>
    have hswap : Ord.compare x.exact (exact (.int n)) =
      (Ord.compare (exact (.int n)) x.exact).swap :=
      Std.OrientedCmp.eq_swap
    rw [show exact (.real x) = x.exact from rfl, hswap, exact_int,
      ← Binary64.compareRatio_eq n Nat.one_pos]
    rfl
  case real.real x y => exact Binary64.compare_eq x y
  all_goals simp [rank] at ha hb

theorem compare_ranks {a b : Value} (h : a.rank ≠ b.rank) :
    a.compare b = Ord.compare a.rank b.rank := by
  cases a <;> cases b
  all_goals first | rfl | exact absurd rfl h

theorem compare_eq (a b : Value) : a.compare b =
    (Ord.compare a.rank b.rank).then ((Ord.compare a.exact b.exact).then
      (List.compareLex Ord.compare a.codes b.codes)) := by
  have hbot : Ord.compare (⊥ : WithBot (WithTop ℚ)) ⊥ = .eq := compare_eq_iff_eq.2 rfl
  have hnil : List.compareLex (Ord.compare : Nat → Nat → Ordering) [] [] = .eq := rfl
  by_cases h : a.rank = b.rank
  · rw [compare_eq_iff_eq.2 h, Ordering.eq_then]
    cases a <;> cases b
    case null.null =>
      change Ordering.eq = (Ord.compare ⊥ ⊥).then (List.compareLex Ord.compare [] [])
      rw [hbot, hnil, Ordering.eq_then]
    case text.text s t =>
      change compareLists _ _ _ = (Ord.compare ⊥ ⊥).then (List.compareLex Ord.compare
        (s.toList.map Char.toNat) (t.toList.map Char.toNat))
      rw [hbot, Ordering.eq_then, ← compareLex_map, compareLists_eq]
    case blob.blob x y =>
      change compareLists _ _ _ = (Ord.compare ⊥ ⊥).then (List.compareLex Ord.compare
        (x.map UInt8.toNat) (y.map UInt8.toNat))
      rw [hbot, Ordering.eq_then, ← compareLex_map, compareLists_eq]
    case int.int | int.real | real.int | real.real =>
      change _ = (Ord.compare _ _).then (List.compareLex Ord.compare [] [])
      rw [compare_numbers rfl rfl, hnil, Ordering.then_eq]
    all_goals cases h
  · rw [compare_ranks h]
    cases hr : Ord.compare a.rank b.rank
    · rfl
    · exact absurd (compare_eq_iff_eq.1 hr) h
    · rfl

theorem transCmp_codes :
    Std.TransCmp fun a b : Value => List.compareLex Ord.compare a.codes b.codes := by
  have h : Std.TransCmp (List.compareLex (Ord.compare : Nat → Nat → Ordering)) := inferInstance
  exact { eq_swap := h.eq_swap, isLE_trans := h.isLE_trans }

instance : Std.TransCmp compare := by
  have h : compare = compareLex (compareOn rank) (compareLex (compareOn exact)
      fun a b => List.compareLex Ord.compare a.codes b.codes) := by
    funext a b
    exact compare_eq a b
  have hcodes := transCmp_codes
  rw [h]
  infer_instance

end Value
end DualWrite
