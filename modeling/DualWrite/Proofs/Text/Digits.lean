import DualWrite.Proofs.Text.Reading
import DualWrite.Text.Basic

/-!
# Digits of whole numbers

What a whole number is written with: its sign, and digits that spell its size. The sign is taken
apart from the digits again.
-/
namespace DualWrite.Text

open Reading

/-- The first digit of a positive number is no zero. -/
theorem head_toDigits {n : Nat} (hn : 0 < n) : ∃ c cs, Nat.toDigits 10 n = c :: cs ∧ c ≠ '0' := by
  induction n using Nat.strongRecOn with
  | ind n ih =>
    by_cases hlt : n < 10
    · refine ⟨n.digitChar, [], Nat.toDigits_of_lt_base hlt, ?_⟩
      intro hzero
      have hvalue := Nat.toNat_digitChar_of_lt_ten hlt
      rw [hzero] at hvalue
      change 48 = _ at hvalue
      omega
    · obtain ⟨c, cs, hcs, hc⟩ := ih (n / 10) (by omega) (by omega)
      rw [Nat.toDigits_of_base_le (by decide) (by omega), hcs]
      exact ⟨c, cs ++ _, rfl, hc⟩

theorem isDigit_toDigits (n : Nat) : ∀ c ∈ Nat.toDigits 10 n, c.isDigit = true := fun _ hc =>
  Nat.isDigit_of_mem_toDigits (by decide) (by decide) hc

theorem digitsValue_toDigits (n : Nat) : digitsValue 10 (Nat.toDigits 10 n) = n := by
  have hfold : ∀ {ds : List Char}, (∀ d ∈ ds, d.isDigit = true) → ∀ k,
      ds.foldl (fun n d => n * 10 + digitValue d) k = Nat.ofDigitChars 10 ds k := by
    intro ds hds
    induction ds with
    | nil => exact fun _ => rfl
    | cons d ds ih =>
      intro k
      rw [List.foldl_cons, ih fun d hd => hds d (List.mem_cons_of_mem _ hd), Nat.ofDigitChars_cons,
        digitValue, if_pos (hds d List.mem_cons_self), Nat.mul_comm]
  rw [digitsValue, hfold (isDigit_toDigits n), Nat.ofDigitChars_ten_toDigits]

def signOf (negative : Bool) : List Char := if negative then ['-'] else []

theorem toString_int (n : Int) : ∃ negative m, (toString n).toList = signOf negative ++
    Nat.toDigits 10 m ∧ signed negative m = n ∧ (negative = true → m ≠ 0) := by
  rw [Int.toString_eq_repr, Int.repr_eq_if]
  split
  · next hn => exact ⟨false, n.toNat, by rw [Nat.toList_repr]; rfl, Int.toNat_of_nonneg hn, nofun⟩
  · refine ⟨true, (-n).toNat, ?_, ?_, ?_⟩
    · rw [String.toList_append, Nat.toList_repr]
      rfl
    · simp only [signed, if_true]
      omega
    · omega

theorem toDigits_cons (n : Nat) : ∃ c cs, Nat.toDigits 10 n = c :: cs ∧ c.isDigit = true := by
  obtain ⟨c, cs, hcs⟩ := List.exists_cons_of_ne_nil (Nat.toDigits_ne_nil (n := n) (b := 10))
  exact ⟨c, cs, hcs, isDigit_toDigits n c (hcs ▸ List.mem_cons_self)⟩

theorem sign_signOf (negative : Bool) (n : Nat) (rest : List Char) :
    sign (signOf negative ++ (Nat.toDigits 10 n ++ rest)) =
    some (negative, Nat.toDigits 10 n ++ rest) := by
  cases negative with
  | true => rfl
  | false =>
    obtain ⟨c, cs, hcs, hdigit⟩ := toDigits_cons n
    have hother : ∀ {x b}, x.isDigit = false →
        (do mark x; return b : Reading Bool) (Nat.toDigits 10 n ++ rest) = none := by
      intro x b hx
      have hne : c ≠ x := by
        rintro rfl
        rw [hdigit] at hx
        cases hx
      rw [hcs, bind_eq, List.cons_append, mark_of_stops (stops_cons.2 (decide_eq_false hne))]
      rfl
    have hsign :
      sign = ((do mark '-'; return true) <|> (do mark '+'; return false) <|> return false) := rfl
    rw [hsign, signOf, if_neg Bool.false_ne_true, List.nil_append, orElse_none _ (hother rfl),
      orElse_none _ (hother rfl)]
    rfl

end DualWrite.Text
