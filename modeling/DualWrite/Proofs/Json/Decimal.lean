import DualWrite.Json.Number
import DualWrite.Json.Record
import DualWrite.Proofs.Text.Digits

/-!
# Whole numbers as they are written

A reader of whole numbers takes back the digits of any number of sixty-four bits with a sign, as
long as no digit, point or exponent follows.
-/
namespace DualWrite.Json
open Text

/-- What may follow a whole number. -/
def EndsNumber (rest : Octets) : Prop :=
  ∀ b r, rest = b :: r → isDigit b = false ∧ b ≠ 0x2E ∧ isExponentMark b = false

theorem endsNumber_comma (rest : Octets) : EndsNumber (0x2C :: rest) := by
  intro b r h
  obtain ⟨rfl, _⟩ := List.cons.inj h
  decide

theorem encode_digit {c : Char} (hc : c.isDigit = true) :
    ∃ b, String.utf8EncodeChar c = [b] ∧ isDigit b = true ∧ digitValue b = c.toNat - 48 := by
  have hdigits : ∀ d < 10, ∃ b, String.utf8EncodeChar (Nat.digitChar d) = [b] ∧ isDigit b = true ∧
      digitValue b = (Nat.digitChar d).toNat - 48 := by
    intro d hd
    refine ⟨UInt8.ofNat (48 + d), ?_⟩
    revert d
    decide
  have hbounds : 48 ≤ c.toNat ∧ c.toNat ≤ 57 := Char.isDigit_iff_toNat.1 hc
  have hchar : Nat.digitChar (c.toNat - 48) = c := by
    apply Char.toNat_inj.1
    rw [Nat.toNat_digitChar_of_lt_ten (by omega)]
    omega
  exact hchar ▸ hdigits (c.toNat - 48) (by omega)

theorem le_ofDigitChars (cs : List Char) (n : Nat) : n ≤ Nat.ofDigitChars 10 cs n := by
  rw [Nat.ofDigitChars_eq_ofDigitChars_zero]
  have hpos : 0 < 10 ^ cs.length := Nat.pow_pos (by decide)
  exact Nat.le_trans (Nat.le_mul_of_pos_left n hpos) (Nat.le_add_right _ _)

/-- Digits are taken up to their end while what they spell fits. -/
theorem takeDigits_encode {cs : List Char} {rest : Octets} (hrest : EndsNumber rest)
    (hcs : ∀ c ∈ cs, c.isDigit = true) (n k : Nat) (hn : Nat.ofDigitChars 10 cs n < wordLimit) :
    takeDigits n k (Utf8.encode cs ++ rest) = (Nat.ofDigitChars 10 cs n, k + cs.length, rest) := by
  induction cs generalizing n k with
  | nil =>
    cases rest with
    | nil => rfl
    | cons b r => simp [takeDigits, (hrest b r rfl).1]
  | cons c cs ih =>
    obtain ⟨b, hb, hdigit, hvalue⟩ := encode_digit (hcs c List.mem_cons_self)
    have hnext : Nat.ofDigitChars 10 (c :: cs) n =
      Nat.ofDigitChars 10 cs (n * 10 + digitValue b) := by
      rw [Nat.ofDigitChars_cons, hvalue, Nat.mul_comm n 10]
      rfl
    rw [hnext] at hn ⊢
    have hfits : n * 10 + digitValue b < wordLimit := Nat.lt_of_le_of_lt (le_ofDigitChars cs _) hn
    rw [Utf8.encode_cons, hb, List.append_assoc, List.singleton_append, takeDigits, hdigit,
      decide_eq_true hfits, Bool.and_self, if_pos rfl,
      ih (fun c hc => hcs c (List.mem_cons_of_mem _ hc)) _ _ hn, List.length_cons]
    rw [Nat.add_assoc, Nat.add_comm 1]

theorem afterWhole_end {rest : Octets} (hrest : EndsNumber rest) (positive : Bool) (n : Nat) :
    afterWhole positive n rest = .ok (whole positive n, rest) := by
  cases rest with
  | nil => rfl
  | cons b r =>
    obtain ⟨hdigit, hpoint, hmark⟩ := hrest b r rfl
    simp [afterWhole, hdigit, hpoint, hmark]

/-- The digits of a positive number are taken from the first one on. -/
theorem unsigned_toDigits (positive : Bool) {n : Nat} (hpos : 0 < n) (rest : Octets) :
    unsigned positive (Utf8.encode (Nat.toDigits 10 n) ++ rest) =
      afterWhole positive (takeDigits 0 0 (Utf8.encode (Nat.toDigits 10 n) ++ rest)).1
        (takeDigits 0 0 (Utf8.encode (Nat.toDigits 10 n) ++ rest)).2.2 := by
  have hall := isDigit_toDigits n
  obtain ⟨c, cs, hcs, hc⟩ := head_toDigits hpos
  obtain ⟨b, hb, hdigit, hvalue⟩ := encode_digit (hall c (hcs ▸ List.mem_cons_self))
  have hne : b ≠ 0x30 := by
    rintro rfl
    apply hc
    have hbounds : 48 ≤ c.toNat ∧ c.toNat ≤ 57 :=
      Char.isDigit_iff_toNat.1 (hall c (hcs ▸ List.mem_cons_self))
    have hzero : c.toNat - 48 = 0 := hvalue.symm
    exact Char.toNat_inj.1 (show c.toNat = 48 by omega)
  rw [hcs, Utf8.encode_cons, hb, List.append_assoc, List.singleton_append]
  simp only [unsigned, beq_eq_false_iff_ne.2 hne, Bool.false_eq_true, if_false, hdigit, if_true]

theorem unsigned_encode {rest : Octets} (hrest : EndsNumber rest) (positive : Bool) {n : Nat}
    (hn : n < wordLimit) : unsigned positive (Utf8.encode (Nat.toDigits 10 n) ++ rest) =
      .ok (whole positive n, rest) := by
  rcases Nat.eq_zero_or_pos n with rfl | hpos
  · have hzero : Utf8.encode (Nat.toDigits 10 0) ++ rest = 0x30 :: rest := rfl
    rw [hzero]
    cases rest with
    | nil => rfl
    | cons b r =>
      simp only [unsigned, (hrest b r rfl).1]
      exact afterWhole_end hrest positive 0
  · have htake := takeDigits_encode hrest (isDigit_toDigits n) 0 0 (by simpa using hn)
    rw [unsigned_toDigits positive hpos, htake, Nat.ofDigitChars_ten_toDigits]
    exact afterWhole_end hrest positive n

theorem skipBlanks_digit {b : UInt8} (hb : isDigit b = true) (r : Octets) :
    skipBlanks (b :: r) = b :: r := by
  have hblank : isBlank b = false := by
    simp only [isDigit, Bool.and_eq_true, decide_eq_true_eq, UInt8.le_iff_toNat_le] at hb
    simp only [isBlank, Bool.or_eq_false_iff, beq_eq_false_iff_ne, ne_eq, ← UInt8.toNat_inj]
    refine ⟨⟨⟨?_, ?_⟩, ?_⟩, ?_⟩ <;> (intro h; rw [h] at hb; revert hb; decide)
  simp [skipBlanks, hblank]

def wholeOf : Except Fault (Number × Octets) → Except Fault (Int × Octets)
  | .error f => .error f
  | .ok (.natural n, rest) =>
    if n < Nat.pow 2 63 then .ok (n, rest) else .error (faultAt (.wrongValue n "i64") rest)
  | .ok (.negative n, rest) => .ok (n, rest)
  | .ok (.real x, rest) => .error (faultAt (.wrongType (.real x) "i64") rest)

/-- The sign of a written number is taken first, then its digits. -/
theorem integer_written (negative : Bool) (n : Nat) (rest : Octets) :
    integer (Utf8.encode (signOf negative ++ Nat.toDigits 10 n) ++ rest) =
      wholeOf (unsigned (!negative) (Utf8.encode (Nat.toDigits 10 n) ++ rest)) := by
  cases negative with
  | true => rfl
  | false =>
    obtain ⟨c, cs, hcs, hc⟩ := toDigits_cons n
    obtain ⟨b, hb, hdigit, _⟩ := encode_digit hc
    have hsign : (b == 0x2D) = false := by
      rw [beq_eq_false_iff_ne]
      rintro rfl
      revert hdigit
      decide
    rw [signOf, if_neg Bool.false_ne_true, List.nil_append, hcs, Utf8.encode_cons, hb,
      List.append_assoc, List.singleton_append]
    simp only [integer, skipBlanks_digit hdigit, hdigit, Bool.or_true, if_true, number, hsign,
      Bool.false_eq_true, if_false, Bool.not_false]
    rfl

theorem integer_encode {n : Int} (hmin : minInt ≤ n) (hmax : n ≤ maxInt) {rest : Octets}
    (hrest : EndsNumber rest) :
    integer (Utf8.encode (toString n).toList ++ rest) = .ok (n, rest) := by
  have hlimit : wordLimit = 18446744073709551616 := rfl
  have hhalf : Nat.pow 2 63 = 9223372036854775808 := rfl
  simp only [minInt, maxInt] at hmin hmax
  obtain ⟨negative, m, htext, rfl, hne⟩ := toString_int n
  rw [htext, integer_written]
  cases negative with
  | false =>
    have hm : (m : Int) ≤ 9223372036854775807 := hmax
    rw [Bool.not_false, unsigned_encode hrest true (by omega)]
    exact if_pos (by omega)
  | true =>
    have hm : -9223372036854775808 ≤ -(m : Int) := hmin
    have hwhole : whole false m = .negative (-(m : Int)) := by
      simp only [whole, Bool.false_eq_true, if_false]
      rw [if_neg (by simp [hne rfl]; omega)]
    rw [Bool.not_true, unsigned_encode hrest false (by omega), hwhole]
    rfl

/-- A reading that fails or gives a number that is not whole. -/
inductive GivesReal : Except Fault (Number × Octets) → Prop
  | error (f : Fault) : GivesReal (.error f)
  | real (x : Binary64) (rest : Octets) : GivesReal (.ok (.real x, rest))

namespace GivesReal
variable (positive : Bool) (n : Nat) (e : Int) (s : Octets)

theorem of_real : GivesReal (Json.real positive n e s) := by
  unfold Json.real
  split
  · exact .error _
  · exact .real _ _

theorem ite {c : Prop} [Decidable c] {a b : Except Fault (Number × Octets)} (ha : GivesReal a)
    (hb : GivesReal b) : GivesReal (if c then a else b) := by
  split
  · exact ha
  · exact hb

theorem of_exponent : GivesReal (exponent positive n e s) := by
  unfold exponent
  dsimp only
  split
  · exact .error _
  · next b r _ =>
    apply ite (.error _)
    rcases exponentDigits (digitValue b) r with ⟨e' | e', rest⟩
    · exact ite (.error _) (.real _ _)
    · exact of_real ..

theorem of_afterDigits : GivesReal (afterDigits positive n e s) := by
  unfold afterDigits
  split
  · split
    · exact of_exponent ..
    · exact of_real ..
  · exact of_real ..

theorem of_fraction : GivesReal (fraction positive n e s) := by
  unfold fraction
  dsimp only
  split
  · split
    · exact of_afterDigits ..
    · split
      · exact .error _
      · exact of_afterDigits ..
  · split
    · exact .error _
    · exact of_afterDigits ..

theorem of_longNumber : GivesReal (longNumber positive n s) := by
  unfold longNumber
  dsimp only
  split
  · split
    · exact of_fraction ..
    · exact of_afterDigits ..
  · exact of_afterDigits ..

/-- A digit behind the digits that fit makes a number too long to be whole. -/
theorem of_afterWhole {b : UInt8} (hb : isDigit b = true) (r : Octets) :
    GivesReal (afterWhole positive n (b :: r)) := by
  unfold afterWhole
  dsimp only
  rw [if_pos hb]
  split
  · exact of_fraction ..
  · split
    · exact of_exponent ..
    · exact of_longNumber ..

end GivesReal

/-- Digits are taken up to their end, or up to one that no longer fits. -/
theorem takeDigits_stops {cs : List Char} {rest : Octets} (hrest : EndsNumber rest)
    (hcs : ∀ c ∈ cs, c.isDigit = true) (n k : Nat) :
    (takeDigits n k (Utf8.encode cs ++ rest)).1 = Nat.ofDigitChars 10 cs n ∧
        (takeDigits n k (Utf8.encode cs ++ rest)).2.2 = rest ∨
      ∃ b r, (takeDigits n k (Utf8.encode cs ++ rest)).2.2 = b :: r ∧ isDigit b = true := by
  induction cs generalizing n k with
  | nil =>
    left
    cases rest with
    | nil => exact ⟨rfl, rfl⟩
    | cons b r => simp [takeDigits, (hrest b r rfl).1]
  | cons c cs ih =>
    obtain ⟨b, hb, hdigit, hvalue⟩ := encode_digit (hcs c List.mem_cons_self)
    have hnext : Nat.ofDigitChars 10 (c :: cs) n =
      Nat.ofDigitChars 10 cs (n * 10 + digitValue b) := by
      rw [Nat.ofDigitChars_cons, hvalue, Nat.mul_comm n 10]
      rfl
    rw [Utf8.encode_cons, hb, List.append_assoc, List.singleton_append, takeDigits, hdigit, hnext]
    by_cases hfits : n * 10 + digitValue b < wordLimit
    · rw [decide_eq_true hfits, Bool.and_self, if_pos rfl]
      exact ih (fun c hc => hcs c (List.mem_cons_of_mem _ hc)) _ _
    · right
      rw [decide_eq_false hfits]
      exact ⟨b, _, rfl, hdigit⟩

/-- The digits of a number are read to their end, or the number is too long to be whole. -/
theorem unsigned_long {rest : Octets} (hrest : EndsNumber rest) (positive : Bool) {n : Nat}
    (hpos : 0 < n) :
    unsigned positive (Utf8.encode (Nat.toDigits 10 n) ++ rest) = .ok (whole positive n, rest) ∨
      GivesReal (unsigned positive (Utf8.encode (Nat.toDigits 10 n) ++ rest)) := by
  rw [unsigned_toDigits positive hpos]
  rcases takeDigits_stops hrest (isDigit_toDigits n) 0 0 with ⟨hn, hr⟩ | ⟨b, r, hr, hb⟩
  · left
    rw [hn, hr, Nat.ofDigitChars_ten_toDigits]
    exact afterWhole_end hrest positive n
  · right
    rw [hr]
    exact .of_afterWhole positive _ hb r

theorem GivesReal.refused {r : Except Fault (Number × Octets)} (h : GivesReal r) :
    ∃ f, wholeOf r = .error f := by
  cases h <;> exact ⟨_, rfl⟩

/-- A written number that sixty-four bits with a sign do not hold is refused. -/
theorem integer_refuses {n : Int} (hn : n < minInt ∨ maxInt < n) {rest : Octets}
    (hrest : EndsNumber rest) : ∃ f, integer (Utf8.encode (toString n).toList ++ rest) =
    .error f := by
  have hhalf : Nat.pow 2 63 = 9223372036854775808 := rfl
  simp only [minInt, maxInt] at hn
  obtain ⟨negative, m, htext, rfl, _⟩ := toString_int n
  rw [htext, integer_written]
  cases negative with
  | false =>
    have hm : 9223372036854775807 < (m : Int) := by
      simp only [signed, Bool.false_eq_true, if_false] at hn
      omega
    rcases unsigned_long hrest true (n := m) (by omega) with hwhole | hreal
    · rw [Bool.not_false, hwhole]
      exact ⟨_, if_neg (by omega)⟩
    · exact hreal.refused
  | true =>
    have hm : 9223372036854775808 < (m : Int) := by
      simp only [signed, if_true] at hn
      omega
    rcases unsigned_long hrest false (n := m) (by omega) with hwhole | hreal
    · have hlarge : whole false m = .real (Binary64.ofRatio true m 1) := by
        simp only [whole, Bool.false_eq_true, if_false]
        rw [if_pos (by simp; omega)]
      rw [Bool.not_true, hwhole, hlarge]
      exact ⟨_, rfl⟩
    · exact hreal.refused

end DualWrite.Json
