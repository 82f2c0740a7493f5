import DualWrite.Text.Utf8

/-!
# Characters come back from their octets

The cut of the octets of a text has one piece for each of its characters, so strict reading gives
the text back. A character beyond the seven-bit codes has no octet below the half.
-/
namespace DualWrite.Text.Utf8

theorem toNat_ofNat {n : Nat} (hn : n < 256) : (UInt8.ofNat n).toNat = n := by
  rw [UInt8.toNat_ofNat']
  omega

theorem not_lt_half {n : Nat} (hlow : 0x80 ≤ n) (hn : n < 256) : ¬ UInt8.ofNat n < 0x80 := by
  rw [UInt8.lt_iff_toNat_lt, toNat_ofNat hn]
  exact Nat.not_lt.2 hlow

theorem between_iff {lo b hi : UInt8} :
    (decide (lo ≤ b) && decide (b ≤ hi)) = true ↔ lo.toNat ≤ b.toNat ∧ b.toNat ≤ hi.toNat := by
  simp [UInt8.le_iff_toNat_le]

theorem toNat_lt_or (c : Char) : c.toNat < 0xD800 ∨ 0xDFFF < c.toNat ∧ c.toNat < 0x110000 := c.valid

section Owed
variable {n : Nat}

/-- The tails that are owed by the first of two, three and four octets. -/
theorem owed_two (hlow : 2 ≤ n) (hn : n < 32) :
    owed (UInt8.ofNat (n + 0xC0)) = some (1, 0x80, 0xBF) := by
  have hall : ∀ n < 32, 2 ≤ n → owed (UInt8.ofNat (n + 0xC0)) = some (1, 0x80, 0xBF) := by decide
  exact hall n hn hlow

theorem owed_three (hn : n < 16) : owed (UInt8.ofNat (n + 0xE0)) =
    some (2, if n = 0 then 0xA0 else 0x80, if n = 13 then 0x9F else 0xBF) := by
  have hall : ∀ n < 16, owed (UInt8.ofNat (n + 0xE0)) =
    some (2, if n = 0 then 0xA0 else 0x80, if n = 13 then 0x9F else 0xBF) := by decide
  exact hall n hn

theorem owed_four (hn : n < 5) : owed (UInt8.ofNat (n + 0xF0)) =
    some (3, if n = 0 then 0x90 else 0x80, if n = 4 then 0x8F else 0xBF) := by
  have hall : ∀ n < 5, owed (UInt8.ofNat (n + 0xF0)) =
    some (3, if n = 0 then 0x90 else 0x80, if n = 4 then 0x8F else 0xBF) := by decide
  exact hall n hn

end Owed

section Units
variable {a b c d lo hi : UInt8} (r : List UInt8)

theorem units_ascii (ha : a < 0x80) :
    units (a :: r) = ⟨some (Char.ofNat a.toNat), 1⟩ :: units r := by
  rw [units.eq_def]
  simp only [ha, if_true]

theorem units_two (ha : ¬ a < 0x80) (howed : owed a = some (1, lo, hi))
    (hb : (decide (lo ≤ b) && decide (b ≤ hi)) = true) : units (a :: b :: r) =
      ⟨some (Char.ofNat (a.toNat % 32 * 64 + low b)), 2⟩ :: units r := by
  rw [units.eq_def]
  simp only [ha, if_false, howed, hb, if_true]

theorem units_three (ha : ¬ a < 0x80) (howed : owed a = some (2, lo, hi))
    (hb : (decide (lo ≤ b) && decide (b ≤ hi)) = true) (hc : isTail c = true) :
    units (a :: b :: c :: r) =
      ⟨some (Char.ofNat ((a.toNat % 16 * 64 + low b) * 64 + low c)), 3⟩ :: units r := by
  rw [units.eq_def]
  simp [ha, howed, hb, hc]

theorem units_four (ha : ¬ a < 0x80) (howed : owed a = some (3, lo, hi))
    (hb : (decide (lo ≤ b) && decide (b ≤ hi)) = true) (hc : isTail c = true)
    (hd : isTail d = true) : units (a :: b :: c :: d :: r) =
      ⟨some (Char.ofNat (((a.toNat % 8 * 64 + low b) * 64 + low c) * 64 + low d)),
        4⟩ :: units r := by
  rw [units.eq_def]
  simp [ha, howed, hb, hc, hd]

end Units

theorem tail {n : Nat} (hn : n < 64) : isTail (UInt8.ofNat (n + 0x80)) = true ∧
    (UInt8.ofNat (n + 0x80)).toNat = n + 0x80 ∧ low (UInt8.ofNat (n + 0x80)) = n := by
  have hcode := toNat_ofNat (n := n + 0x80) (by omega)
  refine ⟨between_iff.2 ?_, hcode, ?_⟩
  · rw [hcode]
    exact ⟨Nat.le_add_left _ _, show n + 0x80 ≤ 0xBF by omega⟩
  · rw [low, hcode]
    omega

theorem encodeChar_cases (c : Char) :
    c.toNat < 0x80 ∧ String.utf8EncodeChar c = [UInt8.ofNat c.toNat] ∨
    0x80 ≤ c.toNat ∧ c.toNat < 0x800 ∧ String.utf8EncodeChar c =
      [UInt8.ofNat (c.toNat / 64 + 0xC0), UInt8.ofNat (c.toNat % 64 + 0x80)] ∨
    0x800 ≤ c.toNat ∧ c.toNat < 0x10000 ∧ String.utf8EncodeChar c =
      [UInt8.ofNat (c.toNat / 4096 + 0xE0), UInt8.ofNat (c.toNat / 64 % 64 + 0x80),
        UInt8.ofNat (c.toNat % 64 + 0x80)] ∨
    0x10000 ≤ c.toNat ∧ String.utf8EncodeChar c =
      [UInt8.ofNat (c.toNat / 262144 + 0xF0), UInt8.ofNat (c.toNat / 4096 % 64 + 0x80),
        UInt8.ofNat (c.toNat / 64 % 64 + 0x80), UInt8.ofNat (c.toNat % 64 + 0x80)] := by
  have hvalid := toNat_lt_or c
  have hcode : c.val.toNat = c.toNat := rfl
  simp only [String.utf8EncodeChar, hcode]
  by_cases h1 : c.toNat ≤ 0x7F
  · rw [if_pos h1]
    exact .inl ⟨by omega, rfl⟩
  by_cases h2 : c.toNat ≤ 0x7FF
  · rw [if_neg h1, if_pos h2, Nat.mod_eq_of_lt (show c.toNat / 64 < 32 by omega)]
    exact .inr (.inl ⟨by omega, by omega, rfl⟩)
  by_cases h3 : c.toNat ≤ 0xFFFF
  · rw [if_neg h1, if_neg h2, if_pos h3, Nat.mod_eq_of_lt (show c.toNat / 4096 < 16 by omega)]
    exact .inr (.inr (.inl ⟨by omega, by omega, rfl⟩))
  · rw [if_neg h1, if_neg h2, if_neg h3, Nat.mod_eq_of_lt (show c.toNat / 262144 < 8 by omega)]
    exact .inr (.inr (.inr ⟨by omega, rfl⟩))

theorem encode_ascii {c : Char} (hc : c.toNat < 0x80) :
    String.utf8EncodeChar c = [UInt8.ofNat c.toNat] := by
  rcases encodeChar_cases c with ⟨_, he⟩ | ⟨h, _⟩ | ⟨h, _⟩ | ⟨h, _⟩
  · exact he
  all_goals omega

/-- The octets of a character are cut off as that character, whatever follows. -/
theorem units_encodeChar (c : Char) (r : List UInt8) : units (String.utf8EncodeChar c ++ r) =
    ⟨some c, (String.utf8EncodeChar c).length⟩ :: units r := by
  have hvalid := toNat_lt_or c
  have hchar : ∀ n, n = c.toNat → Char.ofNat n = c := by
    rintro n rfl
    exact c.ofNat_toNat
  rcases encodeChar_cases c with ⟨h, he⟩ | ⟨h, h', he⟩ | ⟨h, h', he⟩ | ⟨h, he⟩
  · have hcode := toNat_ofNat (n := c.toNat) (by omega)
    have hlow : UInt8.ofNat c.toNat < 0x80 := by
      rw [UInt8.lt_iff_toNat_lt, hcode]
      exact h
    rw [he]
    refine (units_ascii r hlow).trans ?_
    rw [hcode, hchar _ rfl]
    rfl
  · obtain ⟨_, hb, hb'⟩ := tail (n := c.toNat % 64) (by omega)
    have hcode := toNat_ofNat (n := c.toNat / 64 + 0xC0) (by omega)
    rw [he]
    refine (units_two r (not_lt_half (by omega) (by omega))
      (owed_two (by omega) (by omega)) ?_).trans ?_
    · rw [between_iff, hb]
      exact ⟨Nat.le_add_left _ _, show _ ≤ 0xBF by omega⟩
    · rw [hcode, hb', hchar _ (by omega)]
      rfl
  · obtain ⟨_, hb, hb'⟩ := tail (n := c.toNat / 64 % 64) (by omega)
    obtain ⟨hc, _, hc'⟩ := tail (n := c.toNat % 64) (by omega)
    have hcode := toNat_ofNat (n := c.toNat / 4096 + 0xE0) (by omega)
    rw [he]
    refine (units_three r (not_lt_half (by omega) (by omega)) (owed_three (by omega)) ?_ hc).trans
      ?_
    · rw [between_iff, hb]
      constructor
      · split
        · exact show 0xA0 ≤ _ by omega
        · exact Nat.le_add_left _ _
      · split
        · exact show _ ≤ 0x9F by omega
        · exact show _ ≤ 0xBF by omega
    · rw [hcode, hb', hc', hchar _ (by omega)]
      rfl
  · obtain ⟨_, hb, hb'⟩ := tail (n := c.toNat / 4096 % 64) (by omega)
    obtain ⟨hc, _, hc'⟩ := tail (n := c.toNat / 64 % 64) (by omega)
    obtain ⟨hd, _, hd'⟩ := tail (n := c.toNat % 64) (by omega)
    have hcode := toNat_ofNat (n := c.toNat / 262144 + 0xF0) (by omega)
    rw [he]
    refine (units_four r (not_lt_half (by omega) (by omega)) (owed_four (by omega)) ?_ hc hd).trans
      ?_
    · rw [between_iff, hb]
      constructor
      · split
        · exact show 0x90 ≤ _ by omega
        · exact Nat.le_add_left _ _
      · split
        · exact show _ ≤ 0x8F by omega
        · exact show _ ≤ 0xBF by omega
    · rw [hcode, hb', hc', hd', hchar _ (by omega)]
      rfl

theorem units_encode (cs : List Char) :
    units (encode cs) = cs.map fun c => ⟨some c, (String.utf8EncodeChar c).length⟩ := by
  induction cs with
  | nil => rfl
  | cons c cs ih => rw [encode_cons, units_encodeChar, ih, List.map_cons]

theorem decode_encode (cs : List Char) : decode (encode cs) = some cs := by
  rw [decode, units_encode, List.mapM_map]
  change cs.mapM (fun c => pure (id c)) = pure cs
  rw [List.mapM_pure, List.map_id]

theorem toString?_encode (s : String) : toString? (encode s.toList) = some s := by
  rw [toString?, decode_encode, Option.map_some, String.ofList_toList]

/-- No octet of a character beyond seven bits is a code of its own. -/
theorem not_lt_half_of_mem {c : Char} (hc : 0x80 ≤ c.toNat) {b : UInt8}
    (hb : b ∈ String.utf8EncodeChar c) : ¬ b < 0x80 := by
  have hvalid := toNat_lt_or c
  rcases encodeChar_cases c with ⟨h, _⟩ | ⟨_, _, he⟩ | ⟨_, _, he⟩ | ⟨_, he⟩
  · omega
  all_goals
    simp only [he, List.mem_cons, List.not_mem_nil, or_false] at hb
  · rcases hb with rfl | rfl <;> exact not_lt_half (by omega) (by omega)
  · rcases hb with rfl | rfl | rfl <;> exact not_lt_half (by omega) (by omega)
  · rcases hb with rfl | rfl | rfl | rfl <;> exact not_lt_half (by omega) (by omega)

end DualWrite.Text.Utf8
