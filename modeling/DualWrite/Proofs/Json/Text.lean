import DualWrite.Json.Record
import DualWrite.Proofs.Text.Utf8

/-!
# Texts as they are written

A character that needs no escape stands in a document octet by octet, and is read as it stands; so
is a text of such characters.
-/
namespace DualWrite
open Text

/-- A character that stands for itself inside a written text. -/
def Json.Itself (c : Char) : Prop := 0x20 ≤ c.toNat ∧ c.toNat < 0x80 ∧ c ≠ '"' ∧ c ≠ '\\'

instance (c : Char) : Decidable (Json.Itself c) := inferInstanceAs (Decidable (_ ∧ _ ∧ _ ∧ _))

theorem Json.itself_of_all {cs : List Char} (h : (cs.all fun c => decide (Itself c)) = true) :
    ∀ c ∈ cs, Itself c := by
  intro c hc
  exact of_decide_eq_true (List.all_eq_true.1 h c hc)

namespace Json

theorem content_quote (rest : Octets) : content (0x22 :: rest) = .ok ([], rest) := by
  rw [content.eq_def]
  rfl

/-- Octets that are no controls, quotes or backslashes belong to the content. -/
theorem content_append {bs : Octets} (h : ∀ b ∈ bs, ¬ b < 0x20 ∧ b ≠ 0x22 ∧ b ≠ 0x5C)
    {s cs rest : Octets}
    (hs : content s = .ok (cs, rest)) : content (bs ++ s) = .ok (bs ++ cs, rest) := by
  induction bs with
  | nil => exact hs
  | cons b bs ih =>
    obtain ⟨hcontrol, hquote, hescape⟩ := h b List.mem_cons_self
    have hmore := ih fun b hb => h b (List.mem_cons_of_mem _ hb)
    rw [List.cons_append, content.eq_def]
    simp only [hquote, hcontrol, hescape, if_false, ne_eq, not_false_eq_true, if_true, hmore,
      List.cons_append]

/-- A character that is no control, quote or backslash has only such octets. -/
theorem plain_octets {c : Char} (hlow : 0x20 ≤ c.toNat) (hquote : c ≠ '"') (hescape : c ≠ '\\') :
    ∀ b ∈ String.utf8EncodeChar c, ¬ b < 0x20 ∧ b ≠ 0x22 ∧ b ≠ 0x5C := by
  intro b hb
  by_cases hc : c.toNat < 0x80
  · have hcode := Utf8.toNat_ofNat (n := c.toNat) (by omega)
    have hne : ∀ d : Char, d.toNat < 0x80 → c ≠ d → UInt8.ofNat c.toNat ≠ UInt8.ofNat d.toNat := by
      intro d hd hcd he
      apply hcd
      have hnat := congrArg UInt8.toNat he
      rw [hcode, Utf8.toNat_ofNat (by omega)] at hnat
      exact Char.toNat_inj.1 hnat
    rw [Utf8.encode_ascii hc] at hb
    obtain rfl := List.mem_singleton.1 hb
    refine ⟨?_, hne '"' (by decide) hquote, hne '\\' (by decide) hescape⟩
    rw [UInt8.lt_iff_toNat_lt, hcode]
    exact Nat.not_lt.2 hlow
  · have hhigh := Utf8.not_lt_half_of_mem (Nat.not_lt.1 hc) hb
    refine ⟨fun h => hhigh (UInt8.lt_trans h (by decide)), ?_, ?_⟩ <;>
      (rintro rfl; exact hhigh (by decide))

/-- Characters that need no escape are the content up to the closing quote. -/
theorem content_itself {cs : List Char} (h : ∀ c ∈ cs, Itself c) (rest : Octets) :
    content (Utf8.encode cs ++ 0x22 :: rest) = .ok (Utf8.encode cs, rest) := by
  have hplain : ∀ b ∈ Utf8.encode cs, ¬ b < 0x20 ∧ b ≠ 0x22 ∧ b ≠ 0x5C := by
    intro b hb
    obtain ⟨c, hc, hb⟩ := List.mem_flatMap.1 hb
    obtain ⟨hlow, _, hquote, hescape⟩ := h c hc
    exact plain_octets hlow hquote hescape b hb
  simpa using content_append hplain (content_quote rest)

theorem text_content {s : Octets} {t : String} {rest : Octets}
    (h : content s = .ok (Utf8.encode t.toList, rest)) : text s = .ok (t, rest) := by
  simp only [text, h, Utf8.toString?_encode]

theorem text_itself {s : String} (h : ∀ c ∈ s.toList, Itself c) (rest : Octets) :
    text (Utf8.encode s.toList ++ 0x22 :: rest) = .ok (s, rest) :=
  text_content (content_itself h rest)

section Escapes
variable {s bs rest : Octets} (hs : content s = .ok (bs, rest))
include hs

theorem content_short {e x : UInt8} (he : e ≠ 0x75) (hx : shortEscape e = some x) :
    content (0x5C :: e :: s) = .ok (x :: bs, rest) := by
  rw [content.eq_def]
  simp [he, hx, hs]

theorem content_code {a b c d : UInt8} {n : Nat} (hn : hexValue a b c d = some n)
    (hleading : isLeading n = false) (htrailing : isTrailing n = false) :
    content (0x5C :: 0x75 :: a :: b :: c :: d :: s) =
      .ok (Utf8.encode [Char.ofNat n] ++ bs, rest) := by
  rw [content.eq_def]
  simp [hn, hleading, htrailing, hs]

end Escapes

end Json
end DualWrite
