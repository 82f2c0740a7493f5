import DualWrite.Proofs.Json.Grammar

/-!
# Texts as anyone may spell them

A character may stand for itself, or behind a backslash as a letter, as a code or as two codes.
Every spelling of a text is read as that text.
-/
namespace DualWrite.Json
open Text

def shortForms : List (Char × Char) :=
  [('"', '"'), ('\\', '\\'), ('/', '/'), ('b', '\x08'), ('f', '\x0c'), ('n', '\n'),
    ('r', '\r'), ('t', '\t')]

/-- What stands between two quotes, and the characters that it spells. -/
inductive Spells : List Char → List Char → Prop
  | nil : Spells [] []
  | plain {c : Char} {w t : List Char} (hcontrol : 0x20 ≤ c.toNat) (hquote : c ≠ '"')
      (hescape : c ≠ '\\') (h : Spells w t) : Spells (c :: w) (c :: t)
  | short {e c : Char} {w t : List Char} (he : (e, c) ∈ shortForms) (h : Spells w t) :
      Spells ('\\' :: e :: w) (c :: t)
  | code {ds w t : List Char} {c : Char} (hds : Hex ds c.toNat) (h : Spells w t) :
      Spells ('\\' :: 'u' :: ds ++ w) (c :: t)
  | pair {ds es w t : List Char} {high low : Nat} (hds : Hex ds high) (hes : Hex es low)
      (hhigh : isLeading high = true) (hlow : isTrailing low = true) (h : Spells w t) :
      Spells ('\\' :: 'u' :: ds ++ '\\' :: 'u' :: es ++ w) (pair high low :: t)

theorem Spells.letters {w t : List Char} (h : Spells w t) : Letters w := by
  induction h with
  | nil => exact .nil
  | plain hcontrol hquote hescape _ ih => exact .plain hcontrol hquote hescape ih
  | short he _ ih => exact .short (List.mem_map_of_mem (f := Prod.fst) he) ih
  | code hds _ ih => exact .code hds ih
  | pair hds hes _ _ _ ih =>
    rw [List.append_assoc]
    exact .code hds (.code hes ih)

/-- A text of characters that need no escape spells itself. -/
theorem spells_itself {cs : List Char} (h : ∀ c ∈ cs, Itself c) : Spells cs cs := by
  induction cs with
  | nil => exact .nil
  | cons c cs ih =>
    obtain ⟨hcontrol, _, hquote, hescape⟩ := h c List.mem_cons_self
    exact .plain hcontrol hquote hescape (ih fun d hd => h d (List.mem_cons_of_mem _ hd))

theorem content_short_form {e c : Char} (he : (e, c) ∈ shortForms) {s bs rest : Octets}
    (hs : content s = .ok (bs, rest)) :
    content (0x5C :: (String.utf8EncodeChar e ++ s)) = .ok (Utf8.encode [c] ++ bs, rest) := by
  have hoctets : ∃ x y, String.utf8EncodeChar e = [x] ∧ Utf8.encode [c] = [y] ∧ x ≠ 0x75 ∧
      shortEscape x = some y := by
    simp only [shortForms, List.mem_cons, List.not_mem_nil, or_false, Prod.mk.injEq] at he
    rcases he with ⟨rfl, rfl⟩ | ⟨rfl, rfl⟩ | ⟨rfl, rfl⟩ | ⟨rfl, rfl⟩ | ⟨rfl, rfl⟩ | ⟨rfl, rfl⟩ |
      ⟨rfl, rfl⟩ | ⟨rfl, rfl⟩ <;> exact ⟨_, _, rfl, rfl, by decide, rfl⟩
  obtain ⟨x, y, hx, hy, hcode, hshort⟩ := hoctets
  rw [hx, hy]
  exact content_short hs hcode hshort

/-- The code of a character is never one half of a pair. -/
theorem not_half (c : Char) : isLeading c.toNat = false ∧ isTrailing c.toNat = false := by
  have hvalid := Utf8.toNat_lt_or c
  simp only [isLeading, isTrailing, Bool.and_eq_false_iff, decide_eq_false_iff_not]
  omega

theorem content_pair {a b c d a' b' c' d' : UInt8} {high low : Nat}
    (hds : hexValue a b c d = some high) (hes : hexValue a' b' c' d' = some low)
    (hhigh : isLeading high = true) (hlow : isTrailing low = true) {s bs rest : Octets}
    (hs : content s = .ok (bs, rest)) :
    content (0x5C :: 0x75 :: a :: b :: c :: d :: 0x5C :: 0x75 :: a' :: b' :: c' :: d' :: s) =
      .ok (Utf8.encode [pair high low] ++ bs, rest) := by
  have hno : isTrailing high = false := by
    simp only [isLeading, Bool.and_eq_true, decide_eq_true_eq] at hhigh
    simp only [isTrailing, Bool.and_eq_false_iff, decide_eq_false_iff_not]
    omega
  rw [content.eq_def]
  simp [hds, hes, hhigh, hlow, hno, hs]

theorem content_spells {w t : List Char} (h : Spells w t) (rest : Octets) :
    content (Utf8.encode w ++ 0x22 :: rest) = .ok (Utf8.encode t, rest) := by
  induction h with
  | nil => exact content_quote rest
  | plain hcontrol hquote hescape _ ih =>
    rw [Utf8.encode_cons, Utf8.encode_cons, List.append_assoc]
    exact content_append (plain_octets hcontrol hquote hescape) ih
  | @short e c w t he _ ih =>
    have hshort := content_short_form he ih
    simpa [octets_of_marks] using hshort
  | @code ds w t c hds _ ih =>
    obtain ⟨x, y, z, u, hoctets, hvalue⟩ := hds.octets
    have hcode := content_code ih hvalue (not_half c).1 (not_half c).2
    rw [c.ofNat_toNat] at hcode
    simpa [octets_of_marks, hoctets] using hcode
  | pair hds hes hhigh hlow _ ih =>
    obtain ⟨x, y, z, u, hoctets, hvalue⟩ := hds.octets
    obtain ⟨x', y', z', u', hoctets', hvalue'⟩ := hes.octets
    have hpair := content_pair hvalue hvalue' hhigh hlow ih
    simpa [octets_of_marks, hoctets, hoctets'] using hpair

theorem text_spells {w : List Char} {t : String} (h : Spells w t.toList) (rest : Octets) :
    text (Utf8.encode w ++ 0x22 :: rest) = .ok (t, rest) :=
  text_content (content_spells h rest)

theorem string_spells {w : List Char} {t : String} (h : Spells w t.toList) (rest : Octets) :
    string (Utf8.encode ('"' :: w ++ ['"']) ++ rest) = .ok (t, rest) := by
  have hquote : ∀ r, skipBlanks (0x22 :: r) = 0x22 :: r := fun _ => rfl
  simp only [encode_quoted, string, hquote, if_true, text_spells h]

theorem kind_spells {α : Type} {kinds : List (String × α)} {w : List Char} {t : String} {k : α}
    (h : Spells w t.toList) (hk : kinds.lookup t = some k) (rest : Octets) :
    kind kinds (Utf8.encode ('"' :: w ++ ['"']) ++ rest) = .ok (k, rest) := by
  have hquote : ∀ r, skipBlanks (0x22 :: r) = 0x22 :: r := fun _ => rfl
  simp only [encode_quoted, kind, hquote, if_true, named, text_spells h, hk]

end DualWrite.Json
