import DualWrite.Json.Skip
import DualWrite.Proofs.Json.Decimal
import DualWrite.Proofs.Json.Text

/-!
# Values by their grammar

The texts that are JSON values, with any blanks between their tokens. A value that nobody reads is
passed over up to its last octet, whatever brackets stand open around it.
-/
namespace DualWrite.Json
open Text

theorem octets_of_marks : String.utf8EncodeChar '"' = [0x22] ∧ String.utf8EncodeChar '\\' = [0x5C] ∧
    String.utf8EncodeChar '[' = [0x5B] ∧ String.utf8EncodeChar ']' = [0x5D] ∧
    String.utf8EncodeChar '\x7b' = [0x7B] ∧ String.utf8EncodeChar '\x7d' = [0x7D] ∧
    String.utf8EncodeChar ',' = [0x2C] ∧ String.utf8EncodeChar ':' = [0x3A] ∧
    String.utf8EncodeChar 'u' = [0x75] ∧ String.utf8EncodeChar '-' = [0x2D] ∧
    String.utf8EncodeChar '+' = [0x2B] ∧ String.utf8EncodeChar '.' = [0x2E] ∧
    String.utf8EncodeChar '0' = [0x30] := by decide

section Enclosed
variable (cs : List Char) (rest : Octets)

theorem encode_quoted : Utf8.encode ('"' :: cs ++ ['"']) ++ rest =
    0x22 :: (Utf8.encode cs ++ 0x22 :: rest) := by
  simp [Utf8.encode_cons, octets_of_marks]

theorem encode_bracketed : Utf8.encode ('[' :: cs ++ [']']) ++ rest =
    0x5B :: (Utf8.encode cs ++ 0x5D :: rest) := by
  simp [Utf8.encode_cons, octets_of_marks]

theorem encode_braced : Utf8.encode ('\x7b' :: cs ++ ['\x7d']) ++ rest =
    0x7B :: (Utf8.encode cs ++ 0x7D :: rest) := by
  simp [Utf8.encode_cons, octets_of_marks]

end Enclosed

theorem encode_comma (cs ds : List Char) (rest : Octets) :
    Utf8.encode (cs ++ ',' :: ds) ++ rest = Utf8.encode cs ++ 0x2C :: (Utf8.encode ds ++ rest) := by
  simp only [Utf8.encode_append, Utf8.encode_cons, octets_of_marks, List.append_assoc,
    List.cons_append, List.nil_append]

section Machine
variable {mode mode' : Mode} {stack stack' : List Bracket} {b : UInt8}

theorem skipFrom_go (h : onto mode stack b = .go mode' stack') (r : Octets) :
    skipFrom mode stack (b :: r) = skipFrom mode' stack' r := by
  rw [skipFrom, h]

/-- Behind a value that stands alone nothing is read. -/
theorem skipFrom_closed (r : Octets) : skipFrom .closed [] r = .ok r := by
  cases r <;> rfl

theorem skipFrom_complete (h : onto mode stack b = complete stack') (r : Octets) :
    skipFrom mode stack (b :: r) = skipFrom .closed stack' r := by
  rw [skipFrom, h]
  cases stack' with
  | nil => exact (skipFrom_closed r).symm
  | cons bracket stack => rfl

/-- A mode that waits for a token passes over blanks. -/
theorem skipFrom_skipBlanks (hwait : ∀ b, isBlank b = true → onto mode stack b = .go mode stack)
    (s : Octets) : skipFrom mode stack s = skipFrom mode stack (skipBlanks s) := by
  induction s with
  | nil => rfl
  | cons b s ih =>
    cases hb : isBlank b with
    | true =>
      rw [skipFrom_go (hwait b hb), ih, skipBlanks, skipBlanks, List.dropWhile_cons_of_pos hb]
    | false => rw [skipBlanks, List.dropWhile_cons_of_neg (Bool.eq_false_iff.1 hb)]

variable (stack)

theorem onto_value_blank (hb : isBlank b = true) :
    onto .value stack b = .go .value stack := if_pos hb

theorem onto_key_blank (hb : isBlank b = true) : onto .key stack b = .go .key stack := if_pos hb

theorem onto_colon_blank (hb : isBlank b = true) :
    onto .colon stack b = .go .colon stack := if_pos hb

theorem onto_opened_blank (bracket : Bracket) (hb : isBlank b = true) :
    onto .opened (bracket :: stack) b = .go .opened (bracket :: stack) := by
  cases bracket <;> exact if_pos hb

theorem onto_closed_blank (bracket : Bracket) (hb : isBlank b = true) :
    onto .closed (bracket :: stack) b = .go .closed (bracket :: stack) := by
  cases bracket <;> exact if_pos hb

/-- A list that does not end at once goes on with a value. -/
theorem skipFrom_opened_list {s r : Octets} (hs : skipBlanks s = b :: r) (hb : isBlank b = false)
    (hend : b ≠ 0x5D) :
    skipFrom .opened (.list :: stack) s = skipFrom .value (.list :: stack) s := by
  have honto : onto .opened (.list :: stack) b = onto .value (.list :: stack) b :=
    (if_neg (Bool.eq_false_iff.1 hb)).trans (if_neg hend)
  rw [skipFrom_skipBlanks (fun _ => onto_opened_blank stack .list),
    skipFrom_skipBlanks (fun _ => onto_value_blank _) s, hs, skipFrom, skipFrom, honto]

/-- An object that does not end at once goes on with a key. -/
theorem skipFrom_opened_object {s r : Octets} (hs : skipBlanks s = b :: r) (hb : isBlank b = false)
    (hend : b ≠ 0x7D) :
    skipFrom .opened (.object :: stack) s = skipFrom .key (.object :: stack) s := by
  have honto : onto .opened (.object :: stack) b = onto .key (.object :: stack) b :=
    (if_neg (Bool.eq_false_iff.1 hb)).trans (if_neg hend)
  rw [skipFrom_skipBlanks (fun _ => onto_opened_blank stack .object),
    skipFrom_skipBlanks (fun _ => onto_key_blank _) s, hs, skipFrom, skipFrom, honto]

end Machine

inductive Blank where
  | space
  | tab
  | feed
  | carriage
deriving Repr, DecidableEq

def Blank.char : Blank → Char
  | .space => ' '
  | .tab => '\t'
  | .feed => '\n'
  | .carriage => '\r'

def gap (bs : List Blank) : List Char := bs.map Blank.char

section Gaps
variable (bs : List Blank)

theorem isBlank_gap : ∀ b ∈ Utf8.encode (gap bs), isBlank b = true := by
  have hall : ∀ blank : Blank, (String.utf8EncodeChar blank.char).all isBlank = true := by
    intro blank
    cases blank <;> decide
  intro b hb
  obtain ⟨c, hc, hb⟩ := List.mem_flatMap.1 hb
  obtain ⟨blank, _, rfl⟩ := List.mem_map.1 hc
  exact List.all_eq_true.1 (hall blank) b hb

theorem skipBlanks_gap (s : Octets) : skipBlanks (Utf8.encode (gap bs) ++ s) = skipBlanks s :=
  List.dropWhile_append_of_pos (isBlank_gap bs)

theorem skipFrom_gap {mode : Mode} {stack : List Bracket}
    (hwait : ∀ b, isBlank b = true → onto mode stack b = .go mode stack) (s : Octets) :
    skipFrom mode stack (Utf8.encode (gap bs) ++ s) = skipFrom mode stack s := by
  rw [skipFrom_skipBlanks hwait, skipBlanks_gap, ← skipFrom_skipBlanks hwait]

theorem endsNumber_cons {b : UInt8} (hdigit : isDigit b = false) (hpoint : b ≠ 0x2E)
    (hmark : isExponentMark b = false) (r : Octets) : EndsNumber (b :: r) := by
  intro b' r' h
  obtain ⟨rfl, _⟩ := List.cons.inj h
  exact ⟨hdigit, hpoint, hmark⟩

theorem endsNumber_gap {s : Octets} (hs : EndsNumber s) :
    EndsNumber (Utf8.encode (gap bs) ++ s) := by
  have hblank : ∀ n < 256, isBlank (UInt8.ofNat n) = true → isDigit (UInt8.ofNat n) = false ∧
      UInt8.ofNat n ≠ 0x2E ∧ isExponentMark (UInt8.ofNat n) = false := by decide +kernel
  cases h : Utf8.encode (gap bs) with
  | nil => exact hs
  | cons b r =>
    have hb := isBlank_gap bs b (h ▸ List.mem_cons_self)
    have hends := hblank b.toNat b.toNat_lt
    rw [UInt8.ofNat_toNat] at hends
    obtain ⟨hdigit, hpoint, hmark⟩ := hends hb
    exact endsNumber_cons hdigit hpoint hmark _

end Gaps

/-- Four digits of base sixteen, in letters of either case, and the code that they spell. -/
def Hex (ds : List Char) (n : Nat) : Prop :=
  ds.length = 4 ∧ (∀ d ∈ ds, isHexDigit d = true) ∧ digitsValue 16 ds = n

theorem Hex.of_all {ds : List Char} {n : Nat}
    (h : ds.length = 4 ∧ ds.all isHexDigit = true ∧ digitsValue 16 ds = n) : Hex ds n :=
  ⟨h.1, List.all_eq_true.1 h.2.1, h.2.2⟩

theorem hexDigit_encode {c : Char} (hc : isHexDigit c = true) :
    ∃ b, String.utf8EncodeChar c = [b] ∧ hexDigit b = some (Text.digitValue c) := by
  have hall : ∀ n < 128, isHexDigit (Char.ofNat n) = true →
      String.utf8EncodeChar (Char.ofNat n) = [UInt8.ofNat n] ∧
        hexDigit (UInt8.ofNat n) = some (Text.digitValue (Char.ofNat n)) := by decide +kernel
  have hsmall : c.toNat < 128 := by
    simp only [isHexDigit, Bool.or_eq_true, Bool.and_eq_true, decide_eq_true_eq,
      Char.isDigit_iff_toNat, Char.le_def, UInt32.le_iff_toNat_le] at hc
    have hnine : '9'.toNat = 57 := rfl
    have hf : 'f'.val.toNat = 102 := rfl
    have hF : 'F'.val.toNat = 70 := rfl
    have hcode : c.val.toNat = c.toNat := rfl
    omega
  have hthis := hall c.toNat hsmall
  rw [c.ofNat_toNat] at hthis
  exact ⟨_, hthis hc⟩

theorem Hex.octets {ds : List Char} {n : Nat} (h : Hex ds n) :
    ∃ a b c d, Utf8.encode ds = [a, b, c, d] ∧ hexValue a b c d = some n := by
  obtain ⟨hlength, hdigits, rfl⟩ := h
  match ds, hlength with
  | [p, q, r, s], _ =>
    obtain ⟨a, ha, hp⟩ := hexDigit_encode (hdigits p (by simp))
    obtain ⟨b, hb, hq⟩ := hexDigit_encode (hdigits q (by simp))
    obtain ⟨c, hc, hr⟩ := hexDigit_encode (hdigits r (by simp))
    obtain ⟨d, hd, hs⟩ := hexDigit_encode (hdigits s (by simp))
    refine ⟨a, b, c, d, ?_, ?_⟩
    · simp only [Utf8.encode_cons, Utf8.encode_nil, ha, hb, hc, hd, List.cons_append,
        List.nil_append]
    · simp [hexValue, hp, hq, hr, hs, digitsValue]

def shortLetters : List Char := ['"', '\\', '/', 'b', 'f', 'n', 'r', 't']

theorem shortLetter_octet {e : Char} (he : e ∈ shortLetters) :
    ∃ b, String.utf8EncodeChar e = [b] ∧ b ≠ 0x75 ∧ (shortEscape b).isSome = true := by
  simp only [shortLetters, List.mem_cons, List.not_mem_nil, or_false] at he
  rcases he with rfl | rfl | rfl | rfl | rfl | rfl | rfl | rfl <;>
    exact ⟨_, rfl, by decide, by decide⟩

/-- What may stand between two quotes. -/
inductive Letters : List Char → Prop
  | nil : Letters []
  | plain {c : Char} {cs : List Char} (hcontrol : 0x20 ≤ c.toNat) (hquote : c ≠ '"')
      (hescape : c ≠ '\\') (h : Letters cs) : Letters (c :: cs)
  | short {e : Char} {cs : List Char} (he : e ∈ shortLetters) (h : Letters cs) :
      Letters ('\\' :: e :: cs)
  | code {ds cs : List Char} {n : Nat} (hds : Hex ds n) (h : Letters cs) :
      Letters ('\\' :: 'u' :: ds ++ cs)

section Texts
variable (isKey : Bool) (stack : List Bracket)

theorem skipFrom_plain {bs : Octets} (h : ∀ b ∈ bs, ¬ b < 0x20 ∧ b ≠ 0x22 ∧ b ≠ 0x5C) (r : Octets) :
    skipFrom (.text isKey) stack (bs ++ r) = skipFrom (.text isKey) stack r := by
  induction bs with
  | nil => rfl
  | cons b bs ih =>
    obtain ⟨hcontrol, hquote, hescape⟩ := h b List.mem_cons_self
    have hgo : onto (.text isKey) stack b = .go (.text isKey) stack :=
      (if_neg hquote).trans ((if_neg hescape).trans (if_neg hcontrol))
    rw [List.cons_append, skipFrom_go hgo, ih fun b hb => h b (List.mem_cons_of_mem _ hb)]

theorem skipFrom_short {e : UInt8} (hcode : e ≠ 0x75) (he : (shortEscape e).isSome = true)
    (r : Octets) :
    skipFrom (.text isKey) stack (0x5C :: e :: r) = skipFrom (.text isKey) stack r := by
  have hmark : onto (.text isKey) stack 0x5C = .go (.escape isKey) stack := rfl
  have hletter : onto (.escape isKey) stack e = .go (.text isKey) stack :=
    (if_neg hcode).trans (if_pos he)
  rw [skipFrom_go hmark, skipFrom_go hletter]

theorem skipFrom_code {a b c d : UInt8} {n : Nat} (h : hexValue a b c d = some n) (r : Octets) :
    skipFrom (.text isKey) stack (0x5C :: 0x75 :: a :: b :: c :: d :: r) =
      skipFrom (.text isKey) stack r := by
  simp only [hexValue, bind, pure, Option.bind_eq_some_iff] at h
  obtain ⟨p, hp, q, hq, t, ht, u, hu, _⟩ := h
  have hmark : onto (.text isKey) stack 0x5C = .go (.escape isKey) stack := rfl
  have hcode : onto (.escape isKey) stack 0x75 = .go (.hex isKey 4 true) stack := rfl
  have hdigit : ∀ {b : UInt8} {v due : Nat}, hexDigit b = some v → 1 < due →
      onto (.hex isKey due true) stack b = .go (.hex isKey (due - 1) true) stack := by
    intro b v due hb hdue
    refine (if_pos hdue).trans ?_
    rw [hb]
    rfl
  have hlast : onto (.hex isKey 1 true) stack d = .go (.text isKey) stack :=
    if_pos (by rw [hu]; rfl)
  rw [skipFrom_go hmark, skipFrom_go hcode, skipFrom_go (hdigit hp (by decide)),
    skipFrom_go (hdigit hq (by decide)), skipFrom_go (hdigit ht (by decide)), skipFrom_go hlast]

theorem skipFrom_letters {cs : List Char} (h : Letters cs) (r : Octets) :
    skipFrom (.text isKey) stack (Utf8.encode cs ++ r) = skipFrom (.text isKey) stack r := by
  induction h with
  | nil => rfl
  | plain hcontrol hquote hescape _ ih =>
    rw [Utf8.encode_cons, List.append_assoc,
      skipFrom_plain isKey stack (plain_octets hcontrol hquote hescape), ih]
  | short he _ ih =>
    obtain ⟨b, hb, hcode, hshort⟩ := shortLetter_octet he
    simp only [Utf8.encode_cons, octets_of_marks, hb, List.cons_append, List.nil_append]
    rw [skipFrom_short isKey stack hcode hshort, ih]
  | code hds _ ih =>
    obtain ⟨a, b, c, d, hoctets, hvalue⟩ := hds.octets
    simp only [Utf8.encode_cons, Utf8.encode_append, octets_of_marks, hoctets, List.cons_append,
      List.nil_append]
    rw [skipFrom_code isKey stack hvalue, ih]

end Texts

theorem ne_of_isDigit {b c : UInt8} (hb : isDigit b = true) (hc : isDigit c = false) : b ≠ c := by
  rintro rfl
  exact absurd hb (Bool.eq_false_iff.1 hc)

theorem isBlank_digit {b : UInt8} (hb : isDigit b = true) : isBlank b = false := by
  have hother : ∀ c, isDigit c = false → b ≠ c := fun _ => ne_of_isDigit hb
  simp [isBlank, hother 0x20 rfl, hother 0x0A rfl, hother 0x09 rfl, hother 0x0D rfl]

def Digits (ds : List Char) : Prop := ds ≠ [] ∧ ∀ d ∈ ds, d.isDigit = true

theorem Digits.of_all {ds : List Char} (h : ds ≠ [] ∧ ds.all Char.isDigit = true) : Digits ds :=
  ⟨h.1, List.all_eq_true.1 h.2⟩

/-- The places of a number before the point: a zero alone, or digits from another one on. -/
inductive Whole : List Char → Prop
  | zero : Whole ['0']
  | digits {d : Char} {ds : List Char} (hd : d.isDigit = true) (hne : d ≠ '0')
      (hds : ∀ d ∈ ds, d.isDigit = true) : Whole (d :: ds)

inductive Places : List Char → Prop
  | none : Places []
  | point {ds : List Char} (hds : Digits ds) : Places ('.' :: ds)

inductive Power : List Char → Prop
  | none : Power []
  | mark {m : Char} {sign ds : List Char} (hm : m ∈ ['e', 'E']) (hsign : sign ∈ [[], ['+'], ['-']])
      (hds : Digits ds) : Power (m :: sign ++ ds)

inductive Numeral : List Char → Prop
  | mk {sign w p e : List Char} (hsign : sign ∈ [[], ['-']]) (hw : Whole w) (hp : Places p)
      (he : Power e) : Numeral (sign ++ w ++ p ++ e)

section Numbers
variable (stack : List Bracket)

def endModes : List Mode := [.zero, .digits, .fraction, .exponent]

theorem skipFrom_endsNumber {mode : Mode} (hmode : mode ∈ endModes) {rest : Octets}
    (hrest : EndsNumber rest) : skipFrom mode stack rest = skipFrom .closed stack rest := by
  simp only [endModes, List.mem_cons, List.not_mem_nil, or_false] at hmode
  cases rest with
  | nil =>
    rcases hmode with rfl | rfl | rfl | rfl <;> rcases stack with _ | ⟨_ | _, _⟩ <;> rfl
  | cons b r =>
    obtain ⟨hdigit, hpoint, hmark⟩ := hrest b r rfl
    have hno : ¬ isDigit b = true := Bool.eq_false_iff.1 hdigit
    have hexponent : ¬ isExponent b = true := Bool.eq_false_iff.1 hmark
    have honto : onto mode stack b = onto .closed stack b := by
      rcases hmode with rfl | rfl | rfl | rfl
      · exact (if_neg hno).trans ((if_neg hpoint).trans (if_neg hexponent))
      · exact (if_neg hno).trans ((if_neg hpoint).trans (if_neg hexponent))
      · exact (if_neg hno).trans (if_neg hexponent)
      · exact if_neg hno
    rw [skipFrom, skipFrom, honto]

section Digit
variable {b : UInt8} (hb : isDigit b = true)
include hb

theorem onto_digits_digit : onto .digits stack b = .go .digits stack := if_pos hb

theorem onto_point_digit : onto .point stack b = .go .fraction stack := if_pos hb

theorem onto_fraction_digit : onto .fraction stack b = .go .fraction stack := if_pos hb

theorem onto_exponentSign_digit : onto .exponentSign stack b = .go .exponent stack := if_pos hb

theorem onto_exponent_digit : onto .exponent stack b = .go .exponent stack := if_pos hb

theorem onto_sign_digit (hne : b ≠ 0x30) : onto .sign stack b = .go .digits stack :=
  (if_neg hne).trans (if_pos hb)

theorem onto_value_digit (hne : b ≠ 0x30) : onto .value stack b = .go .digits stack := by
  have hother : ∀ c, isDigit c = false → b ≠ c := fun _ => ne_of_isDigit hb
  change ontoValue stack b = _
  simp [ontoValue, isBlank_digit hb, hb, hne, hother 0x22 rfl, hother 0x5B rfl, hother 0x7B rfl,
    hother 0x2D rfl]

end Digit

theorem skipFrom_digits {mode : Mode}
    (hmode : ∀ b, isDigit b = true → onto mode stack b = .go mode stack)
    {ds : List Char} (hds : ∀ d ∈ ds, d.isDigit = true) (r : Octets) :
    skipFrom mode stack (Utf8.encode ds ++ r) = skipFrom mode stack r := by
  induction ds with
  | nil => rfl
  | cons d ds ih =>
    obtain ⟨b, hb, hdigit, _⟩ := encode_digit (hds d List.mem_cons_self)
    rw [Utf8.encode_cons, hb, List.append_assoc, List.singleton_append,
      skipFrom_go (hmode b hdigit), ih fun d hd => hds d (List.mem_cons_of_mem _ hd)]

/-- The first digit behind a point or a mark leads to a mode that takes the others. -/
theorem skipFrom_first_digits {mode mode' : Mode}
    (hfirst : ∀ b, isDigit b = true → onto mode stack b = .go mode' stack)
    (hmore : ∀ b, isDigit b = true → onto mode' stack b = .go mode' stack)
    {ds : List Char} (hds : Digits ds) (r : Octets) :
    skipFrom mode stack (Utf8.encode ds ++ r) = skipFrom mode' stack r := by
  obtain ⟨hne, hall⟩ := hds
  cases ds with
  | nil => exact absurd rfl hne
  | cons d ds =>
    obtain ⟨b, hb, hdigit, _⟩ := encode_digit (hall d List.mem_cons_self)
    rw [Utf8.encode_cons, hb, List.append_assoc, List.singleton_append,
      skipFrom_go (hfirst b hdigit),
      skipFrom_digits stack hmore fun d hd => hall d (List.mem_cons_of_mem _ hd)]

theorem isDigit_ne_zero {d : Char} (hd : d.isDigit = true) (hne : d ≠ '0') :
    ∃ b, String.utf8EncodeChar d = [b] ∧ isDigit b = true ∧ b ≠ 0x30 := by
  obtain ⟨b, hb, hdigit, hvalue⟩ := encode_digit hd
  refine ⟨b, hb, hdigit, ?_⟩
  rintro rfl
  have hbounds : 48 ≤ d.toNat ∧ d.toNat ≤ 57 := Char.isDigit_iff_toNat.1 hd
  have hzero : d.toNat - 48 = 0 := hvalue.symm
  exact hne (Char.toNat_inj.1 (show d.toNat = 48 by omega))

/-- An octet that begins a number without a sign, in a mode where one may begin. -/
theorem skipFrom_whole {mode : Mode} (hzero : onto mode stack 0x30 = .go .zero stack)
    (hdigit : ∀ b, isDigit b = true → b ≠ 0x30 → onto mode stack b = .go .digits stack)
    {w : List Char} (hw : Whole w) (r : Octets) :
    ∃ mode' ∈ [Mode.zero, Mode.digits],
      skipFrom mode stack (Utf8.encode w ++ r) = skipFrom mode' stack r := by
  cases hw with
  | zero => exact ⟨.zero, by simp, skipFrom_go hzero r⟩
  | digits hd hne hds =>
    obtain ⟨b, hb, hbd, hbne⟩ := isDigit_ne_zero hd hne
    refine ⟨.digits, by simp, ?_⟩
    rw [Utf8.encode_cons, hb, List.append_assoc, List.singleton_append,
      skipFrom_go (hdigit b hbd hbne), skipFrom_digits stack (fun _ => onto_digits_digit stack) hds]

theorem skipFrom_places {mode : Mode} (hmode : mode ∈ [Mode.zero, Mode.digits]) {p : List Char}
    (hp : Places p) (r : Octets) : ∃ mode' ∈ [Mode.zero, Mode.digits, Mode.fraction],
      skipFrom mode stack (Utf8.encode p ++ r) = skipFrom mode' stack r := by
  simp only [List.mem_cons, List.not_mem_nil, or_false] at hmode
  cases hp with
  | none => exact ⟨mode, by rcases hmode with rfl | rfl <;> decide, rfl⟩
  | point hds =>
    refine ⟨.fraction, by decide, ?_⟩
    have hpoint : onto mode stack 0x2E = .go .point stack := by
      rcases hmode with rfl | rfl <;> rfl
    simp only [Utf8.encode_cons, octets_of_marks, List.cons_append, List.nil_append]
    rw [skipFrom_go hpoint]
    exact skipFrom_first_digits stack (fun _ => onto_point_digit stack)
      (fun _ => onto_fraction_digit stack) hds r

/-- The digits behind a mark of an exponent, with a sign or without one. -/
theorem skipFrom_mark {sign ds : List Char} (hsign : sign ∈ [[], ['+'], ['-']]) (hds : Digits ds)
    (r : Octets) :
    skipFrom .mark stack (Utf8.encode (sign ++ ds) ++ r) = skipFrom .exponent stack r := by
  have hmore : ∀ b, isDigit b = true → onto .exponent stack b = .go .exponent stack :=
    fun _ => onto_exponent_digit stack
  have hsigned : skipFrom .exponentSign stack (Utf8.encode ds ++ r) = skipFrom .exponent stack r :=
    skipFrom_first_digits stack (fun _ => onto_exponentSign_digit stack) hmore hds r
  simp only [List.mem_cons, List.not_mem_nil, or_false] at hsign
  rcases hsign with rfl | rfl | rfl
  · refine skipFrom_first_digits stack ?_ hmore hds r
    intro b hb
    have hno : ¬ (b = 0x2B || b = 0x2D) = true := by
      rw [Bool.or_eq_true, decide_eq_true_eq, decide_eq_true_eq]
      rintro (rfl | rfl) <;> exact absurd hb (by decide)
    exact (if_neg hno).trans (if_pos hb)
  · exact (skipFrom_go (b := 0x2B) rfl _).trans hsigned
  · exact (skipFrom_go (b := 0x2D) rfl _).trans hsigned

theorem skipFrom_power {mode : Mode} (hmode : mode ∈ [Mode.zero, Mode.digits, Mode.fraction])
    {e : List Char} (he : Power e) (r : Octets) : ∃ mode' ∈ endModes,
      skipFrom mode stack (Utf8.encode e ++ r) = skipFrom mode' stack r := by
  simp only [List.mem_cons, List.not_mem_nil, or_false] at hmode
  cases he with
  | none => exact ⟨mode, by rcases hmode with rfl | rfl | rfl <;> decide, rfl⟩
  | @mark m sign ds hm hsign hds =>
    have hoctet : ∃ b, String.utf8EncodeChar m = [b] ∧ onto mode stack b = .go .mark stack := by
      simp only [List.mem_cons, List.not_mem_nil, or_false] at hm
      rcases hm with rfl | rfl <;> rcases hmode with rfl | rfl | rfl <;> exact ⟨_, rfl, rfl⟩
    obtain ⟨b, hb, hmark⟩ := hoctet
    refine ⟨.exponent, by decide, ?_⟩
    rw [List.cons_append, Utf8.encode_cons, hb, List.append_assoc, List.singleton_append,
      skipFrom_go hmark, skipFrom_mark stack hsign hds]

theorem skipFrom_numeral {cs : List Char} (h : Numeral cs) {rest : Octets}
    (hrest : EndsNumber rest) :
    skipFrom .value stack (Utf8.encode cs ++ rest) = skipFrom .closed stack rest := by
  obtain ⟨hsign, hw, hp, he⟩ := h
  rename_i sign w p e
  have hbegin : ∃ mode ∈ [Mode.zero, Mode.digits],
      skipFrom .value stack (Utf8.encode sign ++ (Utf8.encode w ++ (Utf8.encode p ++
        (Utf8.encode e ++ rest)))) =
        skipFrom mode stack (Utf8.encode p ++ (Utf8.encode e ++ rest)) := by
    simp only [List.mem_cons, List.not_mem_nil, or_false] at hsign
    rcases hsign with rfl | rfl
    · exact skipFrom_whole stack rfl (fun _ hb hne => onto_value_digit stack hb hne) hw _
    · exact skipFrom_whole stack rfl (fun _ hb hne => onto_sign_digit stack hb hne) hw _
  obtain ⟨mode, hmode, hbegin⟩ := hbegin
  obtain ⟨mode', hmode', hplaces⟩ := skipFrom_places stack hmode hp (Utf8.encode e ++ rest)
  obtain ⟨mode'', hmode'', hpower⟩ := skipFrom_power stack hmode' he rest
  simp only [Utf8.encode_append, List.append_assoc]
  rw [hbegin, hplaces, hpower, skipFrom_endsNumber stack hmode'' hrest]

end Numbers

/-- The blanks around the tokens of a member. -/
structure Layout where
  beforeKey : List Blank
  beforeColon : List Blank
  beforeValue : List Blank
  afterValue : List Blank
deriving Repr, DecidableEq

def Layout.member (l : Layout) (key value : List Char) : List Char :=
  gap l.beforeKey ++ '"' :: key ++ '"' :: gap l.beforeColon ++ ':' :: gap l.beforeValue ++ value ++
    gap l.afterValue

inductive Category where
  | value
  /-- What stands between the brackets of a list that is not empty. -/
  | items
  /-- What stands between the braces of an object that is not empty. -/
  | members
deriving Repr, DecidableEq

/-- The texts of each category. -/
inductive Derives : Category → List Char → Prop
  | word {w : String} (hw : w ∈ ["null", "true", "false"]) : Derives .value w.toList
  | number {cs : List Char} (h : Numeral cs) : Derives .value cs
  | text {cs : List Char} (h : Letters cs) : Derives .value ('"' :: cs ++ ['"'])
  | noItems (bs : List Blank) : Derives .value ('[' :: gap bs ++ [']'])
  | list {cs : List Char} (h : Derives .items cs) : Derives .value ('[' :: cs ++ [']'])
  | noMembers (bs : List Blank) : Derives .value ('\x7b' :: gap bs ++ ['\x7d'])
  | object {cs : List Char} (h : Derives .members cs) : Derives .value ('\x7b' :: cs ++ ['\x7d'])
  | item (before after : List Blank) {v : List Char} (h : Derives .value v) :
      Derives .items (gap before ++ v ++ gap after)
  | items (before after : List Blank) {v cs : List Char} (h : Derives .value v)
      (hs : Derives .items cs) : Derives .items (gap before ++ v ++ gap after ++ ',' :: cs)
  | member (l : Layout) {k v : List Char} (hk : Letters k) (h : Derives .value v) :
      Derives .members (l.member k v)
  | members (l : Layout) {k v cs : List Char} (hk : Letters k) (h : Derives .value v)
      (hs : Derives .members cs) : Derives .members (l.member k v ++ ',' :: cs)

/-- A value begins with an octet that is no blank and ends no list. -/
theorem value_head {cs : List Char} (h : Derives .value cs) :
    ∃ b r, Utf8.encode cs = b :: r ∧ isBlank b = false ∧ b ≠ 0x5D := by
  cases h with
  | word hw =>
    simp only [List.mem_cons, List.not_mem_nil, or_false] at hw
    rcases hw with rfl | rfl | rfl <;> exact ⟨_, _, rfl, by decide, by decide⟩
  | number h =>
    obtain ⟨hsign, hw, _, _⟩ := h
    simp only [List.mem_cons, List.not_mem_nil, or_false] at hsign
    rcases hsign with rfl | rfl
    · cases hw with
      | zero => exact ⟨_, _, rfl, by decide, by decide⟩
      | digits hd hne hds =>
        obtain ⟨b, hb, hdigit, _⟩ := encode_digit hd
        simp only [List.nil_append, List.cons_append, Utf8.encode_cons, hb]
        exact ⟨b, _, rfl, isBlank_digit hdigit, ne_of_isDigit hdigit rfl⟩
    · exact ⟨_, _, rfl, by decide, by decide⟩
  | text | noItems | list | noMembers | object => exact ⟨_, _, rfl, by decide, by decide⟩

/-- What passing over a text of a category comes to. -/
def Passed : Category → List Char → Prop
  | .value, cs => ∀ stack rest, EndsNumber rest →
      skipFrom .value stack (Utf8.encode cs ++ rest) = skipFrom .closed stack rest
  | .items, cs => ∀ stack rest,
      skipFrom .value (.list :: stack) (Utf8.encode cs ++ 0x5D :: rest) =
      skipFrom .closed stack rest
  | .members, cs => ∀ stack rest,
      skipFrom .key (.object :: stack) (Utf8.encode cs ++ 0x7D :: rest) =
      skipFrom .closed stack rest

theorem items_head {cs : List Char} (h : Derives .items cs) (rest : Octets) :
    ∃ b r, skipBlanks (Utf8.encode cs ++ rest) = b :: r ∧ isBlank b = false ∧ b ≠ 0x5D := by
  have helement : ∀ (before : List Blank) (v : List Char) (rest : Octets), Derives .value v →
      ∃ b r, skipBlanks (Utf8.encode (gap before) ++ (Utf8.encode v ++ rest)) = b :: r ∧
        isBlank b = false ∧ b ≠ 0x5D := by
    intro before v rest hv
    obtain ⟨b, r, hb, hblank, hend⟩ := value_head hv
    refine ⟨b, r ++ rest, ?_, hblank, hend⟩
    rw [skipBlanks_gap, hb, List.cons_append, skipBlanks,
      List.dropWhile_cons_of_neg (Bool.eq_false_iff.1 hblank)]
  cases h with
  | item before after hv => simpa using helement before _ _ hv
  | items before after hv hs => simpa using helement before _ _ hv

theorem Layout.skipBlanks_member (l : Layout) (k v : List Char) (rest : Octets) :
    ∃ r, skipBlanks (Utf8.encode (l.member k v) ++ rest) = 0x22 :: r := by
  simp only [Layout.member, Utf8.encode_append, Utf8.encode_cons, octets_of_marks,
    List.append_assoc, List.cons_append, skipBlanks_gap]
  exact ⟨_, rfl⟩

theorem members_head {cs : List Char} (h : Derives .members cs) (rest : Octets) :
    ∃ r, skipBlanks (Utf8.encode cs ++ rest) = 0x22 :: r := by
  cases h with
  | member l => exact l.skipBlanks_member _ _ rest
  | @members l k v cs =>
    rw [encode_comma]
    exact l.skipBlanks_member k v _

section Brackets
variable (bracket : Bracket) (stack : List Bracket) {v : List Char} (hv : Passed .value v)
  {rest : Octets} (hrest : EndsNumber rest)
include hv hrest

theorem skipFrom_element (before after : List Blank) :
    skipFrom .value (bracket :: stack) (Utf8.encode (gap before ++ v ++ gap after) ++ rest) =
      skipFrom .closed (bracket :: stack) rest := by
  simp only [Utf8.encode_append, List.append_assoc]
  rw [skipFrom_gap before fun _ => onto_value_blank _, hv _ _ (endsNumber_gap after hrest),
    skipFrom_gap after fun _ => onto_closed_blank stack bracket]

theorem skipFrom_member (l : Layout) {k : List Char} (hk : Letters k) :
    skipFrom .key (bracket :: stack) (Utf8.encode (l.member k v) ++ rest) =
      skipFrom .closed (bracket :: stack) rest := by
  have hquote : onto .key (bracket :: stack) 0x22 = .go (.text true) (bracket :: stack) := rfl
  have hclose : onto (.text true) (bracket :: stack) 0x22 = .go .colon (bracket :: stack) := rfl
  have hcolon : onto .colon (bracket :: stack) 0x3A = .go .value (bracket :: stack) := rfl
  have hvalue := skipFrom_element bracket stack hv hrest l.beforeValue l.afterValue
  simp only [Utf8.encode_append, List.append_assoc] at hvalue
  simp only [Layout.member, Utf8.encode_append, Utf8.encode_cons, octets_of_marks,
    List.append_assoc, List.cons_append, List.nil_append]
  rw [skipFrom_gap l.beforeKey fun _ => onto_key_blank _, skipFrom_go hquote,
    skipFrom_letters true _ hk, skipFrom_go hclose,
    skipFrom_gap l.beforeColon fun _ => onto_colon_blank _, skipFrom_go hcolon, hvalue]

end Brackets

/-- A text of any category is passed over, whatever brackets are open around it. -/
theorem passed_of_derives {c : Category} {cs : List Char} (h : Derives c cs) : Passed c cs := by
  induction h with
  | @word w hw =>
    intro stack rest _
    simp only [List.mem_cons, List.not_mem_nil, or_false] at hw
    cases stack with
    | nil => rcases hw with rfl | rfl | rfl <;> exact (skipFrom_closed rest).symm
    | cons bracket stack => rcases hw with rfl | rfl | rfl <;> rfl
  | number h => exact fun stack rest hrest => skipFrom_numeral stack h hrest
  | text h =>
    intro stack rest _
    have hquote : onto .value stack 0x22 = .go (.text false) stack := rfl
    have hclose : onto (.text false) stack 0x22 = complete stack := rfl
    rw [encode_quoted, skipFrom_go hquote, skipFrom_letters false _ h, skipFrom_complete hclose]
  | noItems bs =>
    intro stack rest _
    have hopen : onto .value stack 0x5B = .go .opened (.list :: stack) := rfl
    have hclose : onto .opened (.list :: stack) 0x5D = complete stack := rfl
    rw [encode_bracketed, skipFrom_go hopen, skipFrom_gap bs fun _ => onto_opened_blank stack .list,
      skipFrom_complete hclose]
  | list hitems ih =>
    intro stack rest _
    have hopen : onto .value stack 0x5B = .go .opened (.list :: stack) := rfl
    obtain ⟨b, r, hb, hblank, hend⟩ := items_head hitems (0x5D :: rest)
    rw [encode_bracketed, skipFrom_go hopen, skipFrom_opened_list stack hb hblank hend, ih]
  | noMembers bs =>
    intro stack rest _
    have hopen : onto .value stack 0x7B = .go .opened (.object :: stack) := rfl
    have hclose : onto .opened (.object :: stack) 0x7D = complete stack := rfl
    rw [encode_braced, skipFrom_go hopen, skipFrom_gap bs fun _ => onto_opened_blank stack .object,
      skipFrom_complete hclose]
  | object hmembers ih =>
    intro stack rest _
    have hopen : onto .value stack 0x7B = .go .opened (.object :: stack) := rfl
    obtain ⟨r, hb⟩ := members_head hmembers (0x7D :: rest)
    rw [encode_braced, skipFrom_go hopen, skipFrom_opened_object stack hb (by decide) (by decide),
      ih]
  | item before after _ ih =>
    intro stack rest
    have hclose : onto .closed (.list :: stack) 0x5D = complete stack := rfl
    rw [skipFrom_element .list stack ih (endsNumber_cons rfl (by decide) rfl rest) before after,
      skipFrom_complete hclose]
  | items before after _ _ ih ihs =>
    intro stack rest
    have hcomma : onto .closed (.list :: stack) 0x2C = .go .value (.list :: stack) := rfl
    rw [encode_comma, skipFrom_element .list stack ih (endsNumber_comma _) before after,
      skipFrom_go hcomma, ihs]
  | member l hk _ ih =>
    intro stack rest
    have hclose : onto .closed (.object :: stack) 0x7D = complete stack := rfl
    rw [skipFrom_member .object stack ih (endsNumber_cons rfl (by decide) rfl rest) l hk,
      skipFrom_complete hclose]
  | members l hk _ _ ih ihs =>
    intro stack rest
    have hcomma : onto .closed (.object :: stack) 0x2C = .go .key (.object :: stack) := rfl
    rw [encode_comma, skipFrom_member .object stack ih (endsNumber_comma _) l hk,
      skipFrom_go hcomma, ihs]

/-- Exactly the octets of a value are passed over, however deep it is nested. -/
theorem skip_value {cs : List Char} (h : Derives .value cs) {rest : Octets}
    (hrest : EndsNumber rest) : skip (Utf8.encode cs ++ rest) = .ok rest := by
  rw [skip, passed_of_derives h [] rest hrest, skipFrom_closed]

end DualWrite.Json
