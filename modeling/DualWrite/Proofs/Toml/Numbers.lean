import DualWrite.Proofs.Text.Digits
import DualWrite.Proofs.Toml.Texts
import DualWrite.Toml.Reader

/-!
# Whole numbers of a document come back

A whole number at the end of a line is taken for nothing else, no date, no time and no number with a
fraction, and is read back if sixty-four bits with a sign hold it. No value stands where one is
written that they do not hold.
-/
namespace DualWrite.Toml

open Settings (Tree)
open Text
open Text.Reading

/-- A number of digits `n` with its sign, at the end of a line. -/
def numberLine (negative : Bool) (n : Nat) (rest : List Char) : List Char :=
  signOf negative ++ (Nat.toDigits 10 n ++ '\n' :: rest)

section Digits

theorem digitsOf_append {p : Char → Bool} {c : Char} {cs rest : List Char}
    (hall : ∀ d ∈ c :: cs, p d = true) (hrest : Stops p rest) (hscore : Stops (· = '_') rest) :
    digitsOf p (c :: cs ++ rest) = some (c :: cs, rest) := by
  obtain ⟨hc, hcs⟩ := List.forall_mem_cons.1 hall
  have hmany : repeated (one p <|> do mark '_'; one p) (cs ++ rest) = (cs, rest) := by
    clear hall
    induction cs with
    | nil =>
      refine repeated_end ?_
      rw [List.nil_append, orElse_none _ (one_of_stops hrest), bind_eq, mark_of_stops hscore]
      rfl
    | cons d cs ih =>
      obtain ⟨hd, hcs⟩ := List.forall_mem_cons.1 hcs
      rw [List.cons_append, repeated_step (orElse_some _ (one_cons hd _)) (Nat.lt_succ_self _),
        ih hcs]
  rw [digitsOf, bind_eq, List.cons_append, one_cons hc, Option.bind_some, bind_eq, many, hmany]
  rfl

theorem plainDigits_toDigits (n : Nat) (rest : List Char) :
    plainDigits (Nat.toDigits 10 n ++ '\n' :: rest) = some (Nat.toDigits 10 n, '\n' :: rest) := by
  rcases Nat.eq_zero_or_pos n with rfl | hpos
  · rfl
  · obtain ⟨c, cs, hcs, hc⟩ := head_toDigits hpos
    have hdigits := digitsOf_append (p := Char.isDigit) (hcs ▸ isDigit_toDigits n)
      (stops_cons.2 (show '\n'.isDigit = false by decide))
      (stops_cons.2 (show decide ('\n' = '_') = false by decide) : Stops (· = '_') ('\n' :: rest))
    rw [hcs, plainDigits, bind_eq, next?, Option.bind_some, List.cons_append, List.head?_cons]
    simpa [hc] using hdigits

end Digits

section NothingElse
variable (negative : Bool) (n : Nat) (rest : List Char)

theorem numberLine_cons :
    ∃ c cs, numberLine negative n rest = c :: cs ∧ (c = '-' ∨ c.isDigit = true) := by
  cases negative with
  | true => exact ⟨'-', _, rfl, .inl rfl⟩
  | false =>
    obtain ⟨c, cs, hcs, hdigit⟩ := toDigits_cons n
    exact ⟨c, cs ++ '\n' :: rest, by simp [numberLine, signOf, hcs], .inr hdigit⟩

theorem stops_numberLine {p : Char → Bool} (hminus : p '-' = false)
    (hdigit : ∀ c : Char, c.isDigit = true → p c = false) :
    Stops p (numberLine negative n rest) := by
  obtain ⟨c, cs, hcs, rfl | hc⟩ := numberLine_cons negative n rest
  · rw [hcs]
    exact stops_cons.2 hminus
  · rw [hcs]
    exact stops_cons.2 (hdigit c hc)

theorem stops_mark {x : Char} (hminus : x ≠ '-') (hx : x.isDigit = false) :
    Stops (· = x) (numberLine negative n rest) :=
  stops_numberLine negative n rest (decide_eq_false hminus.symm) fun c hc => decide_eq_false (by
    rintro rfl
    rw [hx] at hc
    cases hc)

theorem word_none {x : Char} (hminus : x ≠ '-') (hx : x.isDigit = false) (w : List Char) :
    word (x :: w) (numberLine negative n rest) = none := by
  obtain ⟨c, cs, hcs, _⟩ := numberLine_cons negative n rest
  have hstops := stops_mark negative n rest hminus hx
  rw [hcs] at hstops ⊢
  exact if_neg (of_decide_eq_false (stops_cons.1 hstops))

theorem text_none : text (numberLine negative n rest) = none := by
  have hquote := stops_mark negative n rest (x := '"') (by decide) (by decide)
  have hmark := stops_mark negative n rest (x := '\'') (by decide) (by decide)
  have hbasic : basicText (numberLine negative n rest) = none := bind_none _ (mark_of_stops hquote)
  have hliteral : literalText (numberLine negative n rest) = none :=
    bind_none _ (mark_of_stops hmark)
  have htake : ∀ {q : Char}, Stops (· = q) (numberLine negative n rest) →
      (numberLine negative n rest).take 3 ≠ [q, q, q] := by
    intro q hq
    obtain ⟨c, cs, hcs, _⟩ := numberLine_cons negative n rest
    rw [hcs] at hq ⊢
    intro h
    exact absurd (List.cons.inj h).1 (of_decide_eq_false (stops_cons.1 hq))
  rw [text_eq, if_neg (htake hquote), if_neg (htake hmark), orElse_none _ hbasic, hliteral]
  rfl

/-- Behind so many digits of a number stand more of them, or the end of its line. -/
theorem digitsIn_rest {ds : List Char} (hds : ∀ d ∈ ds, d.isDigit = true) {count low high v : Nat}
    {tail r : List Char} (h : digitsIn count low high (ds ++ '\n' :: tail) = some (v, r)) :
    ∃ ds', (∀ d ∈ ds', d.isDigit = true) ∧ r = ds' ++ '\n' :: tail := by
  dsimp only [digitsIn] at h
  split at h
  · next hcount =>
    obtain ⟨_, hall, _⟩ := hcount
    obtain rfl := (Prod.mk.inj (Option.some.inj h)).2
    have hle : count ≤ ds.length := by
      refine Nat.le_of_not_lt fun hlt => ?_
      have hmem : '\n' ∈ (ds ++ '\n' :: tail).take count := by
        rw [List.take_append]
        obtain ⟨k, hk⟩ : ∃ k, count - ds.length = k + 1 := ⟨count - ds.length - 1, by omega⟩
        rw [hk]
        exact List.mem_append_right _ List.mem_cons_self
      exact absurd (List.all_eq_true.1 hall _ hmem) (by decide)
    exact ⟨ds.drop count, fun d hd => hds d (List.mem_of_mem_drop hd),
      List.drop_append_of_le_length hle⟩
  · cases h

theorem digitsIn_then_mark {x : Char} (hline : x ≠ '\n') (hx : x.isDigit = false) {α : Type}
    (next : Nat → Reading α) (count low high : Nat) :
    (digitsIn (count + 1) low high >>= fun v => mark x >>= fun _ => next v)
      (numberLine negative n rest) = none := by
  rw [bind_eq]
  cases negative with
  | true =>
    have hnone : digitsIn (count + 1) low high (numberLine true n rest) = none :=
      if_neg fun h => absurd (List.all_eq_true.1 h.2.1 '-' List.mem_cons_self) (by decide)
    rw [hnone]
    rfl
  | false =>
    rw [numberLine, signOf, if_neg Bool.false_ne_true, List.nil_append]
    rcases hdigits : digitsIn (count + 1) low high
      (Nat.toDigits 10 n ++ '\n' :: rest) with _ | ⟨v, r⟩
    · rfl
    · obtain ⟨ds, hds, rfl⟩ := digitsIn_rest (isDigit_toDigits n) hdigits
      have hstops : Stops (· = x) (ds ++ '\n' :: rest) := by
        cases ds with
        | nil => exact stops_cons.2 (decide_eq_false hline.symm)
        | cons d ds =>
          refine stops_cons.2 (decide_eq_false ?_)
          rintro rfl
          exact absurd (hds d List.mem_cons_self) (by simp [hx])
      rw [Option.bind_some, bind_none _ (mark_of_stops hstops)]

theorem dateTime_none : dateTime (numberLine negative n rest) = none := by
  have hdate : date (numberLine negative n rest) = none :=
    digitsIn_then_mark negative n rest (by decide) (by decide) _ 3 0 9999
  have htime : time (numberLine negative n rest) = none :=
    digitsIn_then_mark negative n rest (by decide) (by decide) _ 1 0 23
  exact (orElse_none _ (bind_none _ hdate)).trans htime

theorem real_none : real (numberLine negative n rest) = none := by
  rw [real, bind_eq, numberLine, sign_signOf, Option.bind_some, bind_eq, plainDigits_toDigits]
  rfl

theorem specialReal_none : specialReal (numberLine negative n rest) = none := by
  have hword : ∀ {x : Char} {w : List Char}, x.isDigit = false →
      word (x :: w) (Nat.toDigits 10 n ++ '\n' :: rest) = none := by
    intro x w hx
    obtain ⟨c, cs, hcs, hc⟩ := toDigits_cons n
    rw [hcs]
    refine if_neg ?_
    rintro rfl
    rw [hx] at hc
    cases hc
  rw [specialReal, bind_eq, numberLine, sign_signOf, Option.bind_some,
    orElse_none _ (hword (by decide)), hword (by decide)]

theorem based_none {c : Char} (hline : c ≠ '\n') (base : Nat) (p : Char → Bool) :
    based c base p (numberLine negative n rest) = none := by
  have hword : word ['0', c] (numberLine negative n rest) = none := by
    cases negative with
    | true => rfl
    | false =>
      rcases Nat.eq_zero_or_pos n with rfl | hpos
      · exact if_neg hline.symm
      · obtain ⟨d, ds, hds, hd⟩ := head_toDigits hpos
        rw [numberLine, signOf, if_neg Bool.false_ne_true, hds]
        exact if_neg hd
  exact bind_none _ hword

theorem integer_numberLine : integer (numberLine negative n rest) =
    if fits (signed negative n) then some (signed negative n, '\n' :: rest) else none := by
  rw [integer, orElse_none _ (based_none negative n rest (by decide) ..),
    orElse_none _ (based_none negative n rest (by decide) ..),
    orElse_none _ (based_none negative n rest (by decide) ..), decimal, bind_eq,
    numberLine, sign_signOf,
    Option.bind_some, bind_eq, plainDigits_toDigits, Option.bind_some, digitsValue_toDigits, word64]
  split <;> rfl

theorem scalar_numberLine : scalar (numberLine negative n rest) =
    if fits (signed negative n) then
      some (.integer (signed negative n), '\n' :: rest)
    else none := by
  rw [scalar, orElse_none _ (bind_none _ (text_none ..)),
    orElse_none _ (seqRight_none _ (dateTime_none ..)),
    orElse_none _ (seqRight_none _ (real_none ..)),
    orElse_none _ (seqRight_none _ (specialReal_none ..))]
  by_cases hfits : fits (signed negative n) = true
  · have hinteger : (do return Tree.integer (← integer) : Reading Tree)
      (numberLine negative n rest) =
        some (.integer (signed negative n), '\n' :: rest) := by
      rw [bind_eq, integer_numberLine, if_pos hfits]
      rfl
    rw [orElse_some _ hinteger, if_pos hfits]
  · have hinteger : (do return Tree.integer (← integer) : Reading Tree)
      (numberLine negative n rest) =
        none := bind_none _ (by rw [integer_numberLine, if_neg hfits])
    have htrue : word "true".toList (numberLine negative n rest) = none :=
      word_none negative n rest (by decide) (by decide) _
    have hfalse : word "false".toList (numberLine negative n rest) = none :=
      word_none negative n rest (by decide) (by decide) _
    rw [orElse_none _ hinteger, orElse_none _ (seqRight_none _ htrue), seqRight_none _ hfalse,
      if_neg hfits]

end NothingElse

theorem value_of_scalar {cs : List Char} {p : Tree × List Char} (h : scalar cs = some p)
    (depth : Nat) : value depth cs = some p := by
  cases depth with
  | zero => exact h
  | succ depth => exact orElse_some _ h

theorem toString_numberLine (n : Int) (rest : List Char) : ∃ negative m, signed negative m = n ∧
    (toString n).toList ++ '\n' :: rest = numberLine negative m rest := by
  obtain ⟨negative, m, htext, hn, _⟩ := toString_int n
  exact ⟨negative, m, hn, by rw [htext, numberLine, List.append_assoc]⟩

/-- A whole number at the end of a line is read exactly if it fits. -/
theorem value_integer (n : Int) (rest : List Char) (depth : Nat) :
    value depth ((toString n).toList ++ '\n' :: rest) =
      if fits n then some (.integer n, '\n' :: rest) else none := by
  obtain ⟨negative, m, rfl, hline⟩ := toString_numberLine n rest
  have hscalar := scalar_numberLine negative m rest
  rw [hline]
  by_cases hfits : fits (signed negative m) = true
  · rw [if_pos hfits] at hscalar ⊢
    exact value_of_scalar hscalar depth
  · rw [if_neg hfits] at hscalar ⊢
    cases depth with
    | zero => exact hscalar
    | succ depth =>
      have harray : array (value depth) (numberLine negative m rest) = none :=
        bind_none _ (mark_of_stops (stops_mark negative m rest (by decide) (by decide)))
      have htable : inlineTable (value depth) (numberLine negative m rest) = none :=
        bind_none _ (mark_of_stops (stops_mark negative m rest (by decide) (by decide)))
      rw [value, orElse_none _ hscalar, orElse_none _ harray, htable]

theorem value_text (s : String) (rest : List Char) (depth : Nat) :
    value depth (quoted s ++ '\n' :: rest) = some (.text s, '\n' :: rest) := by
  have htext : (do return Tree.text (← text) : Reading Tree) (quoted s ++ '\n' :: rest) =
      some (.text s, '\n' :: rest) := by
    rw [bind_eq, text_quoted]
    rfl
  exact value_of_scalar (orElse_some _ htext) depth

end DualWrite.Toml
