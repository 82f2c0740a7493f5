import DualWrite.Proofs.Text.Reading
import DualWrite.Toml.Printer

/-!
# Texts of a document come back

However a text is written, between quotes or apostrophes, single or triple, with escapes or without,
it is read back, if the line ends behind it. For a text between triple marks the way leads over a
grammar of what can stand there.
-/
namespace DualWrite.Toml

open Text (isHexDigit digitsValue Reading)
open Text.Reading

/-- A backslash with what stands behind it, read as one character and never as the end of a line. -/
structure Escape (es : List Char) (c : Char) : Prop where
  head : ∃ x e, es = '\\' :: x :: e ∧ x ∉ [' ', '\t', '\n', '\r']
  read : ∀ rest, escaped (es ++ rest) = some (c, rest)

theorem escape_quote : Escape ['\\', '"'] '"' where
  head := ⟨'"', [], rfl, by decide⟩
  read _ := rfl

/-- A control that has no short escape is read from its code point. -/
theorem escaped_code {n : Nat} (hn : n < 128) (rest : List Char) :
    escaped (['\\', 'u', '0', '0', upperHex (n / 16), upperHex (n % 16)] ++ rest) =
      some (Char.ofNat n, rest) := by
  have hdigits : ∀ n < 128, isHexDigit (upperHex (n / 16)) = true ∧
      isHexDigit (upperHex (n % 16)) = true ∧
      digitsValue 16 ['0', '0', upperHex (n / 16), upperHex (n % 16)] = n := by decide +kernel
  have hvalid : n.isValidChar := .inl (by omega)
  obtain ⟨hhigh, hlow, hvalue⟩ := hdigits n hn
  have hcode : hexDigits 4 ('0' :: '0' :: upperHex (n / 16) :: upperHex (n % 16) :: rest) =
      some (['0', '0', upperHex (n / 16), upperHex (n % 16)], rest) := by
    simp only [hexDigits, bind_eq, pure_eq, one_cons (show isHexDigit '0' = true by decide),
      one_cons hhigh, one_cons hlow, Option.bind_some]
  change codePoint 4 ('0' :: '0' :: upperHex (n / 16) :: upperHex (n % 16) :: rest) = _
  rw [codePoint, bind_eq, hcode, Option.bind_some, hvalue, charOf?, if_pos hvalid]
  rfl

def shortEscapes : List (Char × Char) :=
  [('\x08', 'b'), ('\t', 't'), ('\n', 'n'), ('\x0c', 'f'), ('\r', 'r'), ('\\', '\\')]

theorem escapeOf?_cases (c : Char) : (∃ x, (c, x) ∈ shortEscapes ∧ escapeOf? c = some [x]) ∨
    (∀ x, (c, x) ∉ shortEscapes) ∧ escapeOf? c =
      if isShown c then none
        else some ['u', '0', '0', upperHex (c.toNat / 16), upperHex (c.toNat % 16)] := by
  by_cases h : c ∈ shortEscapes.map (·.1)
  · obtain ⟨⟨c, x⟩, hin, rfl⟩ := List.mem_map.1 h
    refine .inl ⟨x, hin, ?_⟩
    simp only [shortEscapes, List.mem_cons, Prod.mk.injEq, List.not_mem_nil, or_false] at hin
    rcases hin with ⟨rfl, rfl⟩ | ⟨rfl, rfl⟩ | ⟨rfl, rfl⟩ | ⟨rfl, rfl⟩ |
      ⟨rfl, rfl⟩ | ⟨rfl, rfl⟩ <;> rfl
  · refine .inr ⟨fun x hx => h (List.mem_map.2 ⟨_, hx, rfl⟩), ?_⟩
    simp only [shortEscapes, List.map_cons, List.map_nil, List.mem_cons, List.not_mem_nil, or_false,
      not_or] at h
    obtain ⟨hb, ht, hn, hf, hr, hs⟩ := h
    simp only [escapeOf?, hb, ht, hn, hf, hr, hs, if_false]

theorem escape_of {c : Char} {e : List Char} (h : escapeOf? c = some e) : Escape ('\\' :: e) c := by
  rcases escapeOf?_cases c with ⟨x, hin, he⟩ | ⟨_, he⟩
  · obtain rfl := Option.some.inj (he.symm.trans h)
    simp only [shortEscapes, List.mem_cons, Prod.mk.injEq, List.not_mem_nil, or_false] at hin
    rcases hin with ⟨rfl, rfl⟩ | ⟨rfl, rfl⟩ | ⟨rfl, rfl⟩ | ⟨rfl, rfl⟩ | ⟨rfl, rfl⟩ | ⟨rfl, rfl⟩ <;>
      exact ⟨⟨_, _, rfl, by decide⟩, fun _ => rfl⟩
  · rw [h] at he
    split at he
    · cases he
    · next hshown =>
      obtain rfl := Option.some.inj he
      have hlow : c.toNat < 128 := by
        simp only [isShown, Bool.or_eq_true, Bool.and_eq_true, decide_eq_true_eq] at hshown
        omega
      refine ⟨⟨_, _, rfl, by decide⟩, fun rest => ?_⟩
      have hread := escaped_code hlow rest
      rwa [c.ofNat_toNat] at hread

/-- A character without an escape is shown, and means nothing else than itself. -/
theorem of_escapeOf?_none {c : Char} (h : escapeOf? c = none) : isShown c = true ∧ c ≠ '\\' := by
  rcases escapeOf?_cases c with ⟨x, _, he⟩ | ⟨hnone, he⟩
  · rw [h] at he
    cases he
  · rw [h] at he
    refine ⟨?_, ?_⟩
    · split at he
      · assumption
      · cases he
    · rintro rfl
      exact hnone '\\' (by decide)

def isPlain (c : Char) : Bool := isShown c && c ≠ '"' && c ≠ '\\'

theorem isPlain_of {c : Char} (hq : c ≠ '"') (h : escapeOf? c = none) : isPlain c = true := by
  obtain ⟨hshown, hslash⟩ := of_escapeOf?_none h
  simp [isPlain, hshown, hq, hslash]

theorem Escape.length_pos {es : List Char} {c : Char} (h : Escape es c) : 0 < es.length := by
  obtain ⟨x, e, rfl, _⟩ := h.head
  exact Nat.succ_pos _

theorem Escape.stops {es : List Char} {c : Char} (h : Escape es c) (tail : List Char) :
    Stops isPlain (es ++ tail) := by
  obtain ⟨x, e, rfl, _⟩ := h.head
  exact stops_cons.2 (by decide)

theorem length_lt_append {cs : List Char} (h : 0 < cs.length) (tail : List Char) :
    tail.length < (cs ++ tail).length := by
  rw [List.length_append]
  omega

section OneLine

/-- What is written between quotes on one line is read character by character. -/
theorem repeated_escapes (n : Nat) (cs rest : List Char) :
    repeated (one isPlain <|> escaped) (escapes false n cs ++ '"' :: rest) = (cs, '"' :: rest) := by
  induction cs generalizing n with
  | nil =>
    refine repeated_end ?_
    rw [escapes, List.nil_append, orElse_none _ (one_of_stops (stops_cons.2 (by decide)))]
    rfl
  | cons c cs ih =>
    have hescape : ∀ {es tail : List Char}, Escape es c →
        repeated (one isPlain <|> escaped) tail = (cs, '"' :: rest) →
        repeated (one isPlain <|> escaped) (es ++ tail) = (c :: cs, '"' :: rest) := by
      intro es tail hes htail
      have hitem : (one isPlain <|> escaped) (es ++ tail) = some (c, tail) := by
        rw [orElse_none _ (one_of_stops (hes.stops tail))]
        exact hes.read tail
      rw [repeated_step hitem (length_lt_append hes.length_pos tail), htail]
    rw [escapes]
    by_cases hq : c = '"'
    · subst hq
      simpa using hescape escape_quote (ih 0)
    · rw [if_neg hq]
      cases he : escapeOf? c with
      | some e => simpa using hescape (escape_of he) (ih 0)
      | none =>
        have hitem : (one isPlain <|> escaped) (c :: (escapes false 0 cs ++ '"' :: rest)) =
            some (c, escapes false 0 cs ++ '"' :: rest) :=
              orElse_some _ (one_cons (isPlain_of hq he) _)
        have hstep := repeated_step hitem (by simp)
        rw [ih 0] at hstep
        simpa using hstep

theorem basicText_escapes (cs rest : List Char) :
    basicText ('"' :: (escapes false 0 cs ++ '"' :: rest)) = some (cs, rest) := by
  have hmany : many (one isPlain <|> escaped) (escapes false 0 cs ++ '"' :: rest) =
    some (cs, '"' :: rest) := by
    rw [many, repeated_escapes]
  have hbasic : basicText = do
      mark '"'
      let cs ← many (one isPlain <|> escaped)
      mark '"'
      return cs := rfl
  simp only [hbasic, bind_eq, mark_cons, hmany, Option.bind_some, pure_eq]

def isBare (c : Char) : Bool := isShown c && c ≠ '\''

theorem literalText_append {cs : List Char} (hcs : ∀ c ∈ cs, isBare c = true) (rest : List Char) :
    literalText ('\'' :: (cs ++ '\'' :: rest)) = some (cs, rest) := by
  have hrun : run isBare (cs ++ '\'' :: rest) = some (cs, '\'' :: rest) :=
    run_append hcs (stops_cons.2 (by decide))
  have hliteral : literalText = do
      mark '\''
      let cs ← run isBare
      mark '\''
      return cs := rfl
  simp only [hliteral, bind_eq, mark_cons, hrun, Option.bind_some, pure_eq]

end OneLine

section Lines

/-- What can stand between triple marks, and what it means: line ends, one or two marks, runs of
characters that stand for themselves, and escapes. -/
inductive Body (q : Char) (plain : Char → Bool) (escape : List Char → Char → Prop) :
    List Char → List Char → Prop
  | nil : Body q plain escape [] []
  | newline {es vs} : Body q plain escape es vs → Body q plain escape ('\n' :: es) ('\n' :: vs)
  | marks {m es vs} : m = 1 ∨ m = 2 → Stops (· = q) es → Body q plain escape es vs →
      Body q plain escape (List.replicate m q ++ es) (List.replicate m q ++ vs)
  | run {cs es vs} : cs ≠ [] → (∀ c ∈ cs, plain c = true) → Stops plain es →
    Body q plain escape es vs →
      Body q plain escape (cs ++ es) (cs ++ vs)
  | escape {e c es vs} : escape e c → Body q plain escape es vs →
      Body q plain escape (e ++ es) (c :: vs)

/-- Items that are taken from a text and what they are together. -/
def Takes (item : Reading (List Char)) (cs vs rest : List Char) : Prop :=
  ∃ ps, repeated item cs = (ps, rest) ∧ ps.flatten = vs

theorem Takes.cons {item : Reading (List Char)} {cs cs' v vs rest : List Char}
    (h : item cs = some (v, cs')) (hshorter : cs'.length < cs.length)
    (ht : Takes item cs' vs rest) : Takes item cs (v ++ vs) rest := by
  obtain ⟨ps, hps, rfl⟩ := ht
  exact ⟨v :: ps, by rw [repeated_step h hshorter, hps], rfl⟩

theorem takeWhile_replicate {q : Char} (k : Nat) {tail : List Char} (htail : Stops (· = q) tail) :
    ((List.replicate k q ++ tail).takeWhile (· = q)).length = k := by
  have hrun : run (· = q) (List.replicate k q ++ tail) = some (List.replicate k q, tail) :=
    run_append (fun c hc => by simp [List.eq_of_mem_replicate hc]) htail
  rw [(Prod.mk.inj (Option.some.inj hrun)).1, List.length_replicate]

/-- One or two marks are taken as they are, be it before the three at the end. -/
theorem innerQuotes_marks {q : Char} {m : Nat} (hm : m = 1 ∨ m = 2) {es rest : List Char}
    (hes : Stops (· = q) es) (hrest : Stops (· = q) rest) :
    innerQuotes q (List.replicate m q ++ (es ++ ([q, q, q] ++ rest))) =
      some (List.replicate m q, es ++ ([q, q, q] ++ rest)) := by
  cases es with
  | nil =>
    have hlength := takeWhile_replicate (m + 3) hrest
    rcases hm with rfl | rfl
    · change ((List.replicate 1 q ++ ([] ++ ([q, q, q] ++ rest))).takeWhile (· = q)).length =
        4 at hlength
      rw [innerQuotes, hlength]
      rfl
    · change ((List.replicate 2 q ++ ([] ++ ([q, q, q] ++ rest))).takeWhile (· = q)).length =
        5 at hlength
      rw [innerQuotes, hlength]
      rfl
  | cons c es =>
    have hnext : Stops (· = q) (c :: es ++ ([q, q, q] ++ rest)) := stops_cons.2 (stops_cons.1 hes)
    have hlength := takeWhile_replicate m hnext
    rcases hm with rfl | rfl
    · rw [innerQuotes, hlength]
      rfl
    · rw [innerQuotes, hlength]
      rfl

/-- The three marks at the end are no part of the text. -/
theorem innerQuotes_end {q : Char} {rest : List Char} (hrest : Stops (· = q) rest) :
    innerQuotes q ([q, q, q] ++ rest) = none := by
  have hlength := takeWhile_replicate 3 hrest
  change (([q, q, q] ++ rest).takeWhile (· = q)).length = 3 at hlength
  rw [innerQuotes, hlength]
  rfl

theorem newline_other {c : Char} (hn : c ≠ '\n') (hr : c ≠ '\r') (rest : List Char) :
    newline (c :: rest) = none :=
  (orElse_none _ (if_neg hn)).trans (if_neg hr)

/-- What the pieces of a text between triple marks `q` have to take: whole runs of what stands for
itself, and single escapes. -/
structure Pieces (q : Char) (plain : Char → Bool) (escape : List Char → Char → Prop)
    (piece : Reading (List Char)) : Prop where
  marks : plain q = false
  lines : plain '\n' = false
  escapes : ∀ {e c} tail, escape e c → Stops plain (e ++ tail)
  newline_mark : ∀ r, newline (q :: r) = none
  newline_plain : ∀ {c} r, plain c = true → newline (c :: r) = none
  newline_escape : ∀ {e c} tail, escape e c → newline (e ++ tail) = none
  stops : ∀ {c} r, c = '\n' ∨ c = q → piece (c :: r) = none
  run : ∀ {cs tail}, cs ≠ [] → (∀ c ∈ cs, plain c = true) → Stops plain tail →
    piece (cs ++ tail) = some (cs, tail)
  escape : ∀ {e c} tail, escape e c → piece (e ++ tail) = some ([c], tail) ∧ 0 < e.length

section Grammar
variable {q : Char} {plain : Char → Bool} {escape : List Char → Char → Prop}
  {piece : Reading (List Char)} {es vs rest : List Char}

/-- One more character in front that stands for itself. -/
theorem Body.cons (hp : Pieces q plain escape piece) {c : Char} (hc : plain c = true)
    (h : Body q plain escape es vs) : Body q plain escape (c :: es) (c :: vs) := by
  -- A run is as long as it can be, so it begins here only if what follows does not go on.
  have halone : Stops plain es → Body q plain escape ([c] ++ es) ([c] ++ vs) := fun hstops =>
    .run nofun (by simpa using hc) hstops h
  cases h with
  | nil => exact halone (stops_nil _)
  | newline _ => exact halone (stops_cons.2 hp.lines)
  | marks hm _ _ => exact halone (by rcases hm with rfl | rfl <;> exact stops_cons.2 hp.marks)
  | escape he _ => exact halone (hp.escapes _ he)
  | @run cs es vs _ hall hstops htail =>
    have hlonger : Body q plain escape ((c :: cs) ++ es) ((c :: cs) ++ vs) :=
      .run nofun (List.forall_mem_cons.2 ⟨hc, hall⟩) hstops htail
    exact hlonger

/-- What can stand behind `n` marks, at most two of which are in a row. -/
def Behind (q : Char) (plain : Char → Bool) (escape : List Char → Char → Prop) (n : Nat)
    (es vs : List Char) : Prop :=
  ∃ m es' vs', n + m ≤ 2 ∧ es = List.replicate m q ++ es' ∧ vs = List.replicate m q ++ vs' ∧
    Stops (· = q) es' ∧ Body q plain escape es' vs'

theorem Behind.of_body {n : Nat} (hn : n ≤ 2) (hstops : Stops (· = q) es)
    (h : Body q plain escape es vs) : Behind q plain escape n es vs :=
  ⟨0, es, vs, hn, rfl, rfl, hstops, h⟩

theorem Behind.mark {n : Nat} (h : Behind q plain escape (n + 1) es vs) :
    Behind q plain escape n (q :: es) (q :: vs) := by
  obtain ⟨m, es, vs, hm, rfl, rfl, hstops, h⟩ := h
  exact ⟨m + 1, es, vs, by omega, rfl, rfl, hstops, h⟩

theorem Behind.body (h : Behind q plain escape 0 es vs) : Body q plain escape es vs := by
  obtain ⟨m, es, vs, hm, rfl, rfl, hstops, h⟩ := h
  rcases Nat.eq_zero_or_pos m with rfl | hpos
  · exact h
  · exact .marks (by omega) hstops h

theorem Body.newline_none (hp : Pieces q plain escape piece) (h : Body q plain escape es vs)
    (hvs : '\n' ∉ vs) : Toml.newline (es ++ ([q, q, q] ++ rest)) = none := by
  cases h with
  | nil => exact hp.newline_mark _
  | newline _ => exact absurd List.mem_cons_self hvs
  | marks hm _ _ => rcases hm with rfl | rfl <;> exact hp.newline_mark _
  | escape he _ =>
    rw [List.append_assoc]
    exact hp.newline_escape _ he
  | run hne hall _ _ =>
    obtain ⟨c, cs, rfl⟩ := List.exists_cons_of_ne_nil hne
    exact hp.newline_plain _ (hall c List.mem_cons_self)

/-- The pieces, line ends and marks of a text are taken up to the three marks at its end. -/
theorem Body.takes (hp : Pieces q plain escape piece) (hrest : Stops (· = q) rest)
    (h : Body q plain escape es vs) :
    Takes (piece <|> lineEnd <|> innerQuotes q) (es ++ ([q, q, q] ++ rest)) vs
      ([q, q, q] ++ rest) := by
  have hpiece : ∀ {cs p}, piece cs = some p → (piece <|> lineEnd <|> innerQuotes q) cs = some p :=
    fun h => orElse_some _ h
  have hmark : ∀ r, (piece <|> lineEnd <|> innerQuotes q) (q :: r) = innerQuotes q (q :: r) := by
    intro r
    have hline : lineEnd (q :: r) = none := bind_none _ (hp.newline_mark r)
    rw [orElse_none _ (hp.stops r (.inr rfl)), orElse_none _ hline]
  induction h with
  | nil => exact ⟨[], repeated_end ((hmark _).trans (innerQuotes_end hrest)), rfl⟩
  | @newline es vs _ ih =>
    have hitem : (piece <|> lineEnd <|> innerQuotes q) ('\n' :: (es ++ ([q, q, q] ++ rest))) =
        some (['\n'], es ++ ([q, q, q] ++ rest)) := by
      rw [orElse_none _ (hp.stops _ (.inl rfl))]
      exact orElse_some _ rfl
    exact .cons hitem (Nat.lt_succ_self _) ih
  | @marks m es vs hm hstops _ ih =>
    rw [List.append_assoc]
    have hitem : (piece <|> lineEnd <|> innerQuotes q)
        (List.replicate m q ++ (es ++ ([q, q, q] ++ rest))) =
          some (List.replicate m q, es ++ ([q, q, q] ++ rest)) := by
      have hinner := innerQuotes_marks hm hstops hrest
      rcases hm with rfl | rfl <;> exact (hmark _).trans hinner
    exact .cons hitem (length_lt_append (by rw [List.length_replicate]; omega) _) ih
  | @run cs es vs hne hall hstops _ ih =>
    rw [List.append_assoc]
    have hnext : Stops plain (es ++ ([q, q, q] ++ rest)) := by
      cases es with
      | nil => exact stops_cons.2 hp.marks
      | cons c es => exact stops_cons.2 (stops_cons.1 hstops)
    exact .cons (hpiece (hp.run hne hall hnext)) (length_lt_append (List.length_pos_iff.2 hne) _) ih
  | @escape e c es vs he _ ih =>
    rw [List.append_assoc]
    obtain ⟨hread, hpos⟩ := hp.escape (es ++ ([q, q, q] ++ rest)) he
    exact Takes.cons (hpiece hread) (length_lt_append hpos _) ih

/-- A text between triple marks comes back, if it has a line of its own when it has several. -/
theorem longText_body (hp : Pieces q plain escape piece) (hrest : Stops (· = q) rest)
    (h : Body q plain escape es vs) :
    longText q piece ([q, q, q] ++ ((if vs.contains '\n' then ['\n'] else []) ++
      (es ++ ([q, q, q] ++ rest)))) = some (vs, rest) := by
  obtain ⟨ps, hps, hflat⟩ := h.takes hp hrest
  have hopening : (newline <|> pure ()) ((if vs.contains '\n' then ['\n'] else []) ++
      (es ++ ([q, q, q] ++ rest))) = some ((), es ++ ([q, q, q] ++ rest)) := by
    split
    · exact orElse_some _ rfl
    · next hlined =>
      rw [List.nil_append, orElse_none _ (h.newline_none hp (by simpa using hlined)), pure_eq]
  have hmany : many (piece <|> lineEnd <|> innerQuotes q) (es ++ ([q, q, q] ++ rest)) =
      some (ps, [q, q, q] ++ rest) := by
    rw [many, hps]
  simp only [longText, bind_eq, word_append, Option.bind_some, hopening, hmany, pure_eq, hflat]

end Grammar

theorem basicPieces : Pieces '"' isPlain Escape
    (run1 isPlain <|> joint <|> do return [← escaped]) where
  marks := rfl
  lines := rfl
  escapes tail h := h.stops tail
  newline_mark _ := rfl
  newline_plain {c} r h := newline_other (by rintro rfl; cases h) (by rintro rfl; cases h) r
  newline_escape {e c} tail h := by
    obtain ⟨x, e, rfl, _⟩ := h.head
    rfl
  stops {c} r h := by
    have hstops : isPlain c = false := by rcases h with rfl | rfl <;> rfl
    rw [orElse_none _ (run1_of_stops (stops_cons.2 hstops))]
    rcases h with rfl | rfl <;> rfl
  run hne hall hstops := orElse_some _ (run1_append hne hall hstops)
  escape {e c} tail h := by
    refine ⟨?_, h.length_pos⟩
    have hjoint : joint (e ++ tail) = none := by
      obtain ⟨x, e, rfl, hx⟩ := h.head
      simp only [List.mem_cons, List.not_mem_nil, or_false, not_or] at hx
      obtain ⟨hblank, htab, hn, hr⟩ := hx
      have hspace : spaces (x :: (e ++ tail)) = some ((), x :: (e ++ tail)) := by
        rw [spaces, bind_eq, run_of_stops (stops_cons.2 (by simp [isSpace, hblank, htab]))]
        rfl
      simp only [joint, List.cons_append, bind_eq, mark_cons, Option.bind_some, hspace,
        newline_other hn hr, Option.bind_none]
    rw [orElse_none _ (run1_of_stops (h.stops tail)), orElse_none _ hjoint, bind_eq, h.read]
    rfl

theorem literalPieces : Pieces '\'' isBare (fun _ _ => False) (run1 isBare) where
  marks := rfl
  lines := rfl
  escapes _ h := h.elim
  newline_mark _ := rfl
  newline_plain {c} r h := newline_other (by rintro rfl; cases h) (by rintro rfl; cases h) r
  newline_escape _ h := h.elim
  stops {c} r h := run1_of_stops (stops_cons.2 (by rcases h with rfl | rfl <;> rfl))
  run := run1_append
  escape _ h := h.elim

/-- Between triple quotes the third quote in a row is escaped. -/
theorem behind_escapes {n : Nat} (hn : n ≤ 2) (cs : List Char) :
    Behind '"' isPlain Escape n (escapes true n cs) cs := by
  induction cs generalizing n with
  | nil => exact .of_body hn (stops_nil _) .nil
  | cons c cs ih =>
    have htail := (ih (Nat.zero_le 2)).body
    have hescape : ∀ {e}, Escape ('\\' :: e) c →
        Behind '"' isPlain Escape n ('\\' :: e ++ escapes true 0 cs) (c :: cs) := fun he =>
      .of_body hn (stops_cons.2 rfl) (.escape he htail)
    rw [escapes]
    by_cases hq : c = '"'
    · subst hq
      by_cases htwo : n < 2
      · simpa [htwo] using (ih (show n + 1 ≤ 2 by omega)).mark
      · simpa [htwo] using hescape escape_quote
    · rw [if_neg hq]
      by_cases hline : c = '\n'
      · subst hline
        exact .of_body hn (stops_cons.2 rfl) (.newline htail)
      · rw [if_neg (by simp [hline])]
        cases he : escapeOf? c with
        | some e => exact hescape (escape_of he)
        | none =>
          exact .of_body hn (stops_cons.2 (by simp [hq]))
            (.cons basicPieces (isPlain_of hq he) htail)

theorem le_longestRun (q : Char) (n : Nat) (cs : List Char) : n ≤ longestRun q n cs := by
  induction cs generalizing n with
  | nil => exact Nat.le_refl n
  | cons c cs ih =>
    rw [longestRun]
    split
    · exact Nat.le_of_succ_le (ih (n + 1))
    · exact Nat.le_max_left _ _

/-- Between triple apostrophes no three of them may stand in a row. -/
theorem behind_literal {n : Nat} {cs : List Char} (hcs : ∀ c ∈ cs, isControl c = false)
    (hrun : longestRun '\'' n cs ≤ 2) : Behind '\'' isBare (fun _ _ => False) n cs cs := by
  have hn : n ≤ 2 := Nat.le_trans (le_longestRun '\'' n cs) hrun
  induction cs generalizing n with
  | nil => exact .of_body hn (stops_nil _) .nil
  | cons c cs ih =>
    obtain ⟨hc, htext⟩ := List.forall_mem_cons.1 hcs
    rw [longestRun] at hrun
    by_cases hq : c = '\''
    · subst hq
      rw [if_pos rfl] at hrun
      exact (ih htext hrun (Nat.le_trans (le_longestRun _ _ cs) hrun)).mark
    · rw [if_neg hq] at hrun
      have htail := (ih htext (Nat.le_trans (Nat.le_max_right _ _) hrun) (Nat.zero_le 2)).body
      refine .of_body hn (stops_cons.2 (by simp [hq])) ?_
      by_cases hline : c = '\n'
      · subst hline
        exact .newline htail
      · exact .cons literalPieces (by simpa [isBare, isControl, hline, hq] using hc) htail

end Lines

section AnyText

theorem text_eq (cs : List Char) :
    text cs = (if cs.take 3 = ['"', '"', '"'] then longBasicText cs
      else if cs.take 3 = ['\'', '\'', '\''] then longLiteralText cs
      else (basicText <|> literalText) cs).map fun p => (String.ofList p.1, p.2) := by
  have hmap : ∀ r : Reading (List Char), (r cs).bind (fun p => some (String.ofList p.1, p.2)) =
      (r cs).map fun p => (String.ofList p.1, p.2) := by
    intro r
    cases r cs <;> rfl
  simp only [text, bind_eq, opensLong, Option.bind_some]
  by_cases hb : cs.take 3 = ['"', '"', '"']
  · simp only [hb, decide_true, if_true]
    exact hmap longBasicText
  · by_cases hl : cs.take 3 = ['\'', '\'', '\'']
    · simp only [hl]
      exact hmap longLiteralText
    · simp only [hb, hl, decide_false]
      exact hmap (basicText <|> literalText)

theorem text_of_short {cs vs rest : List Char} (hb : cs.take 3 ≠ ['"', '"', '"'])
    (hl : cs.take 3 ≠ ['\'', '\'', '\'']) (h : (basicText <|> literalText) cs = some (vs, rest)) :
    text cs = some (String.ofList vs, rest) := by
  rw [text_eq, if_neg hb, if_neg hl, h]
  rfl

theorem text_of_longBasic {cs vs rest : List Char}
    (h : longBasicText (['"', '"', '"'] ++ cs) = some (vs, rest)) :
    text (['"', '"', '"'] ++ cs) = some (String.ofList vs, rest) := by
  rw [text_eq, if_pos (by rfl), h]
  rfl

theorem text_of_longLiteral {cs vs rest : List Char}
    (h : longLiteralText (['\'', '\'', '\''] ++ cs) = some (vs, rest)) :
    text (['\'', '\'', '\''] ++ cs) = some (String.ofList vs, rest) := by
  rw [text_eq, if_neg (by simp), if_pos (by rfl), h]
  rfl

/-- An empty text between two marks is no beginning of a text between triple marks. -/
theorem take_escapes_ne (cs rest : List Char) :
    ('"' :: (escapes false 0 cs ++ '"' :: '\n' :: rest)).take 3 ≠ ['"', '"', '"'] := by
  cases cs with
  | nil => simp [escapes]
  | cons c cs =>
    rw [escapes]
    by_cases hq : c = '"'
    · simp [hq]
    · rw [if_neg hq]
      cases he : escapeOf? c <;> simp [hq]

theorem take_bare_ne {cs : List Char} (hcs : ∀ c ∈ cs, isBare c = true) (rest : List Char) :
    ('\'' :: (cs ++ '\'' :: '\n' :: rest)).take 3 ≠ ['\'', '\'', '\''] := by
  cases cs with
  | nil => simp
  | cons c cs =>
    have hmark : c ≠ '\'' := by
      rintro rfl
      exact absurd (hcs '\'' List.mem_cons_self) (by decide)
    simp [hmark]

theorem not_mem_of_longestRun {q : Char} {n : Nat} {cs : List Char} (h : longestRun q n cs = 0) :
    q ∉ cs := by
  induction cs generalizing n with
  | nil => exact List.not_mem_nil
  | cons c cs ih =>
    rw [longestRun] at h
    split at h
    · have hpos := le_longestRun q (n + 1) cs
      omega
    · next hc => exact List.not_mem_cons_of_ne_of_not_mem (Ne.symm hc) (ih (n := 0) (by omega))

/-- Between quotes anything can stand; between apostrophes only what needs no escape. -/
theorem form_cases (cs : List Char) :
    Form.of cs = .basic ∨ Form.of cs = .longBasic ∨
      (Form.of cs = .literal ∧ ∀ c ∈ cs, isBare c = true) ∨
      Form.of cs = .longLiteral ∧ (∀ c ∈ cs, isControl c = false) ∧ longestRun '\'' 0 cs ≤ 2 := by
  unfold Form.of
  dsimp only
  split
  · exact .inl rfl
  · split
    · next h =>
      simp only [Bool.and_eq_true, Bool.not_eq_true', List.any_eq_false, decide_eq_true_eq] at h
      obtain ⟨⟨hplain, hlined⟩, hrun⟩ := h
      refine .inr (.inr (.inl ⟨rfl, fun c hc => ?_⟩))
      have hquote : c ≠ '\'' := by
        rintro rfl
        exact not_mem_of_longestRun hrun hc
      have hline : c ≠ '\n' := by
        rintro rfl
        simp [hc] at hlined
      simpa [isBare, isControl, hquote, hline] using hplain c hc
    · split
      · exact .inr (.inl rfl)
      · split
        · next h =>
          simp only [Bool.and_eq_true, Bool.not_eq_true', List.any_eq_false, decide_eq_true_eq] at h
          exact .inr (.inr (.inr ⟨rfl, fun c hc => by simpa using h.1 c hc, h.2⟩))
        · split
          · exact .inr (.inl rfl)
          · exact .inl rfl

/-- A quote or an apostrophe stands before the text. -/
theorem stops_quoted {p : Char → Bool} (hquote : p '"' = false)
    (hmark : p '\'' = false) (s : String)
    (rest : List Char) : Stops p (quoted s ++ rest) := by
  have hcons : ∃ cs, quoted s = '"' :: cs ∨ quoted s = '\'' :: cs := by
    cases hform : Form.of s.toList <;> simp [quoted, hform, Form.mark]
  obtain ⟨cs, h | h⟩ := hcons
  · rw [h]
    exact stops_cons.2 hquote
  · rw [h]
    exact stops_cons.2 hmark

/-- Every text is read back from the form in which it is written. -/
theorem text_quoted (s : String) (rest : List Char) :
    text (quoted s ++ '\n' :: rest) = some (s, '\n' :: rest) := by
  have hstops : ∀ {c}, c ≠ '\n' → Stops (· = c) ('\n' :: rest) := fun h =>
    stops_cons.2 (decide_eq_false h.symm)
  rcases form_cases s.toList with hform | hform | ⟨hform, hbare⟩ | ⟨hform, hplain, hrun⟩
  · have hquoted : quoted s ++ '\n' :: rest =
        '"' :: (escapes false 0 s.toList ++ '"' :: '\n' :: rest) := by
      simp [quoted, hform, Form.mark, Form.isLong]
    rw [hquoted, text_of_short (take_escapes_ne s.toList rest) (by simp)
      (orElse_some _ (basicText_escapes _ _)), String.ofList_toList]
  · have hquoted : quoted s ++ '\n' :: rest = ['"', '"', '"'] ++
        ((if s.toList.contains '\n' then ['\n'] else []) ++
          (escapes true 0 s.toList ++ (['"', '"', '"'] ++ '\n' :: rest))) := by
      simp [quoted, hform, Form.mark, Form.isLong]
    rw [hquoted, text_of_longBasic (longText_body basicPieces (hstops (by decide))
      (behind_escapes (Nat.zero_le 2) _).body), String.ofList_toList]
  · have hquoted : quoted s ++ '\n' :: rest = '\'' :: (s.toList ++ '\'' :: '\n' :: rest) := by
      simp [quoted, hform, Form.mark, Form.isLong]
    have hbasic : basicText ('\'' :: (s.toList ++ '\'' :: '\n' :: rest)) = none := rfl
    rw [hquoted, text_of_short (by simp) (take_bare_ne hbare rest)
      ((orElse_none _ hbasic).trans (literalText_append hbare _)), String.ofList_toList]
  · have hquoted : quoted s ++ '\n' :: rest = ['\'', '\'', '\''] ++
        ((if s.toList.contains '\n' then ['\n'] else []) ++
          (s.toList ++ (['\'', '\'', '\''] ++ '\n' :: rest))) := by
      simp [quoted, hform, Form.mark, Form.isLong]
    rw [hquoted, text_of_longLiteral (longText_body literalPieces (hstops (by decide))
      (behind_literal hplain hrun).body), String.ofList_toList]

end AnyText

end DualWrite.Toml
