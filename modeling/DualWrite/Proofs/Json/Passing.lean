import DualWrite.Proofs.Json.Grammar
import DualWrite.Proofs.Json.Record

/-!
# Readers that take one value

A reader of a whole number, of a text or of one kind out of several takes, if it succeeds, exactly
the octets that are passed over when nobody reads the value.
-/
namespace DualWrite.Json
open Text

/-- Where the reader succeeds, it leaves what is left behind one value. -/
def TakesValue {α : Type} (read : Reader α) : Prop :=
  ∀ s v rest, read s = .ok (v, rest) → skip s = .ok rest

theorem skip_skipBlanks (s : Octets) : skip s = skipFrom .value [] (skipBlanks s) :=
  skipFrom_skipBlanks (fun _ => onto_value_blank []) s

/-- What is read as the content of a text is passed over up to the same quote. -/
theorem skipFrom_of_content (isKey : Bool) (stack : List Bracket) {s bs rest : Octets}
    (h : content s = .ok (bs, rest)) :
    skipFrom (.text isKey) stack s = skipFrom (.text isKey) stack (0x22 :: rest) := by
  -- The named cases are those that give a content: the quote, an octet, and the three escapes.
  fun_induction content s generalizing bs rest with
  | case2 => rw [(Prod.mk.inj (Except.ok.inj h)).2]
  | case4 b r hquote hcontrol hescape _ _ hcs ih =>
    rw [← (Prod.mk.inj (Except.ok.inj h)).2, ← ih hcs]
    have hplain : ∀ x ∈ [b], ¬ x < 0x20 ∧ x ≠ 0x22 ∧ x ≠ 0x5C :=
      List.forall_mem_singleton.2 ⟨hcontrol, hquote, hescape⟩
    exact skipFrom_plain isKey stack hplain r
  | case14 bar _ _ hbar a b c d n hn _ _ bar' hbar' u hu a' b' c' d' r m hm _ _ _ hcs ih =>
    obtain rfl := Decidable.not_not.1 hbar
    obtain rfl := Decidable.not_not.1 hbar'
    obtain rfl := Decidable.not_not.1 hu
    rw [← (Prod.mk.inj (Except.ok.inj h)).2, ← ih hcs, skipFrom_code isKey stack hn,
      skipFrom_code isKey stack hm]
  | case18 bar _ _ hbar a b c d r n hn _ _ _ _ hcs ih =>
    obtain rfl := Decidable.not_not.1 hbar
    rw [← (Prod.mk.inj (Except.ok.inj h)).2, ← ih hcs, skipFrom_code isKey stack hn]
  | case22 bar _ _ hbar e r hcode x hx _ _ hcs ih =>
    obtain rfl := Decidable.not_not.1 hbar
    rw [← (Prod.mk.inj (Except.ok.inj h)).2, ← ih hcs,
      skipFrom_short isKey stack hcode (by simp [hx])]
  | _ => cases h

theorem content_of_text {s rest : Octets} {t : String} (h : text s = .ok (t, rest)) :
    ∃ bs, content s = .ok (bs, rest) := by
  rw [text] at h
  split at h
  · cases h
  · next bs rest' hcontent =>
    split at h
    · exact ⟨bs, hcontent.trans (by rw [(Prod.mk.inj (Except.ok.inj h)).2])⟩
    · cases h

/-- A text that was read is passed over with its quote. -/
theorem skipFrom_of_text {stack : List Bracket} {s rest : Octets} {t : String}
    (h : text s = .ok (t, rest)) :
    skipFrom .value stack (0x22 :: s) = skipFrom .closed stack rest := by
  have hquote : onto .value stack 0x22 = .go (.text false) stack := rfl
  have hclose : onto (.text false) stack 0x22 = complete stack := rfl
  obtain ⟨bs, hbs⟩ := content_of_text h
  rw [skipFrom_go hquote, skipFrom_of_content false stack hbs, skipFrom_complete hclose]

theorem string_takesValue : TakesValue string := by
  intro s t rest h
  rw [skip_skipBlanks]
  unfold string at h
  split at h
  · cases h
  · next b r hs =>
    split at h
    · next hb =>
      rw [hs, hb, skipFrom_of_text h, skipFrom_closed]
    · exact absurd h (refuseType_ne_ok _ _ _)

theorem text_of_named {α : Type} {kinds : List (String × α)} {s rest : Octets} {k : α}
    (h : named kinds s = .ok (k, rest)) : ∃ t, text s = .ok (t, rest) := by
  unfold named at h
  split at h
  · cases h
  · next t rest' htext =>
    split at h
    · exact ⟨t, htext.trans (by rw [(Prod.mk.inj (Except.ok.inj h)).2])⟩
    · cases h

theorem skipBlanks_of_colon {s rest : Octets} (h : colon s = .ok ((), rest)) :
    skipBlanks s = 0x3A :: rest := by
  unfold colon at h
  split at h
  · cases h
  · next b r hs =>
    split at h
    · next hb => rw [hs, hb, (Prod.mk.inj (Except.ok.inj h)).2]
    · cases h

theorem append_of_word {w s rest : Octets} (h : word w s = .ok ((), rest)) : s = w ++ rest := by
  induction w generalizing s with
  | nil => exact (Prod.mk.inj (Except.ok.inj h)).2
  | cons a w ih =>
    cases s with
    | nil => cases h
    | cons b r =>
      rw [word] at h
      split at h
      · next hb => rw [hb, ih h, List.cons_append]
      · cases h

theorem skipBlanks_of_null {wanted : String} {s rest : Octets}
    (h : null wanted s = .ok ((), rest)) : skipBlanks s = 0x6E :: 0x75 :: 0x6C :: 0x6C :: rest := by
  unfold null at h
  split at h
  · cases h
  · next b r hs =>
    split at h
    · next hb => rw [hs, hb, append_of_word h]; rfl
    · exact absurd h (refuseType_ne_ok _ _ _)

section Kinds
variable {α : Type} {kinds : List (String × α)}

/-- The object form of a kind: its name as the only key, and null as its value. -/
theorem skip_named {s r₁ r₂ r₃ r₄ rest : Octets} {k : α} (hs : skipBlanks s = 0x7B :: r₁)
    (hr₁ : skipBlanks r₁ = 0x22 :: r₂) (hname : named kinds r₂ = .ok (k, r₃))
    (hcolon : skipBlanks r₃ = 0x3A :: r₄)
    {r₅ : Octets} (hnull : skipBlanks r₄ = 0x6E :: 0x75 :: 0x6C :: 0x6C :: r₅)
    (hend : skipBlanks r₅ = 0x7D :: rest) : skip s = .ok rest := by
  obtain ⟨t, ht⟩ := text_of_named hname
  obtain ⟨bs, hbs⟩ := content_of_text ht
  have hopen : onto .value [] 0x7B = .go .opened [.object] := rfl
  have hquote : onto .key [.object] 0x22 = .go (.text true) [.object] := rfl
  have hclose : onto (.text true) [.object] 0x22 = .go .colon [.object] := rfl
  have hvalue : onto .colon [.object] 0x3A = .go .value [.object] := rfl
  have hword : skipFrom .value [.object] (0x6E :: 0x75 :: 0x6C :: 0x6C :: r₅) =
      skipFrom .closed [.object] r₅ := rfl
  have hdone : onto .closed [.object] 0x7D = complete [] := rfl
  calc skip s
      = skipFrom .opened [.object] r₁ := by rw [skip_skipBlanks, hs, skipFrom_go hopen]
    _ = skipFrom .key [.object] (0x22 :: r₂) := by
        rw [skipFrom_opened_object [] hr₁ (by decide) (by decide),
          skipFrom_skipBlanks (fun _ => onto_key_blank [.object]), hr₁]
    _ = skipFrom .colon [.object] r₃ := by
        rw [skipFrom_go hquote, skipFrom_of_content true _ hbs, skipFrom_go hclose]
    _ = skipFrom .value [.object] r₄ := by
        rw [skipFrom_skipBlanks (fun _ => onto_colon_blank [.object]), hcolon, skipFrom_go hvalue]
    _ = skipFrom .closed [.object] r₅ := by
        rw [skipFrom_skipBlanks (fun _ => onto_value_blank [.object]), hnull, hword]
    _ = .ok rest := by
        rw [skipFrom_skipBlanks (fun _ => onto_closed_blank [] .object), hend,
          skipFrom_complete hdone, skipFrom_closed]

theorem kind_takesValue (kinds : List (String × α)) : TakesValue (kind kinds) := by
  intro s k rest h
  unfold kind at h
  split at h
  · cases h
  · next b r hs =>
    split at h
    · next hb =>
      obtain ⟨t, ht⟩ := text_of_named h
      rw [skip_skipBlanks, hs, hb, skipFrom_of_text ht, skipFrom_closed]
    · split at h
      · cases h
      · next hb =>
        obtain rfl := Decidable.not_not.1 hb
        split at h
        · cases h
        · next b r₂ hr =>
          split at h
          · cases h
          · split at h
            · cases h
            · next hb =>
              obtain rfl := Decidable.not_not.1 hb
              split at h
              · cases h
              · next k' r₃ hname =>
                split at h
                · cases h
                · next r₄ hcolon =>
                  split at h
                  · cases h
                  · next r₅ hnull =>
                    split at h
                    · cases h
                    · next b r₆ hend =>
                      split at h
                      · next hb =>
                        obtain ⟨rfl, rfl⟩ := Prod.mk.inj (Except.ok.inj h)
                        exact skip_named hs hr hname (skipBlanks_of_colon hcolon)
                          (skipBlanks_of_null hnull) (hb ▸ hend)
                      · cases h

end Kinds

section Numbers
variable {stack : List Bracket}

/-- Digits that are taken and digits that are passed over lead to the same place. -/
theorem skipFrom_takeDigits (n k : Nat) (s : Octets) :
    skipFrom .digits stack s = skipFrom .digits stack (takeDigits n k s).2.2 := by
  induction s generalizing n k with
  | nil => rfl
  | cons b r ih =>
    rw [takeDigits]
    split
    · next h =>
      rw [skipFrom_go (onto_digits_digit stack (Bool.and_eq_true_iff.1 h).1), ih]
    · rfl

theorem ends_of_afterWhole {positive : Bool} {n : Nat} {s rest : Octets} {x : Number}
    (h : afterWhole positive n s = .ok (x, rest)) (hx : ∀ y, x ≠ .real y) :
    rest = s ∧ EndsNumber s := by
  have hreal : ∀ {r : Except Fault (Number × Octets)}, GivesReal r → r ≠ .ok (x, rest) := by
    rintro r hr rfl
    cases hr
    exact hx _ rfl
  unfold afterWhole at h
  split at h
  · next b r =>
    split at h
    · exact absurd h (hreal (.of_fraction ..))
    · next hpoint =>
      split at h
      · exact absurd h (hreal (.of_exponent ..))
      · next hmark =>
        split at h
        · exact absurd h (hreal (.of_longNumber ..))
        · next hdigit =>
          refine ⟨(Prod.mk.inj (Except.ok.inj h)).2.symm, ?_⟩
          exact endsNumber_cons (Bool.eq_false_iff.2 hdigit) (by simpa using hpoint)
            (Bool.eq_false_iff.2 hmark) r
  · exact ⟨(Prod.mk.inj (Except.ok.inj h)).2.symm, nofun⟩

/-- A whole number is passed over from any mode in which its first digit may stand. -/
theorem skipFrom_unsigned {mode : Mode} (hzero : onto mode stack 0x30 = .go .zero stack)
    (hdigit : ∀ b, isDigit b = true → b ≠ 0x30 → onto mode stack b = .go .digits stack)
    {positive : Bool} {s rest : Octets} {x : Number} (h : unsigned positive s = .ok (x, rest))
    (hx : ∀ y, x ≠ .real y) : skipFrom mode stack s = skipFrom .closed stack rest := by
  unfold unsigned at h
  dsimp only at h
  split at h
  · cases h
  · next b r =>
    split at h
    · next hb =>
      obtain rfl := eq_of_beq hb
      have hafter : afterWhole positive 0 r = .ok (x, rest) := by
        split at h
        · split at h
          · cases h
          · exact h
        · exact h
      obtain ⟨rfl, hends⟩ := ends_of_afterWhole hafter hx
      rw [skipFrom_go hzero, skipFrom_endsNumber stack (by decide) hends]
    · next hb =>
      split at h
      · next hbd =>
        obtain ⟨hrest, hends⟩ := ends_of_afterWhole h hx
        rw [skipFrom_go (hdigit b hbd (by simpa using hb)),
          ← skipFrom_go (onto_digits_digit stack hbd),
          skipFrom_takeDigits 0 0, skipFrom_endsNumber stack (by decide) hends, hrest]
      · cases h

theorem skipFrom_number {s rest : Octets} {x : Number} (h : number s = .ok (x, rest))
    (hx : ∀ y, x ≠ .real y) : skipFrom .value stack s = skipFrom .closed stack rest := by
  unfold number at h
  split at h
  · cases h
  · next b r =>
    split at h
    · next hb =>
      obtain rfl := eq_of_beq hb
      have hsign : onto .value stack 0x2D = .go .sign stack := rfl
      rw [skipFrom_go hsign]
      exact skipFrom_unsigned rfl (fun _ hb hne => onto_sign_digit stack hb hne) h hx
    · exact skipFrom_unsigned rfl (fun _ hb hne => onto_value_digit stack hb hne) h hx

end Numbers

theorem integer_takesValue : TakesValue integer := by
  intro s n rest h
  rw [skip_skipBlanks]
  unfold integer at h
  split at h
  · cases h
  · next b r hs =>
    rw [hs]
    split at h
    · split at h
      · cases h
      · next hnumber =>
        split at h
        · rw [skipFrom_number hnumber nofun, skipFrom_closed, (Prod.mk.inj (Except.ok.inj h)).2]
        · cases h
      · next hnumber =>
        rw [skipFrom_number hnumber nofun, skipFrom_closed, (Prod.mk.inj (Except.ok.inj h)).2]
      · cases h
    · exact absurd h (refuseType_ne_ok _ _ _)

end DualWrite.Json
