import DualWrite.Text.Reading

/-!
# What readers take

A reader in front of a text that it knows takes that text and leaves what follows. A run of
characters of a class, and a repetition of items, end where what follows does not go on. What a
reader gives can also be known whatever it stands in front of.
-/
namespace DualWrite.Text.Reading

section Steps
variable {α β : Type} (r : Reading α) (cs : List Char)

theorem bind_eq (f : α → Reading β) : (r >>= f) cs = (r cs).bind fun p => f p.1 p.2 := rfl

theorem map_eq (f : α → β) : (f <$> r) cs = (r cs).map fun p => (f p.1, p.2) := by
  change (r cs).bind _ = _
  cases r cs <;> rfl

theorem seqRight_eq (r' : Reading β) : (r *> r') cs = (r cs).bind fun p => r' p.2 := by
  change (r cs).bind _ = _
  cases r cs <;> rfl

theorem seqLeft_eq (r' : Reading β) :
    (r <* r') cs = (r cs).bind fun p => (r' p.2).map fun q => (p.1, q.2) := by
  change (r cs).bind _ = _
  rcases r cs with _ | ⟨a, rest⟩
  · rfl
  · change (r' rest).bind _ = (r' rest).map _
    cases r' rest <;> rfl

theorem pure_eq (a : α) : (pure a : Reading α) cs = some (a, cs) := rfl

variable {r cs}

theorem orElse_some (r' : Reading α) {p : α × List Char} (h : r cs = some p) :
    (r <|> r') cs = some p := by
  change (r cs).orElse _ = _
  rw [h]
  rfl

theorem orElse_none (r' : Reading α) (h : r cs = none) : (r <|> r') cs = r' cs := by
  change (r cs).orElse _ = _
  rw [h]
  rfl

theorem bind_none (f : α → Reading β) (h : r cs = none) : (r >>= f) cs = none := by
  rw [bind_eq, h, Option.bind_none]

theorem seqRight_none (r' : Reading β) (h : r cs = none) : (r *> r') cs = none := by
  rw [Reading.seqRight_eq, h, Option.bind_none]

end Steps

/-- A text does not go on with a character of a class. -/
def Stops (p : Char → Bool) (rest : List Char) : Prop := ∀ c r, rest = c :: r → p c = false

section Classes
variable {p : Char → Bool} {c : Char} {cs rest : List Char}

theorem stops_nil (p : Char → Bool) : Stops p [] := nofun

theorem stops_cons : Stops p (c :: rest) ↔ p c = false :=
  ⟨fun h => h c rest rfl, fun h _ _ he => (List.cons.inj he).1 ▸ h⟩

theorem one_cons (h : p c = true) (rest : List Char) :
    one p (c :: rest) = some (c, rest) := if_pos h

theorem one_of_stops (h : Stops p rest) : one p rest = none := by
  cases rest with
  | nil => rfl
  | cons c r => exact if_neg (by simp [h c r rfl])

theorem mark_cons (c : Char) (rest : List Char) : mark c (c :: rest) = some ((), rest) := by
  rw [mark, one_cons (by simp)]
  rfl

theorem mark_of_stops (h : Stops (· = c) rest) : mark c rest = none := by
  rw [mark, one_of_stops h]
  rfl

theorem word_append (cs rest : List Char) : word cs (cs ++ rest) = some ((), rest) := by
  induction cs with
  | nil => rfl
  | cons c cs ih => exact (if_pos rfl).trans ih

theorem run_append (hcs : ∀ c ∈ cs, p c = true) (hrest : Stops p rest) :
    run p (cs ++ rest) = some (cs, rest) := by
  have hnone : rest.takeWhile p = [] ∧ rest.dropWhile p = rest := by
    cases rest with
    | nil => exact ⟨rfl, rfl⟩
    | cons c r => simp [hrest c r rfl]
  rw [run, List.takeWhile_append_of_pos hcs, List.dropWhile_append_of_pos hcs, hnone.1, hnone.2,
    List.append_nil]

theorem run_of_stops (h : Stops p rest) : run p rest = some ([], rest) :=
  show run p ([] ++ rest) = some ([], rest) from run_append nofun h

theorem run1_append (hne : cs ≠ []) (hcs : ∀ c ∈ cs, p c = true) (hrest : Stops p rest) :
    run1 p (cs ++ rest) = some (cs, rest) := by
  obtain ⟨c, cs, rfl⟩ := List.exists_cons_of_ne_nil hne
  have hrun := run_append (fun d hd => hcs d (List.mem_cons_of_mem _ hd)) hrest
  rw [run1, bind_eq, List.cons_append, one_cons (hcs c List.mem_cons_self), Option.bind_some,
    bind_eq, hrun]
  rfl

theorem run1_of_stops (h : Stops p rest) : run1 p rest = none := by
  rw [run1, bind_eq, one_of_stops h]
  rfl

end Classes

section Repetition
variable {α : Type} {item : Reading α} {cs rest : List Char} {a : α}

theorem repeated_end (h : item cs = none) : repeated item cs = ([], cs) := by
  rw [repeated, h]

theorem repeated_step (h : item cs = some (a, rest)) (hshorter : rest.length < cs.length) :
    repeated item cs = (a :: (repeated item rest).1, (repeated item rest).2) := by
  rw [repeated, h]
  exact if_pos hshorter

end Repetition

/-- What the reader gives has a property, wherever it is read. -/
def Gives {α : Type} (r : Reading α) (P : α → Prop) : Prop :=
  ∀ cs a rest, r cs = some (a, rest) → P a

namespace Gives
variable {α β : Type} {r r' : Reading α} {f : α → Reading β} {P : α → Prop} {Q : β → Prop}

theorem pure {a : α} (h : P a) : Gives (Pure.pure a) P := by
  intro cs a' rest heq
  rw [pure_eq] at heq
  obtain ⟨rfl, _⟩ := Prod.mk.inj (Option.some.inj heq)
  exact h

theorem failure : Gives (failure : Reading α) P := by
  intro cs a rest heq
  cases heq

theorem bind (hr : Gives r P) (hf : ∀ a, P a → Gives (f a) Q) : Gives (r >>= f) Q := by
  intro cs b rest h
  rw [bind_eq] at h
  obtain ⟨⟨a, cs'⟩, ha, hb⟩ := Option.bind_eq_some_iff.1 h
  exact hf a (hr cs a cs' ha) cs' b rest hb

theorem after (hf : ∀ a, Gives (f a) Q) : Gives (r >>= f) Q :=
  bind (P := fun _ => True) (fun _ _ _ _ => trivial) fun a _ => hf a

theorem orElse (hr : Gives r P) (hr' : Gives r' P) : Gives (r <|> r') P := by
  intro cs a rest h
  cases hcs : r cs with
  | none => exact hr' cs a rest (orElse_none r' hcs ▸ h)
  | some p => exact hr cs a rest (hcs.trans (orElse_some r' hcs ▸ h))

theorem map {g : α → β} (hr : Gives r fun a => Q (g a)) : Gives (g <$> r) Q := by
  intro cs b rest h
  rw [map_eq] at h
  obtain ⟨⟨a, cs'⟩, ha, hb⟩ := Option.map_eq_some_iff.1 h
  obtain ⟨rfl, _⟩ := Prod.mk.inj hb
  exact hr cs a cs' ha

theorem seqLeft {s : Reading β} (hr : Gives r P) : Gives (r <* s) P := by
  intro cs a rest h
  rw [seqLeft_eq] at h
  obtain ⟨⟨a', cs'⟩, ha, hb⟩ := Option.bind_eq_some_iff.1 h
  obtain ⟨q, _, hq⟩ := Option.map_eq_some_iff.1 hb
  obtain ⟨rfl, _⟩ := Prod.mk.inj hq
  exact hr cs a' cs' ha

theorem seqRight {s : Reading β} (hs : Gives s Q) : Gives (r *> s) Q := by
  intro cs b rest h
  rw [seqRight_eq] at h
  obtain ⟨⟨a, cs'⟩, _, hb⟩ := Option.bind_eq_some_iff.1 h
  exact hs cs' b rest hb

theorem many (hr : Gives r P) : Gives (many r) fun as => ∀ a ∈ as, P a := by
  intro cs as rest h
  have hfst : (repeated r cs).1 = as := (Prod.mk.inj (Option.some.inj h)).1
  subst hfst
  clear h
  fun_induction repeated r cs with
  | case1 => exact fun _ ha => absurd ha List.not_mem_nil
  | case2 cs a cs' hcs _ as' rest' hmore ih =>
    rw [hmore] at ih
    exact List.forall_mem_cons.2 ⟨hr cs a cs' hcs, ih⟩
  | case3 => exact fun _ ha => absurd ha List.not_mem_nil

theorem whole {cs : List Char} {a : α} (hr : Gives r P) (h : whole? r cs = some a) : P a := by
  unfold whole? at h
  split at h
  · next a' hcs => exact Option.some.inj h ▸ hr cs a' [] hcs
  · cases h

end Gives
end DualWrite.Text.Reading
