import DualWrite.Proofs.Bus.Accounts
import DualWrite.Repair.Consumer
import Mathlib

/-!
# The letters of a consumer

A consumer deals with each letter at once: one that it understands is acknowledged, any other one is
handed back until it is dead. So the letters that it understands never change places, each of them
is taken once, and the others are taken as often as the limit allows.
-/
namespace DualWrite

/-- What a consumer makes of a payload: an event with its direction, or nothing. -/
def Consumer.meaning? (payload : List UInt8) : Option (Event × Direction) :=
  (understand payload).toOption

def Consumer.deliveriesFor (limit : Nat) (payload : List UInt8) : Nat :=
  if (meaning? payload).isSome then 1 else limit + 1

/-- How many turns a payload takes of a consumer at most. A repair takes three: one for the letter,
one for the base and one for the target. -/
def Consumer.turnsFor (limit : Nat) (payload : List UInt8) : Nat :=
  if (meaning? payload).isSome then 3 else limit + 1

def Letter.meaning? (l : Letter) : Option (Event × Direction) := Consumer.meaning? l.message.payload

def Letter.turns (limit : Nat) (l : Letter) : Nat :=
  if l.meaning?.isSome then 3 else limit + 1 - l.message.attempt

theorem Letter.turns_of_some {l : Letter} (limit : Nat) (h : l.meaning?.isSome) :
    l.turns limit = 3 := if_pos h

theorem Letter.turns_of_none {l : Letter} (limit : Nat) (h : l.meaning? = none) :
    l.turns limit = limit + 1 - l.message.attempt := by
  rw [turns, h]
  rfl

namespace Account

/-- A consumer's dealing with the oldest letter of its queue. -/
def serve (limit : Nat) (a : Account) : Account :=
  match a.queue with
  | [] => a
  | l :: _ => if l.meaning?.isSome then (a.take 0).acknowledge 0 else (a.take 0).nack limit 0

def work (limit : Nat) (a : Account) : Nat := (a.queue.map (Letter.turns limit)).sum

section Serve
variable {limit : Nat} {a : Account} {l : Letter} {rest : List Letter} (hq : a.queue = l :: rest)
  (hheld : a.held = [])
include hq hheld

theorem serve_read (hl : l.meaning?.isSome) : a.serve limit =
    { a with queue := rest, acknowledged := a.acknowledged ++ [l], taken := a.taken ++ [l] } := by
  simp [serve, hq, hl, take, hheld, acknowledge, held?, letGo]

theorem serve_again (hl : l.meaning? = none) (hmore : l.message.attempt < limit) : a.serve limit =
    { a with queue := rest ++ [l.again], joined := a.joined ++ [l.again], taken := a.taken ++ [l],
             nacked := a.nacked ++ [l.serial] } := by
  simp [serve, hq, hl, take, hheld, nack, held?, letGo, handBack, enqueue, Nat.not_le.2 hmore]

theorem serve_last (hl : l.meaning? = none) (hlast : limit ≤ l.message.attempt) : a.serve limit =
    { a with queue := rest, taken := a.taken ++ [l], nacked := a.nacked ++ [l.serial],
             dead := a.dead ++ [l] } := by
  simp [serve, hq, hl, take, hheld, nack, held?, letGo, handBack, bury, hlast]

variable (limit) in
/-- Whatever becomes of the letter, it has been taken, and what it means is known if it means
anything. -/
theorem serve_record : (a.serve limit).posted = a.posted ∧ (a.serve limit).taken = a.taken ++ [l] ∧
    (a.serve limit).acknowledged.filterMap Letter.meaning? =
      a.acknowledged.filterMap Letter.meaning? ++ l.meaning?.toList := by
  cases hl : l.meaning? with
  | some p =>
    rw [serve_read hq hheld (by rw [hl]; rfl)]
    refine ⟨rfl, rfl, ?_⟩
    simp [List.filterMap_append, hl]
  | none =>
    by_cases hmore : l.message.attempt < limit
    · rw [serve_again hq hheld hl hmore]
      exact ⟨rfl, rfl, (List.append_nil _).symm⟩
    · rw [serve_last hq hheld hl (Nat.not_lt.1 hmore)]
      exact ⟨rfl, rfl, (List.append_nil _).symm⟩

end Serve

theorem work_post (limit : Nat) (a : Account) (payload : List UInt8) :
    (a.post payload).work limit = a.work limit + Consumer.turnsFor limit payload := by
  rw [work, post, enqueue, List.map_append, List.sum_append]
  rfl

/-- How a consumer has dealt with its letters so far. -/
structure Served (limit : Nat) (a : Account) : Prop where
  balanced : a.Balanced limit
  none_held : a.held = []
  /-- What it understands is never handed back. -/
  fresh : ∀ l ∈ a.kept, l.meaning?.isSome → l.message.attempt = 0
  understood : ∀ l ∈ a.acknowledged, l.meaning?.isSome
  dead : ∀ l ∈ a.dead, l.meaning? = none
  /-- Every delivery was one of a publication. -/
  taken : ∀ l ∈ a.taken, a.posted[l.serial]? = some l.message.payload
  /-- What it understands stays in the order of publication. -/
  order : (a.acknowledged ++ a.queue).filterMap Letter.meaning? =
    a.posted.filterMap Consumer.meaning?

theorem served_empty (limit : Nat) : empty.Served limit where
  balanced := balanced_empty limit
  none_held := rfl
  fresh := nofun
  understood := nofun
  dead := nofun
  taken := nofun
  order := rfl

namespace Served
variable {limit : Nat} {a : Account} (h : a.Served limit)
include h

theorem post (payload : List UInt8) : (a.post payload).Served limit where
  balanced := h.balanced.post payload
  none_held := h.none_held
  fresh := by
    intro l hl hmeaning
    have hkept : (a.post payload).kept.Perm (⟨a.posted.length, ⟨payload, 0⟩⟩ :: a.kept) :=
      kept_enqueue _ _
    rcases List.mem_cons.1 (hkept.mem_iff.1 hl) with rfl | hl
    · rfl
    · exact h.fresh l hl hmeaning
  understood := h.understood
  dead := h.dead
  taken := by
    intro l hl
    have hposted := h.taken l hl
    change (a.posted ++ [payload])[l.serial]? = _
    rwa [List.getElem?_append_left (List.getElem?_eq_some_iff.1 hposted).1]
  order := by
    let l : Letter := ⟨a.posted.length, ⟨payload, 0⟩⟩
    change (a.acknowledged ++ (a.queue ++ [l])).filterMap Letter.meaning? =
      (a.posted ++ [payload]).filterMap Consumer.meaning?
    rw [← List.append_assoc, List.filterMap_append, h.order, List.filterMap_append]
    rfl

theorem balanced_serve : (a.serve limit).Balanced limit := by
  have hfree : ∀ l, (0, l) ∉ a.held := fun l hl => by simp [h.none_held] at hl
  rw [Account.serve]
  split
  · exact h.balanced
  · split
    · exact (h.balanced.take hfree).acknowledge 0
    · exact (h.balanced.take hfree).nack 0

theorem serve : (a.serve limit).Served limit := by
  have hbalanced := h.balanced_serve
  cases hq : a.queue with
  | nil =>
    rw [Account.serve, hq]
    exact h
  | cons l rest =>
    have hkept : ∀ l' ∈ rest ++ a.acknowledged, l' ∈ a.kept := by
      intro l' hl'
      rw [kept, hq, h.none_held]
      simp only [List.map_nil, List.append_nil, List.cons_append]
      exact List.mem_cons_of_mem l hl'
    have htaken : ∀ l' ∈ a.taken ++ [l], a.posted[l'.serial]? = some l'.message.payload := by
      intro l' hl'
      rcases List.mem_append.1 hl' with hl' | hl'
      · exact h.taken l' hl'
      · have hletter : l ∈ a.letters := by simp [letters, kept, hq]
        rw [List.mem_singleton.1 hl']
        exact h.balanced.payload l hletter
    have horder := h.order
    rw [hq] at horder
    by_cases hl : l.meaning?.isSome
    · rw [serve_read hq h.none_held hl] at hbalanced ⊢
      refine ⟨hbalanced, h.none_held, ?_, ?_, h.dead, htaken, ?_⟩
      · have hperm : (rest ++ a.held.map (·.2) ++ (a.acknowledged ++ [l])).Perm a.kept := by
          simp only [kept, hq, h.none_held, List.map_nil, List.append_nil, List.cons_append,
            ← List.append_assoc]
          exact List.perm_append_singleton _ _
        exact fun l' hl' => h.fresh l' (hperm.mem_iff.1 hl')
      · intro l' hl'
        rcases List.mem_append.1 hl' with hl' | hl'
        · exact h.understood l' hl'
        · rwa [List.mem_singleton.1 hl']
      · rw [← horder]
        simp
    · have hnone : l.meaning? = none := by simpa using hl
      by_cases hmore : l.message.attempt < limit
      · rw [serve_again hq h.none_held hnone hmore] at hbalanced ⊢
        have hagain : l.again.meaning? = none := hnone
        refine ⟨hbalanced, h.none_held, ?_, h.understood, h.dead, htaken, ?_⟩
        · intro l' hl' hmeaning
          simp only [kept, h.none_held, List.map_nil, List.append_nil, List.mem_append,
            List.mem_singleton] at hl'
          rcases hl' with (hl' | rfl) | hl'
          · exact h.fresh l' (hkept l' (List.mem_append_left _ hl')) hmeaning
          · rw [hagain] at hmeaning
            cases hmeaning
          · exact h.fresh l' (hkept l' (List.mem_append_right _ hl')) hmeaning
        · rw [← horder]
          simp [hnone, hagain]
      · rw [serve_last hq h.none_held hnone (Nat.not_lt.1 hmore)] at hbalanced ⊢
        refine ⟨hbalanced, h.none_held, ?_, h.understood, ?_, htaken, ?_⟩
        · intro l' hl' hmeaning
          simp only [kept, h.none_held, List.map_nil, List.append_nil] at hl'
          exact h.fresh l' (hkept l' hl') hmeaning
        · intro l' hl'
          rcases List.mem_append.1 hl' with hl' | hl'
          · exact h.dead l' hl'
          · rwa [List.mem_singleton.1 hl']
        · rw [← horder]
          simp [hnone]

theorem attempt_le {l : Letter} (hl : l ∈ a.queue) : l.message.attempt ≤ limit :=
  (h.balanced.attempt l (List.mem_append_left _ (List.mem_append_left _ hl))).2

theorem turns_pos {l : Letter} (hl : l ∈ a.queue) : 0 < l.turns limit := by
  have hattempt := h.attempt_le hl
  rw [Letter.turns]
  split <;> omega

/-- The turns that dealing with the oldest letter takes away: all of a letter that is understood,
one of any other. -/
theorem work_serve {l : Letter} {rest : List Letter} (hq : a.queue = l :: rest) :
    (a.serve limit).work limit + (if l.meaning?.isSome then 3 else 1) = a.work limit := by
  have hattempt := h.attempt_le (hq ▸ List.mem_cons_self)
  have hwork : a.work limit = l.turns limit + (rest.map (Letter.turns limit)).sum := by
    rw [work, hq, List.map_cons, List.sum_cons]
  by_cases hl : l.meaning?.isSome
  · rw [serve_read hq h.none_held hl, hwork, l.turns_of_some limit hl, if_pos hl]
    exact Nat.add_comm _ _
  · have hnone : l.meaning? = none := by simpa using hl
    rw [hwork, l.turns_of_none limit hnone, if_neg hl]
    by_cases hmore : l.message.attempt < limit
    · have hagain : l.again.turns limit = limit + 1 - (l.message.attempt + 1) :=
        l.again.turns_of_none limit hnone
      rw [serve_again hq h.none_held hnone hmore, work, List.map_append, List.sum_append,
        List.map_cons, List.map_nil, List.sum_cons, List.sum_nil, hagain]
      omega
    · rw [serve_last hq h.none_held hnone (Nat.not_lt.1 hmore)]
      change (rest.map (Letter.turns limit)).sum + 1 = _
      omega

/-- A letter that is no longer queued has been taken as often as is due; one that is queued has been
taken as often as it was handed back. -/
theorem count_taken {l : Letter} (hl : l ∈ a.letters) : (a.taken.map (·.serial)).count l.serial =
    if l ∈ a.queue then l.message.attempt else Consumer.deliveriesFor limit l.message.payload := by
  have hletters : a.letters = a.queue ++ (a.acknowledged ++ a.dead) := by
    simp [letters, kept, h.none_held]
  have hone : (a.letters.map (·.serial)).count l.serial = 1 :=
    List.count_eq_one_of_mem (h.balanced.accounted.nodup_iff.2 List.nodup_range)
      (List.mem_map_of_mem hl)
  have htaken := h.balanced.taken.count_eq l.serial
  have hcount : ∀ {ls : List Letter}, l ∈ ls → 0 < (ls.map (·.serial)).count l.serial :=
    fun hin => List.count_pos_iff.2 (List.mem_map_of_mem hin)
  rw [hletters, List.map_append, List.map_append, List.count_append, List.count_append] at hone
  rw [h.none_held, List.map_nil, List.nil_append, List.count_append] at htaken
  rw [hletters] at hl
  split
  · next hin =>
    have hpos := hcount hin
    have hattempt := (h.balanced.attempt l (List.mem_append_left _ (List.mem_append_left _ hin))).1
    omega
  · next hnot =>
    rcases List.mem_append.1 ((List.mem_append.1 hl).resolve_left hnot) with hin | hin
    · have hpos := hcount hin
      have hkept : l ∈ a.kept := List.mem_append_right _ hin
      have hattempt := (h.balanced.attempt l hkept).1
      have hfresh := h.fresh l hkept (h.understood l hin)
      have hdue : Consumer.deliveriesFor limit l.message.payload = 1 := if_pos (h.understood l hin)
      omega
    · have hpos := hcount hin
      have hdead := (h.balanced.dead l hin).2
      have hdue : Consumer.deliveriesFor limit l.message.payload = limit + 1 := by
        have hnone : Consumer.meaning? l.message.payload = none := h.dead l hin
        rw [Consumer.deliveriesFor, hnone]
        rfl
      omega

theorem exists_letter {k : Nat} {payload : List UInt8} (hk : a.posted[k]? = some payload) :
    ∃ l ∈ a.letters, l.serial = k ∧ l.message.payload = payload := by
  have hlt : k < a.posted.length := (List.getElem?_eq_some_iff.1 hk).1
  obtain ⟨l, hl, rfl⟩ := List.mem_map.1 (h.balanced.accounted.mem_iff.2 (List.mem_range.2 hlt))
  exact ⟨l, hl, rfl, Option.some.inj ((h.balanced.payload l hl).symm.trans hk)⟩

/-- No publication is delivered more often than is due to it. -/
theorem count_taken_le {k : Nat} {payload : List UInt8} (hk : a.posted[k]? = some payload) :
    (a.taken.map (·.serial)).count k ≤ Consumer.deliveriesFor limit payload := by
  obtain ⟨l, hl, rfl, rfl⟩ := h.exists_letter hk
  rw [h.count_taken hl]
  split
  · next hin =>
    have hattempt := h.attempt_le hin
    rw [Consumer.deliveriesFor]
    split
    · next hsome =>
      rw [h.fresh l (List.mem_append_left _ (List.mem_append_left _ hin)) hsome]
      exact Nat.zero_le 1
    · exact Nat.le_succ_of_le hattempt
  · exact Nat.le_refl _

/-- With an empty queue every publication has been delivered as often as is due to it. -/
theorem count_taken_eq (hq : a.queue = []) {k : Nat} {payload : List UInt8}
    (hk : a.posted[k]? = some payload) :
    (a.taken.map (·.serial)).count k = Consumer.deliveriesFor limit payload := by
  obtain ⟨l, hl, rfl, rfl⟩ := h.exists_letter hk
  rw [h.count_taken hl, hq]
  exact if_neg List.not_mem_nil

end Served
end Account
end DualWrite
