import DualWrite.Proofs.Bus.Exchange

/-!
# Accounts of subscriptions

An account follows one subscription from its beginning and tells its messages apart, also where they
have equal payloads: by their places among all that was published to the topic since then. It is
balanced: every message is in one place, and has been handed back as often as its attempt says.
-/
namespace DualWrite

/-- A message with its place among the publications. -/
structure Letter where
  serial : Nat
  message : Message
deriving Repr, DecidableEq

def Letter.again (l : Letter) : Letter :=
  ⟨l.serial, { l.message with attempt := l.message.attempt + 1 }⟩

structure Account where
  /-- Payloads published to the topic; a letter's serial number is its place here. -/
  posted : List (List UInt8)
  queue : List Letter
  /-- Letters in receivers' hands, by the numbers of their deliveries. -/
  held : List (Nat × Letter)
  acknowledged : List Letter
  /-- Dropped instead of being queued again. -/
  dead : List Letter
  /-- Serial numbers in the order in which letters were handed back. -/
  nacked : List Nat
  /-- Whatever joined the queue, oldest first. -/
  joined : List Letter
  /-- Whatever was taken from the queue, oldest first. -/
  taken : List Letter
deriving Repr, DecidableEq

namespace Account

def empty : Account := ⟨[], [], [], [], [], [], [], []⟩

def enqueue (a : Account) (l : Letter) : Account :=
  { a with queue := a.queue ++ [l], joined := a.joined ++ [l] }

def post (a : Account) (payload : List UInt8) : Account :=
  { a with posted := a.posted ++ [payload] }.enqueue ⟨a.posted.length, ⟨payload, 0⟩⟩

def take (a : Account) (k : Nat) : Account :=
  match a.queue with
  | [] => a
  | l :: rest => { a with queue := rest, held := a.held ++ [(k, l)], taken := a.taken ++ [l] }

def held? (a : Account) (k : Nat) : Option Letter := (a.held.find? (·.1 = k)).map (·.2)

def letGo (a : Account) (k : Nat) : Account := { a with held := a.held.filter (·.1 ≠ k) }

def acknowledge (a : Account) (k : Nat) : Account :=
  match a.held? k with
  | none => a
  | some l => { a.letGo k with acknowledged := a.acknowledged ++ [l] }

def handBack (a : Account) (k : Nat) (l : Letter) : Account :=
  { a.letGo k with nacked := a.nacked ++ [l.serial] }

def bury (a : Account) (l : Letter) : Account := { a with dead := a.dead ++ [l] }

def nack (limit : Nat) (a : Account) (k : Nat) : Account :=
  match a.held? k with
  | none => a
  | some l =>
    if limit ≤ l.message.attempt then (a.handBack k l).bury l else (a.handBack k l).enqueue l.again

/-- What a move means for a subscription with this number and topic. -/
def enter (id : Nat) (topic : String) (x : Exchange) (a : Account) : Exchange.Move → Account
  | .publish topic' payload => if topic = topic' then a.post payload else a
  | .receive id' => if id = id' then a.take x.handed.length else a
  | .acknowledge k => a.acknowledge k
  | .nack k => a.nack x.bus.limit k
  | .subscribe _ _ | .unsubscribe _ => a

def follow (id : Nat) (topic : String) : Exchange → Account → List Exchange.Move → Account
  | _, a, [] => a
  | x, a, m :: ms => follow id topic (x.move m) (a.enter id topic x m) ms

theorem follow_concat (id : Nat) (topic : String) (x : Exchange) (a : Account)
    (ms : List Exchange.Move) (m : Exchange.Move) :
    follow id topic x a (ms ++ [m]) = (follow id topic x a ms).enter id topic (x.run ms) m := by
  induction ms generalizing x a with
  | nil => rfl
  | cons m' ms ih => exact ih (x.move m') (a.enter id topic x m')

theorem posted_take (a : Account) (k : Nat) : (a.take k).posted = a.posted := by
  rw [take]
  split <;> rfl

theorem posted_acknowledge (a : Account) (k : Nat) : (a.acknowledge k).posted = a.posted := by
  rw [acknowledge]
  split <;> rfl

theorem posted_nack (limit : Nat) (a : Account) (k : Nat) : (a.nack limit k).posted = a.posted := by
  rw [nack]
  split
  · rfl
  · split <;> rfl

def kept (a : Account) : List Letter := a.queue ++ a.held.map (·.2) ++ a.acknowledged

def letters (a : Account) : List Letter := a.kept ++ a.dead

theorem kept_enqueue (a : Account) (l : Letter) : (a.enqueue l).kept.Perm (l :: a.kept) := by
  change ((a.queue ++ [l]) ++ a.held.map (·.2) ++ a.acknowledged).Perm (l :: a.kept)
  simp only [kept, List.append_assoc, List.singleton_append]
  exact List.perm_middle

theorem letters_enqueue (a : Account) (l : Letter) : (a.enqueue l).letters.Perm (l :: a.letters) :=
  (a.kept_enqueue l).append_right a.dead

/-- Where the letters are and how they came there. -/
structure Balanced (limit : Nat) (a : Account) : Prop where
  /-- Each publication is in one place, once. -/
  accounted : (a.letters.map (·.serial)).Perm (List.range a.posted.length)
  payload : ∀ l ∈ a.letters, a.posted[l.serial]? = some l.message.payload
  /-- The attempt counts how often a letter was handed back. -/
  attempt : ∀ l ∈ a.kept, l.message.attempt = a.nacked.count l.serial ∧ l.message.attempt ≤ limit
  /-- A dead letter was handed back at the last attempt, once more than is allowed. -/
  dead : ∀ l ∈ a.dead, l.message.attempt = limit ∧ a.nacked.count l.serial = limit + 1
  known : ∀ n ∈ a.nacked, n < a.posted.length
  /-- Whatever was taken has been handed back, is held or is acknowledged. -/
  taken : (a.taken.map (·.serial)).Perm
    (a.nacked ++ (a.held.map (·.2) ++ a.acknowledged).map (·.serial))
  /-- First in, first out. -/
  ordered : a.joined = a.taken ++ a.queue
  keys : (a.held.map (·.1)).Nodup

theorem balanced_empty (limit : Nat) : empty.Balanced limit :=
  ⟨.nil, nofun, nofun, nofun, nofun, .nil, rfl, List.nodup_nil⟩

theorem held?_eq_some {a : Account} (hk : (a.held.map (·.1)).Nodup) {k : Nat} {l : Letter} :
    a.held? k = some l ↔ (k, l) ∈ a.held := by
  rw [held?, Option.map_eq_some_iff]
  constructor
  · rintro ⟨⟨k', l'⟩, hf, rfl⟩
    obtain rfl : k' = k := by simpa using List.find?_some hf
    exact List.mem_of_find?_eq_some hf
  · intro hmem
    cases hf : a.held.find? (·.1 = k) with
    | none => simpa using List.find?_eq_none.1 hf _ hmem
    | some p =>
      have hp : p.1 = k := by simpa using List.find?_some hf
      exact ⟨p, rfl,
        congrArg Prod.snd (List.inj_on_of_nodup_map hk (List.mem_of_find?_eq_some hf) hmem hp)⟩

theorem letGo_of_none {a : Account} {k : Nat} (h : a.held? k = none) : a.letGo k = a := by
  have hnone : ∀ p ∈ a.held, p.1 ≠ k := by
    intro p hp
    simpa using List.find?_eq_none.1 (Option.map_eq_none_iff.1 h) p hp
  have hall : a.held.filter (·.1 ≠ k) = a.held :=
    List.filter_eq_self.2 fun p hp => decide_eq_true (hnone p hp)
  rw [letGo, hall]

/-- A letter that is let go of leaves the hands once. -/
theorem held_perm {a : Account} (hk : (a.held.map (·.1)).Nodup) {k : Nat} {l : Letter}
    (hl : (k, l) ∈ a.held) : a.held.Perm ((k, l) :: (a.letGo k).held) := by
  change a.held.Perm ((k, l) :: a.held.filter (·.1 ≠ k))
  generalize a.held = ps at hk hl
  induction ps with
  | nil => cases hl
  | cons p ps ih =>
    rw [List.map_cons, List.nodup_cons] at hk
    rcases List.mem_cons.1 hl with rfl | hl
    · have hrest : ps.filter (·.1 ≠ k) = ps :=
        List.filter_eq_self.2 fun q hq => decide_eq_true fun he => hk.1 (List.mem_map.2 ⟨q, hq, he⟩)
      rw [List.filter_cons_of_neg (by simp), hrest]
    · have hne : p.1 ≠ k := fun he => hk.1 (List.mem_map.2 ⟨_, hl, he.symm⟩)
      rw [List.filter_cons_of_pos (by simpa using hne)]
      exact ((ih hk.2 hl).cons p).trans (.swap _ _ _)

namespace Balanced
variable {limit : Nat} {a : Account} (h : a.Balanced limit)
include h

theorem serial_lt {l : Letter} (hl : l ∈ a.letters) : l.serial < a.posted.length :=
  List.mem_range.1 (h.accounted.mem_iff.1 (List.mem_map_of_mem hl))

theorem post (payload : List UInt8) : (a.post payload).Balanced limit := by
  let l : Letter := ⟨a.posted.length, ⟨payload, 0⟩⟩
  have hletters : (a.post payload).letters.Perm (l :: a.letters) := letters_enqueue _ l
  have hkept : (a.post payload).kept.Perm (l :: a.kept) := kept_enqueue _ l
  have hlength : (a.post payload).posted.length = a.posted.length + 1 := List.length_append
  refine ⟨?_, fun l' hl' => ?_, fun l' hl' => ?_, h.dead, fun n hn => ?_, h.taken, ?_, h.keys⟩
  · rw [hlength, List.range_succ]
    exact (hletters.map _).trans ((h.accounted.cons _).trans (List.perm_append_singleton _ _).symm)
  · change (a.posted ++ [payload])[l'.serial]? = some l'.message.payload
    rcases List.mem_cons.1 (hletters.mem_iff.1 hl') with rfl | hl'
    · exact List.getElem?_concat_length
    · rw [List.getElem?_append_left (h.serial_lt hl')]
      exact h.payload l' hl'
  · rcases List.mem_cons.1 (hkept.mem_iff.1 hl') with rfl | hl'
    · have hnew : a.nacked.count a.posted.length = 0 :=
        List.count_eq_zero.2 fun hn => Nat.lt_irrefl _ (h.known _ hn)
      exact ⟨hnew.symm, Nat.zero_le _⟩
    · exact h.attempt l' hl'
  · rw [hlength]
    exact Nat.lt_succ_of_lt (h.known n hn)
  · change a.joined ++ [l] = a.taken ++ (a.queue ++ [l])
    rw [h.ordered, List.append_assoc]

theorem take {k : Nat} (hk : ∀ l, (k, l) ∉ a.held) : (a.take k).Balanced limit := by
  rw [Account.take]
  cases hq : a.queue with
  | nil => exact h
  | cons l rest =>
    have hmoved : (rest ++ (a.held ++ [(k, l)]).map (·.2)).Perm (a.queue ++ a.held.map (·.2)) := by
      rw [hq, List.map_append, ← List.append_assoc]
      exact List.perm_append_singleton _ _
    have hkept : (rest ++ (a.held ++ [(k, l)]).map (·.2) ++ a.acknowledged).Perm a.kept :=
      hmoved.append_right _
    refine ⟨?_, fun l' hl' => h.payload l' ?_,
      fun l' hl' => h.attempt l' (hkept.mem_iff.1 hl'), h.dead, h.known, ?_, ?_, ?_⟩
    · exact ((hkept.append_right _).map _).trans h.accounted
    · exact (hkept.append_right _).mem_iff.1 hl'
    · refine List.perm_iff_count.2 fun n => ?_
      have := h.taken.count_eq n
      simp only [List.map_append, List.map_cons, List.map_nil, List.count_append] at this ⊢
      omega
    · change a.joined = (a.taken ++ [l]) ++ rest
      rw [h.ordered, hq, List.append_assoc, List.singleton_append]
    · change ((a.held ++ [(k, l)]).map (·.1)).Nodup
      rw [List.map_append]
      refine h.keys.append (List.nodup_singleton _) fun k' hk' he => ?_
      obtain ⟨⟨_, l'⟩, hp, rfl⟩ := List.mem_map.1 hk'
      obtain rfl := List.mem_singleton.1 he
      exact hk l' hp

theorem mem_letters_of_nacked {n : Nat} (hn : n ∈ a.nacked) : ∃ l ∈ a.letters, l.serial = n :=
  List.mem_map.1 (h.accounted.mem_iff.2 (List.mem_range.2 (h.known n hn)))

theorem count_nacked_le (n : Nat) : a.nacked.count n ≤ limit + 1 := by
  by_cases hn : n ∈ a.nacked
  · obtain ⟨l, hl, rfl⟩ := h.mem_letters_of_nacked hn
    rcases List.mem_append.1 hl with hl | hl
    · obtain ⟨hcount, hlimit⟩ := h.attempt l hl
      omega
    · exact Nat.le_of_eq (h.dead l hl).2
  · rw [List.count_eq_zero.2 hn]
    exact Nat.zero_le _

/-- A letter is dead exactly when it was handed back once more than is allowed. -/
theorem mem_dead_iff (n : Nat) : n ∈ a.dead.map (·.serial) ↔ a.nacked.count n = limit + 1 := by
  constructor
  · intro hn
    obtain ⟨l, hl, rfl⟩ := List.mem_map.1 hn
    exact (h.dead l hl).2
  · intro hcount
    have hn : n ∈ a.nacked := List.count_pos_iff.1 (by omega)
    obtain ⟨l, hl, rfl⟩ := h.mem_letters_of_nacked hn
    rcases List.mem_append.1 hl with hl | hl
    · obtain ⟨_, hlimit⟩ := h.attempt l hl
      omega
    · exact List.mem_map_of_mem hl

/-- No letter is delivered more than once beyond the limit. -/
theorem count_taken_le (n : Nat) : (a.taken.map (·.serial)).count n ≤ limit + 1 := by
  have htaken := h.taken.count_eq n
  rw [List.count_append] at htaken
  by_cases hn : n ∈ (a.held.map (·.2) ++ a.acknowledged).map (·.serial)
  · obtain ⟨l, hl, rfl⟩ := List.mem_map.1 hn
    have hkept : (a.held.map (·.2) ++ a.acknowledged).Sublist a.kept := by
      rw [kept, List.append_assoc]
      exact List.sublist_append_right _ _
    have hletters : (a.held.map (·.2) ++ a.acknowledged).Sublist a.letters :=
      hkept.trans (List.sublist_append_left _ _)
    have hnodup : (a.letters.map (·.serial)).Nodup := h.accounted.nodup_iff.2 List.nodup_range
    have hone := List.nodup_iff_count_le_one.1 (hnodup.sublist (hletters.map _)) l.serial
    obtain ⟨hcount, hlimit⟩ := h.attempt l (hkept.subset hl)
    omega
  · have hnone := List.count_eq_zero.2 hn
    have hnacked := h.count_nacked_le n
    omega

variable {k : Nat} {l : Letter} (hl : (k, l) ∈ a.held)
include hl

theorem held_snd_perm : (a.held.map (·.2)).Perm (l :: (a.letGo k).held.map (·.2)) :=
  (held_perm h.keys hl).map _

theorem letters_perm : a.letters.Perm (l :: (a.letGo k).letters) := by
  simp only [letters, kept, List.append_assoc]
  exact (((h.held_snd_perm hl).append_right _).append_left _).trans List.perm_middle

/-- The letters that stay are others than the one that is let go of. -/
theorem serial_ne {l' : Letter} (hl' : l' ∈ (a.letGo k).letters) : l'.serial ≠ l.serial := by
  have hnodup : ((l :: (a.letGo k).letters).map (·.serial)).Nodup :=
    ((h.letters_perm hl).map _).nodup (h.accounted.nodup_iff.2 List.nodup_range)
  rw [List.map_cons, List.nodup_cons] at hnodup
  exact fun he => hnodup.1 (List.mem_map.2 ⟨l', hl', he⟩)

theorem held_attempt : l.message.attempt = a.nacked.count l.serial ∧ l.message.attempt ≤ limit :=
  h.attempt l (List.mem_append_left _ (List.mem_append_right _ (List.mem_map.2 ⟨_, hl, rfl⟩)))

/-- Handing a letter back counts for no other letter. -/
theorem count_handBack {l' : Letter} (hl' : l' ∈ (a.letGo k).letters) :
    (a.handBack k l).nacked.count l'.serial = a.nacked.count l'.serial := by
  change (a.nacked ++ [l.serial]).count l'.serial = _
  rw [List.count_append, List.count_singleton, if_neg (by simpa using (h.serial_ne hl hl').symm),
    Nat.add_zero]

theorem count_handBack_self : (a.handBack k l).nacked.count l.serial = l.message.attempt + 1 := by
  change (a.nacked ++ [l.serial]).count l.serial = _
  rw [List.count_append, List.count_singleton_self, (h.held_attempt hl).1]

theorem attempt_handBack {l' : Letter} (hl' : l' ∈ (a.letGo k).kept) :
    l'.message.attempt = (a.handBack k l).nacked.count l'.serial ∧ l'.message.attempt ≤ limit := by
  rw [h.count_handBack hl (List.mem_append_left _ hl')]
  have hsub : ((a.letGo k).held.map (·.2)).Sublist (a.held.map (·.2)) := List.filter_sublist.map _
  exact h.attempt l' (((hsub.append_left _).append_right _).subset hl')

theorem dead_handBack {l' : Letter} (hl' : l' ∈ a.dead) :
    l'.message.attempt = limit ∧ (a.handBack k l).nacked.count l'.serial = limit + 1 := by
  rw [h.count_handBack hl (List.mem_append_right _ hl')]
  exact h.dead l' hl'

theorem known_handBack {n : Nat} (hn : n ∈ (a.handBack k l).nacked) : n < a.posted.length := by
  rcases List.mem_append.1 hn with hn | hn
  · exact h.known n hn
  · rw [List.mem_singleton.1 hn]
    exact h.serial_lt ((h.letters_perm hl).mem_iff.2 List.mem_cons_self)

theorem taken_handBack : (a.taken.map (·.serial)).Perm
    ((a.handBack k l).nacked ++ ((a.letGo k).held.map (·.2) ++ a.acknowledged).map (·.serial)) := by
  have hmoved :=
    (((h.held_snd_perm hl).append_right a.acknowledged).map (·.serial)).append_left a.nacked
  exact (h.taken.trans hmoved).trans (.of_eq (List.append_assoc a.nacked [l.serial] _).symm)

omit hl in
theorem keys_letGo (k : Nat) : ((a.letGo k).held.map (·.1)).Nodup :=
  h.keys.sublist (List.filter_sublist.map _)

theorem bury (hlast : limit ≤ l.message.attempt) : ((a.handBack k l).bury l).Balanced limit := by
  have hletters : ((a.handBack k l).bury l).letters.Perm a.letters := by
    change ((a.letGo k).kept ++ (a.dead ++ [l])).Perm a.letters
    rw [← List.append_assoc]
    exact (List.perm_append_singleton _ _).trans (h.letters_perm hl).symm
  refine ⟨(hletters.map _).trans h.accounted, fun l' hl' => h.payload l' (hletters.mem_iff.1 hl'),
    fun l' hl' => h.attempt_handBack hl hl', fun l' hl' => ?_, fun n hn => h.known_handBack hl hn,
    h.taken_handBack hl, h.ordered, h.keys_letGo k⟩
  rcases List.mem_append.1 hl' with hl' | hl'
  · exact h.dead_handBack hl hl'
  · obtain rfl := List.mem_singleton.1 hl'
    have hattempt := Nat.le_antisymm (h.held_attempt hl).2 hlast
    exact ⟨hattempt, hattempt ▸ h.count_handBack_self hl⟩

theorem enqueue_again (hmore : l.message.attempt < limit) :
    ((a.handBack k l).enqueue l.again).Balanced limit := by
  have hkept : ((a.handBack k l).enqueue l.again).kept.Perm (l.again :: (a.letGo k).kept) :=
    kept_enqueue _ _
  have hletters : ((a.handBack k l).enqueue l.again).letters.Perm
    (l.again :: (a.letGo k).letters) :=
    letters_enqueue _ _
  refine ⟨?_, fun l' hl' => ?_, fun l' hl' => ?_, fun l' hl' => h.dead_handBack hl hl',
    fun n hn => h.known_handBack hl hn, h.taken_handBack hl, ?_, h.keys_letGo k⟩
  · exact (hletters.map _).trans (((h.letters_perm hl).map _).symm.trans h.accounted)
  · rcases List.mem_cons.1 (hletters.mem_iff.1 hl') with rfl | hl'
    · exact h.payload l ((h.letters_perm hl).mem_iff.2 List.mem_cons_self)
    · exact h.payload l' ((h.letters_perm hl).mem_iff.2 (List.mem_cons_of_mem _ hl'))
  · rcases List.mem_cons.1 (hkept.mem_iff.1 hl') with rfl | hl'
    · exact ⟨(h.count_handBack_self hl).symm, hmore⟩
    · exact h.attempt_handBack hl hl'
  · change a.joined ++ [l.again] = a.taken ++ (a.queue ++ [l.again])
    rw [h.ordered, List.append_assoc]

omit hl

theorem acknowledge (k : Nat) : (a.acknowledge k).Balanced limit := by
  rw [Account.acknowledge]
  cases hheld : a.held? k with
  | none => exact h
  | some l =>
    have hl := (held?_eq_some h.keys).1 hheld
    have hmoved : ((a.letGo k).held.map (·.2) ++ (a.acknowledged ++ [l])).Perm
        (a.held.map (·.2) ++ a.acknowledged) := by
      rw [← List.append_assoc]
      exact (List.perm_append_singleton _ _).trans ((h.held_snd_perm hl).append_right _).symm
    have hkept :
      (a.queue ++ (a.letGo k).held.map (·.2) ++ (a.acknowledged ++ [l])).Perm a.kept := by
      simpa only [kept, List.append_assoc] using hmoved.append_left a.queue
    refine ⟨?_, fun l' hl' => h.payload l' ?_,
      fun l' hl' => h.attempt l' (hkept.mem_iff.1 hl'), h.dead,
      h.known, ?_, h.ordered, h.keys_letGo k⟩
    · exact ((hkept.append_right _).map _).trans h.accounted
    · exact (hkept.append_right _).mem_iff.1 hl'
    · exact h.taken.trans ((hmoved.symm.map _).append_left _)

theorem nack (k : Nat) : (a.nack limit k).Balanced limit := by
  rw [Account.nack]
  cases hheld : a.held? k with
  | none => exact h
  | some l =>
    have hl := (held?_eq_some h.keys).1 hheld
    by_cases hlast : limit ≤ l.message.attempt
    · simpa only [if_pos hlast] using h.bury hl hlast
    · simpa only [if_neg hlast] using h.enqueue_again hl (Nat.not_le.1 hlast)

end Balanced

end Account
end DualWrite
