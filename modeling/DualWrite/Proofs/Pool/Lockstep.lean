import DualWrite.Proofs.Pool.Halves
import DualWrite.Proofs.Store.Alike
import DualWrite.Proofs.Store.Holding
import DualWrite.Session.Vocabulary

/-!
# Two stores in step

While a pool writes both stores, whichever of them first, and nobody else does, what is committed in
one is committed in the other. The exception is a statement that fails and takes its transaction
along: the other half of that transaction stays open, and what is written in its name afterwards is
committed on the first store alone.
-/
namespace DualWrite

namespace Pool
open Store

/-- A deed that writes only by being executed on both stores. -/
def Deed.isPlain : Deed → Bool
  | .exec _ _ => true
  | .query (.select _) _ | .queryRow (.select _) _ => true
  | .query _ _ | .queryRow _ _ => false

section Deeds
variable (s : Store) (who : Option Ticket) (deed : Deed)

theorem query_select (q : Selection) (args : List Value) :
    (s.query who (.select q) args).1 = s := by
  simp only [Store.query]
  split <;> rfl

/-- A plain deed is executed on both stores, or changes neither. -/
theorem plain_cases (h : deed.isPlain) : (∃ st args, deed = .exec st args) ∨
    ∀ (s : Store) who, (deed.onStore s who).1 = s ∧ deed.follow s who = s := by
  cases deed with
  | exec st args => exact .inl ⟨st, args, rfl⟩
  | query st args =>
    cases st with
    | select q => exact .inr fun s who => ⟨query_select s who q args, rfl⟩
    | _ => cases h
  | queryRow st args =>
    cases st with
    | select q => exact .inr fun s who => ⟨query_select s who q args, rfl⟩
    | _ => cases h

theorem noneOpened_onStore (h : deed.isPlain) : NoneOpened s (deed.onStore s who).1 := by
  rcases plain_cases deed h with ⟨st, args, rfl⟩ | hsame
  · exact noneOpened_exec s who st args
  · rw [(hsame s who).1]
    exact .refl s

theorem noneOpened_follow (h : deed.isPlain) : NoneOpened s (deed.follow s who) := by
  rcases plain_cases deed h with ⟨st, args, rfl⟩ | hsame
  · exact noneOpened_exec s who st args
  · rw [(hsame s who).2]
    exact .refl s

theorem noneOpened_finish (t : Ticket) (how : Finish) : NoneOpened s (how.onStore s t).1 := by
  cases how with
  | commit => exact noneOpened_commit s t
  | rollback => exact noneOpened_rollback s t
  | drop => exact noneOpened_release s t

end Deeds

section Together
variable {s d : Store} {α : Type}

/-- The second store follows a plain deed that does not cut off a transaction of the first one. -/
theorem alike_deed {who : Option Ticket} (half : α → Option Ticket) {a : α} (h : Alike s d)
    (hl : Linked s d who (half a)) {deed : Deed} (hplain : deed.isPlain)
    (hkept : (deed.onStore s who).2.isOk = false → (s.own? who).isSome →
      (deed.onStore s who).1.writer? ≠ none) :
    Alike (deed.onStore s who).1
      (seconded (deed.onStore s who).2 (some a) d (fun d a => deed.follow d (half a))
        fun d _ => d) := by
  rw [seconded_some]
  rcases plain_cases deed hplain with ⟨st, args, rfl⟩ | hsame
  · cases hok : ((Deed.exec st args).onStore s who).2.isOk with
    | true => exact (h.exec hl st args).2
    | false =>
      have hcourse := onStore_course s who (.exec st args)
      rw [hok] at hcourse
      obtain ⟨hc, hw | ⟨hown, hw⟩⟩ := hcourse.failed
      · exact h.of_same hc hw rfl rfl
      · exact absurd hw (hkept hok hown)
  · rw [(hsame s who).1, (hsame d (half a)).2, ite_self]
    exact h

/-- The second half ends like the first one; if that could not be ended, it is dropped. -/
theorem alike_finish {t u : Ticket} (h : Alike s d) (hl : Linked s d (some t) (some u))
    (how : Finish) : Alike (how.onStore s t).1
      (seconded (how.onStore s t).2 (some u) d (fun d u => (how.onStore d u).1)
        fun d u => (d.release u).1) := by
  rw [seconded_some]
  cases how with
  | commit =>
    cases hok : (Finish.commit.onStore s t).2.isOk with
    | true => exact h.commit hl
    | false =>
      have hdropped : Alike (s.release t).1 (d.release u).1 := h.release hl
      refine hdropped.of_same ?_ ?_ rfl rfl
      · rw [committed_finish, hok]
        simp
      · rw [writer?_finish, writer?_release]
  | rollback =>
    cases hok : (Finish.rollback.onStore s t).2.isOk with
    | true => exact h.rollback hl
    | false =>
      have hdropped : Alike (s.release t).1 (d.release u).1 := h.release hl
      refine hdropped.of_same ?_ ?_ rfl rfl
      · rw [committed_finish]
        simp
      · rw [writer?_finish, writer?_release]
  | drop => exact h.release hl

end Together

/-- A transaction has a half on either store, and one of them is open if the other is. -/
structure Paired (p : Pool Store) (t : Transaction) : Prop where
  half : ∃ u, t.secondary? = some u ∧ u < (p.store t.pattern.base.other).nextTicket
  primary : t.primary < (p.store t.pattern.base).nextTicket
  linked : Linked (p.store t.pattern.base) (p.store t.pattern.base.other)
    (some t.primary) t.secondary?

theorem Paired.of_noneOpened {p p' : Pool Store} {t : Transaction} (h : Paired p t)
    (hp : ∀ d, NoneOpened (p.store d) (p'.store d)) : Paired p' t where
  half := by
    obtain ⟨u, hu, hlt⟩ := h.half
    exact ⟨u, hu, by rwa [(hp _).nextTicket]⟩
  primary := by rw [(hp _).nextTicket]; exact h.primary
  linked := h.linked.of_noneOpened (hp _) (hp _)

theorem alike_withStores {p : Pool Store} {d : Direction} {s u : Store} (h : Alike s u) :
    Alike (p.withStores d s u).src (p.withStores d s u).dst := by
  cases d with
  | src => exact h
  | dst => exact h.symm

section Opening
variable {p p' : Pool Store} (hfree : ∀ d, (p.store d).writer? = none)
  (hp : ∀ d, p'.store d = (p.store d).begin.1)
include hfree hp

/-- A transaction that was there before is not the one that has been opened. -/
theorem Paired.of_begin {t : Transaction} (h : Paired p t) : Paired p' t := by
  obtain ⟨_, _, hw, hn⟩ := begin_free _ (hfree t.pattern.base)
  obtain ⟨_, _, hw', hn'⟩ := begin_free _ (hfree t.pattern.base.other)
  obtain ⟨u, hu, hlt⟩ := h.half
  constructor
  · exact ⟨u, hu, by rw [hp, hn']; exact Nat.lt_succ_of_lt hlt⟩
  · rw [hp, hn]
    exact Nat.lt_succ_of_lt h.primary
  · intro v w hv hw₂
    rw [hp, hw, Option.some.injEq] at hv
    rw [hp, hw', Option.some.injEq] at hw₂
    subst hv hw₂
    simp only [hu, Option.some.injEq]
    exact iff_of_false (Nat.ne_of_lt h.primary) (Nat.ne_of_lt hlt)

theorem paired_begun (q : Pattern) :
    Paired p' ⟨q, (p.store q.base).nextTicket, some (p.store q.base.other).nextTicket⟩ := by
  obtain ⟨_, _, hw, hn⟩ := begin_free _ (hfree q.base)
  obtain ⟨_, _, hw', hn'⟩ := begin_free _ (hfree q.base.other)
  constructor
  · exact ⟨_, rfl, by rw [hp, hn']; exact Nat.lt_succ_self _⟩
  · rw [hp, hn]
    exact Nat.lt_succ_self _
  · intro v w hv hw₂
    rw [hp, hw, Option.some.injEq] at hv
    rw [hp, hw', Option.some.injEq] at hw₂
    subst hv hw₂
    simp

end Opening

end Pool

namespace Service
open Pool Store

/-- A statement fails and takes its transaction along. -/
def cutsOff (x : Service Store) : Call → Bool
  | .actIn n deed =>
    match x.transaction? n with
    | none => false
    | some t =>
      let o := x.pool.actIn t deed
      !o.result.isOk && ((x.pool.store t.pattern.base).own? (some t.primary)).isSome &&
        (o.after.store t.pattern.base).writer?.isNone
  | .act _ | .begin | .finish _ _ => false

/-- What callers do that write through the pool, and switches between the patterns that have two
stores. -/
def Move.isDual : Move Store → Bool
  | .call (.act deed) | .call (.actIn _ deed) => deed.isPlain
  | .call .begin | .call (.finish _ _) => true
  | .switch code => code = Pattern.srcFirst.code ∨ code = Pattern.dstFirst.code
  | .become _ _ => false

theorem live_of_code {p : Pool Store}
    (h : p.code = Pattern.srcFirst.code ∨ p.code = Pattern.dstFirst.code) :
    ∃ q, p.pattern = .ok q ∧ q.second? = some q.base.other := by
  rcases h with hq | hq
  · exact ⟨.srcFirst, by rw [Pool.pattern, hq, Pattern.ofCode_code], rfl⟩
  · exact ⟨.dstFirst, by rw [Pool.pattern, hq, Pattern.ofCode_code], rfl⟩

structure InStep (x : Service Store) : Prop where
  live : ∃ q, x.pool.pattern = .ok q ∧ q.second? = some q.base.other
  alike : Alike x.pool.src x.pool.dst
  paired : ∀ t, some t ∈ x.opened → Paired x.pool t

namespace InStep
variable {x : Service Store} (h : InStep x)
include h

theorem alike_at (d : Direction) : Alike (x.pool.store d) (x.pool.store d.other) := by
  cases d with
  | src => exact h.alike
  | dst => exact h.alike.symm

theorem withStores {d : Direction} {s u : Store} {opened : List (Option Transaction)}
    (ha : Alike s u)
    (hs : NoneOpened (x.pool.store d) s) (hu : NoneOpened (x.pool.store d.other) u)
    (hopened : ∀ t, some t ∈ opened → some t ∈ x.opened) :
    InStep ⟨x.pool.withStores d s u, opened⟩ where
  live := by simpa [Pool.pattern] using h.live
  alike := alike_withStores ha
  paired := by
    intro t ht
    refine (h.paired t (hopened t ht)).of_noneOpened fun e => ?_
    rcases Direction.eq_or_eq_other e d with rfl | rfl
    · simpa using hs
    · simpa using hu

theorem act {deed : Deed} (hplain : deed.isPlain) : InStep (x.call (.act deed)).1 := by
  obtain ⟨q, hq, hsecond⟩ := h.live
  simp only [call, act_after hq, hsecond]
  refine h.withStores ?_ (noneOpened_onStore _ _ _ hplain) ?_ fun _ => id
  · apply alike_deed (fun _ => none) (h.alike_at q.base) (Linked.outside _ _) hplain
    intro _ hown
    simp at hown
  · rw [seconded_some]
    split
    · exact noneOpened_follow _ _ _ hplain
    · exact .refl _

theorem actIn {n : Nat} {deed : Deed} (hplain : deed.isPlain)
    (hkept : x.cutsOff (.actIn n deed) = false) :
    InStep (x.call (.actIn n deed)).1 := by
  cases ht : x.transaction? n with
  | none => simpa [call, ht] using h
  | some t =>
    have hpaired := h.paired t (mem_opened ht)
    obtain ⟨u, hu, _⟩ := hpaired.half
    have hlinked := hpaired.linked
    rw [hu] at hlinked
    simp only [cutsOff, ht, actIn_result, actIn_after, withStores_store, isOk_mapError] at hkept
    simp only [call, ht, actIn_after, hu]
    refine h.withStores ?_ (noneOpened_onStore _ _ _ hplain) ?_ fun _ => id
    · apply alike_deed some (h.alike_at t.pattern.base) hlinked hplain
      intro hfailed hown hnone
      simp [hfailed, hown, hnone] at hkept
    · rw [seconded_some]
      split
      · exact noneOpened_follow _ _ _ hplain
      · exact .refl _

theorem finish (n : Nat) (how : Finish) : InStep (x.call (.finish n how)).1 := by
  cases ht : x.transaction? n with
  | none => simpa [call, ht] using h
  | some t =>
    have hpaired := h.paired t (mem_opened ht)
    obtain ⟨u, hu, _⟩ := hpaired.half
    have hlinked := hpaired.linked
    rw [hu] at hlinked
    simp only [call, ht, finish_after, hu]
    refine h.withStores ?_ (noneOpened_finish ..) ?_ ?_
    · exact alike_finish (h.alike_at t.pattern.base) hlinked how
    · rw [seconded_some]
      split
      · exact noneOpened_finish ..
      · exact noneOpened_release ..
    · intro t' ht'
      rcases List.mem_or_eq_of_mem_set ht' with ht' | ht'
      · exact ht'
      · cases ht'

/-- A transaction is opened on both stores or on neither. -/
theorem begin : InStep (x.call .begin).1 := by
  obtain ⟨q, hq, hsecond⟩ := h.live
  have halike := h.alike_at q.base
  cases hw : (x.pool.store q.base).writer? with
  | some w =>
    have hlocked : Backend.begin (x.pool.store q.base) = (_, .error .locked) := begin_locked _ hw
    simp only [call, begin_after hq, begin_result hq, hlocked, hsecond]
    refine h.withStores halike (.refl _) (.refl _) ?_
    intro t ht
    simpa [Except.map, Except.toOption] using ht
  | none =>
    have hw' : (x.pool.store q.base.other).writer? = none := by simpa [hw] using halike.isSome
    have hfree : ∀ d, (x.pool.store d).writer? = none := by
      intro d
      rcases d.eq_or_eq_other q.base with rfl | rfl <;> assumption
    have hr : (Backend.begin (x.pool.store q.base)).2 = .ok _ := (begin_free _ hw).1
    have hr' : (Backend.begin (x.pool.store q.base.other)).2 = .ok _ := (begin_free _ hw').1
    simp only [call, begin_after hq, begin_result hq, hsecond, hr, hr']
    have hp : ∀ d, (x.pool.withStores q.base (x.pool.store q.base).begin.1
        (x.pool.store q.base.other).begin.1).store d = (x.pool.store d).begin.1 := by
      intro d
      rcases d.eq_or_eq_other q.base with rfl | rfl <;> simp
    constructor
    · exact ⟨q, by simpa [Pool.pattern] using hq, hsecond⟩
    · exact alike_withStores (halike.begin hw)
    · intro t ht
      rcases List.mem_append.1 ht with ht | ht
      · exact (h.paired t ht).of_begin hfree hp
      · obtain rfl := Option.some.inj (List.mem_singleton.1 ht)
        exact paired_begun hfree hp q

theorem switch {code : UInt8} (hcode : Move.isDual (.switch code)) :
    InStep (x.move (.switch code)) := by
  have hq : code = Pattern.srcFirst.code ∨ code = Pattern.dstFirst.code := by
    simpa [Move.isDual] using hcode
  refine ⟨live_of_code hq, h.alike, ?_⟩
  intro t ht
  exact (h.paired t ht).of_noneOpened fun d => store_setCode x.pool d code ▸ .refl _

end InStep

/-- No statement of the run takes its transaction along. -/
def keeps (x : Service Store) : List (Move Store) → Bool
  | [] => true
  | .call c :: ms => !x.cutsOff c && keeps (x.move (.call c)) ms
  | m :: ms => keeps (x.move m) ms

theorem InStep.run {x : Service Store} (h : InStep x) {ms : List (Move Store)}
    (hms : ∀ m ∈ ms, m.isDual) (hkept : x.keeps ms) : InStep (x.run ms) := by
  induction ms generalizing x with
  | nil => exact h
  | cons m ms ih =>
    have hm := hms m List.mem_cons_self
    have hrest := fun m hm => hms m (List.mem_cons_of_mem _ hm)
    cases m with
    | call c =>
      obtain ⟨hcall, hkept⟩ := Bool.and_eq_true_iff.1 hkept
      refine ih (x := x.move (.call c)) ?_ hrest hkept
      cases c with
      | act deed => exact h.act hm
      | begin => exact h.begin
      | actIn n deed => exact h.actIn hm (by simpa using hcall)
      | finish n how => exact h.finish n how
    | switch code => exact ih (h.switch hm) hrest hkept
    | become d s => cases hm

/-- Two stores in which the same is committed and no transaction is open hold the same whatever is
written through a pool that writes both. -/
theorem stores_stay_in_step {p : Pool Store}
    (hcode : p.code = Pattern.srcFirst.code ∨ p.code = Pattern.dstFirst.code)
    (hsame : p.src.committed = p.dst.committed) (hsrc : p.src.writer? = none)
    (hdst : p.dst.writer? = none) {ms : List (Move Store)} (hms : ∀ m ∈ ms, m.isDual)
    (hkept : (Service.mk p []).keeps ms) :
    let x := (Service.mk p []).run ms
    x.pool.src.committed = x.pool.dst.committed := by
  have hstart : InStep ⟨p, []⟩ :=
    ⟨live_of_code hcode, ⟨hsame, by rw [hsrc, hdst]⟩, fun t ht => absurd ht List.not_mem_nil⟩
  exact (hstart.run hms hkept).alike.committed

/-- The pattern is switched while a transaction is open, a second one is refused, a statement fails
without harm, and a transaction under the new pattern is dropped. -/
theorem stores_stay_in_step_across_a_switch :
    let put (id : Int) : Deed := .exec Session.insert (Interactive.plain id 0).values
    let p : Pool Store := ⟨.ofEntities "src" [], .ofEntities "dst" [], Pattern.srcFirst.code⟩
    let ms : List (Move Store) := [.call .begin, .call (.actIn 0 (put 1)),
      .switch Pattern.dstFirst.code, .call .begin, .call (.act (put 2)), .call (.actIn 0 (put 1)),
      .call (.finish 0 .commit), .call .begin, .call (.actIn 2 (put 2)), .call (.finish 2 .drop),
      .call (.act (put 3))]
    let x := (Service.mk p []).run ms
    x.pool.src.committed = x.pool.dst.committed ∧
      x.pool.src.committed = ⟨[.ofEntities [.plain 1 0, .plain 3 0]]⟩ := by
  intro put p ms x
  have hms : ∀ m ∈ ms, m.isDual := by decide +kernel
  have hkept : (Service.mk p []).keeps ms := by decide +kernel
  have hrows : x.pool.src.committed = ⟨[.ofEntities [.plain 1 0, .plain 3 0]]⟩ := by decide +kernel
  have hx : x = (Service.mk p []).run ms := rfl
  rw [hx] at hrows ⊢
  exact ⟨stores_stay_in_step (.inl rfl) rfl rfl rfl hms hkept, hrows⟩

/-- The second statement fails and takes along the half on the first store alone; the third one is
then committed there, and cannot be on the other store. -/
theorem half_left_open_breaks_step :
    let one := Interactive.plain 1 0
    let row (id : Int) : List Value := (Interactive.plain id 0).values
    let p : Pool Store := ⟨.ofEntities "src" [one], .ofEntities "dst" [one], Pattern.srcFirst.code⟩
    let ms : List (Move Store) := [.call .begin,
      .call (.actIn 0 (.exec (Session.insertWith .rollback) (row 1))),
      .call (.actIn 0 (.exec Session.insert (row 2)))]
    let x := (Service.mk p []).run ms
    (∀ m ∈ ms, m.isDual) ∧ p.src.committed = p.dst.committed ∧ p.src.writer? = none ∧
      p.dst.writer? = none ∧ x.pool.src.committed ≠ x.pool.dst.committed := by
  decide +kernel

end Service
end DualWrite
