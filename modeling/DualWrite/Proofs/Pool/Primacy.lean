import DualWrite.Proofs.Pool.Service
import DualWrite.Proofs.Store.Holding
import DualWrite.Session.Vocabulary

/-!
# Only the primary store is heard

A pool whose pattern names a second store answers like one that has the primary store alone, and
leaves the primary store as that one does, whatever the second store holds, refuses or becomes. What
its callers are refused is not done on the second store either.
-/
namespace DualWrite

namespace Pattern

def alone : Pattern → Pattern
  | .srcOnly | .srcFirst => .srcOnly
  | .dstFirst | .dstOnly => .dstOnly

@[simp] theorem alone_base (q : Pattern) : q.alone.base = q.base := by cases q <;> rfl

@[simp] theorem alone_second? (q : Pattern) : q.alone.second? = none := by cases q <;> rfl

end Pattern

namespace Pool
variable {σ : Type} [Backend σ]

def Transaction.alone (t : Transaction) : Transaction := ⟨t.pattern.alone, t.primary, none⟩

section Inside
variable {p q : Pool σ} (t : Transaction) (deed : Deed) (how : Finish)
  (h : q.store t.pattern.base = p.store t.pattern.base)
include h

theorem actIn_alone : (q.actIn t.alone deed).result = (p.actIn t deed).result ∧
    (q.actIn t.alone deed).after.store t.pattern.base =
      (p.actIn t deed).after.store t.pattern.base := by
  have hb : t.alone.pattern.base = t.pattern.base := Pattern.alone_base _
  constructor
  · rw [actIn_result, actIn_result, hb, h]
    rfl
  · rw [actIn_after, actIn_after, hb, withStores_store, withStores_store, h]
    rfl

theorem finish_alone : (q.finish t.alone how).result = (p.finish t how).result ∧
    (q.finish t.alone how).after.store t.pattern.base =
      (p.finish t how).after.store t.pattern.base := by
  have hb : t.alone.pattern.base = t.pattern.base := Pattern.alone_base _
  constructor
  · rw [finish_result, finish_result, hb, h]
    rfl
  · rw [finish_after, finish_after, hb, withStores_store, withStores_store, h]
    rfl

end Inside

end Pool

namespace Service
open Pool
variable {σ : Type}

def Move.isCall : Move σ → Bool
  | .call _ => true
  | .switch _ | .become _ _ => false

/-- `y` is `x` without its second store. -/
structure Without (P : Pattern) (x y : Service σ) : Prop where
  live : x.pool.code = P.code
  alone : y.pool.code = P.alone.code
  primary : y.pool.store P.base = x.pool.store P.base
  pinned : ∀ t, some t ∈ x.opened → t.pattern = P
  opened : y.opened = x.opened.map (Option.map Transaction.alone)

namespace Without
variable {P : Pattern} {x y : Service σ} (h : Without P x y)
include h

theorem pattern : x.pool.pattern = .ok P := by rw [Pool.pattern, h.live, Pattern.ofCode_code]

theorem pattern_alone : y.pool.pattern = .ok P.alone := by
  rw [Pool.pattern, h.alone, Pattern.ofCode_code]

theorem transaction? (n : Nat) :
    y.transaction? n = (x.transaction? n).map Transaction.alone := by
  rw [Service.transaction?, Service.transaction?, h.opened, List.getElem?_map]
  cases x.opened[n]? <;> rfl

theorem pattern_of {n : Nat} {t : Transaction} (ht : x.transaction? n = some t) : t.pattern = P :=
  h.pinned t (mem_opened ht)

variable [Backend σ]

theorem answer (c : Call) : (y.call c).2 = (x.call c).2 := by
  cases c with
  | act deed =>
    have hx := act_result h.pattern deed
    have hy := act_result h.pattern_alone deed
    rw [Pattern.alone_base, h.primary] at hy
    exact hy.trans hx.symm
  | begin =>
    simp only [call, begin_result h.pattern, begin_result h.pattern_alone, Pattern.alone_base,
      h.primary]
    cases (Backend.begin (x.pool.store P.base)).2 <;> rfl
  | actIn n deed =>
    simp only [call, h.transaction? n]
    cases ht : x.transaction? n with
    | none => rfl
    | some t =>
      obtain rfl := h.pattern_of ht
      exact (actIn_alone t deed h.primary).1
  | finish n how =>
    simp only [call, h.transaction? n]
    cases ht : x.transaction? n with
    | none => rfl
    | some t =>
      obtain rfl := h.pattern_of ht
      exact congrArg (Except.map fun () => Reply.done) (finish_alone t how h.primary).1

theorem call (c : Call) : Without P (x.call c).1 (y.call c).1 := by
  cases c with
  | act deed =>
    constructor
    · simp [Service.call, act_after h.pattern, h.live]
    · simp [Service.call, act_after h.pattern_alone, h.alone]
    · simp [Service.call, act_after h.pattern, act_after h.pattern_alone, h.primary]
    · exact h.pinned
    · exact h.opened
  | begin =>
    constructor
    · simp [Service.call, begin_after h.pattern, h.live]
    · simp [Service.call, begin_after h.pattern_alone, h.alone]
    · simp [Service.call, begin_after h.pattern, begin_after h.pattern_alone, h.primary]
    · intro t ht
      rcases List.mem_append.1 ht with ht | ht
      · exact h.pinned t ht
      · cases hr : x.pool.begin.result with
        | error e => simp [hr, Except.toOption] at ht
        | ok u =>
          obtain rfl : t = u := by simpa [hr, Except.toOption] using ht
          exact (begun h.pattern hr).1
    · simp only [Service.call, List.map_append, h.opened, begin_result h.pattern,
        begin_result h.pattern_alone, Pattern.alone_base, Pattern.alone_second?, h.primary]
      cases (Backend.begin (x.pool.store P.base)).2 <;> rfl
  | actIn n deed =>
    simp only [Service.call, h.transaction? n]
    cases ht : x.transaction? n with
    | none => exact h
    | some t =>
      obtain rfl := h.pattern_of ht
      constructor
      · simp [actIn_after, h.live]
      · simp [actIn_after, h.alone]
      · exact (actIn_alone t deed h.primary).2
      · exact h.pinned
      · exact h.opened
  | finish n how =>
    simp only [Service.call, h.transaction? n]
    cases ht : x.transaction? n with
    | none => exact h
    | some t =>
      obtain rfl := h.pattern_of ht
      constructor
      · simp [finish_after, h.live]
      · simp [finish_after, h.alone]
      · exact (finish_alone t how h.primary).2
      · intro u hu
        rcases List.mem_or_eq_of_mem_set hu with hu | hu
        · exact h.pinned u hu
        · cases hu
      · simp [h.opened, List.map_set]

theorem become (s : σ) : Without P (x.move (.become P.base.other s)) y := by
  refine ⟨?_, h.alone, ?_, h.pinned, h.opened⟩
  · exact (setStore_code ..).trans h.live
  · exact h.primary.trans (by simp [move])

/-- The second store is as before after a call that is refused; if its transaction has a half there,
an ending that is refused drops that half. -/
theorem refused {c : Call} {e : Error} (he : (x.call c).2 = .error e) :
    (x.call c).1.pool.store P.base.other = x.pool.store P.base.other ∨
      ∃ n how t u, c = .finish n how ∧ x.transaction? n = some t ∧ t.secondary? = some u ∧
        (x.call c).1.pool.store P.base.other =
          (Backend.release (x.pool.store P.base.other) u).1 := by
  cases c with
  | act deed =>
    left
    have hr : (x.pool.act deed).result = .error e := he
    rw [act_result h.pattern] at hr
    simp only [Service.call, act_after h.pattern, withStores_store_other, seconded_of_error _ _ hr]
    cases P.second? <;> rfl
  | begin =>
    left
    have hr : (Backend.begin (x.pool.store P.base)).2.mapError .store = .error e := by
      simp only [Service.call, begin_result h.pattern] at he
      cases hb : (Backend.begin (x.pool.store P.base)).2 with
      | error f => simpa [hb, Except.map] using he
      | ok t => simp [hb, Except.map] at he
    simp only [Service.call, begin_after h.pattern, withStores_store_other,
      seconded_of_error _ _ hr]
    cases P.second? <;> rfl
  | actIn n deed =>
    left
    cases ht : x.transaction? n with
    | none => simp [Service.call, ht]
    | some t =>
      obtain rfl := h.pattern_of ht
      have hr : (x.pool.actIn t deed).result = .error e := by simpa [Service.call, ht] using he
      rw [actIn_result] at hr
      simp only [Service.call, ht, actIn_after, withStores_store_other, seconded_of_error _ _ hr]
      cases t.secondary? <;> rfl
  | finish n how =>
    cases ht : x.transaction? n with
    | none => simp [Service.call, ht]
    | some t =>
      obtain rfl := h.pattern_of ht
      have hr : (how.onStore (x.pool.store t.pattern.base) t.primary).2.mapError .store =
        .error e := by
        rw [← finish_result]
        cases hf : (x.pool.finish t how).result <;> simp_all [Service.call, Except.map]
      simp only [Service.call, ht, finish_after, withStores_store_other, seconded_of_error _ _ hr]
      cases hu : t.secondary? with
      | none => exact .inl rfl
      | some u => exact .inr ⟨n, how, t, u, rfl, ht, hu, rfl⟩

/-- Through calls and whatever befalls the second store, the two stay side by side and their callers
get the same. -/
theorem run {ms : List (Move σ)}
    (hms : ∀ m ∈ ms, m.isCall ∨ ∃ s, m = .become P.base.other s) :
    Without P (x.run ms) (y.run (ms.filter Move.isCall)) ∧
      x.answers ms = y.answers (ms.filter Move.isCall) := by
  induction ms generalizing x y with
  | nil => exact ⟨h, rfl⟩
  | cons m ms ih =>
    have hrest := fun m hm => hms m (List.mem_cons_of_mem _ hm)
    cases m with
    | call c =>
      obtain ⟨hrun, hanswers⟩ := ih (h.call c) hrest
      refine ⟨hrun, ?_⟩
      change (x.call c).2 :: (x.call c).1.answers ms = (y.call c).2 :: (y.call c).1.answers _
      rw [h.answer c, hanswers]
    | switch code => simpa [Move.isCall] using hms _ List.mem_cons_self
    | become d s =>
      obtain rfl : d = P.base.other := by simpa [Move.isCall] using hms _ List.mem_cons_self
      exact ih (h.become s) hrest

end Without

variable [Backend σ]

theorem only_primary_is_heard {P : Pattern} {d : Direction} (hd : P.second? = some d) {p q : Pool σ}
    (hp : p.code = P.code) (hq : q.code = P.alone.code) (hs : q.store P.base = p.store P.base)
    {ms : List (Move σ)} (hms : ∀ m ∈ ms, m.isCall ∨ ∃ s, m = .become d s) :
    let x := (Service.mk p []).run ms
    let y := (Service.mk q []).run (ms.filter Move.isCall)
    (Service.mk p []).answers ms = (Service.mk q []).answers (ms.filter Move.isCall) ∧
      x.pool.store P.base = y.pool.store P.base ∧
      ∀ c e, (x.call c).2 = .error e →
        (x.call c).1.pool.store d = x.pool.store d ∨
          ∃ n how t u, c = .finish n how ∧ x.transaction? n = some t ∧ t.secondary? = some u ∧
            (x.call c).1.pool.store d = (Backend.release (x.pool.store d) u).1 := by
  obtain rfl := Pattern.second?_eq hd
  have hstart : Without P (Service.mk p []) (Service.mk q []) :=
    ⟨hp, hq, hs, fun t ht => absurd ht List.not_mem_nil, rfl⟩
  obtain ⟨hrun, hanswers⟩ := hstart.run hms
  exact ⟨hanswers, hrun.primary.symm, fun c e he => hrun.refused he⟩

/-- The second store is locked by someone else, so the transaction has no half there, and loses its
table before the last insert, which is refused by the primary store. -/
theorem only_primary_is_heard_when_the_other_is_locked :
    let row := (Interactive.plain 1 0).values
    let src := Store.ofEntities "src" []
    let dst := Store.ofEntities "dst" []
    let p : Pool Store := ⟨src, dst, Pattern.srcFirst.code⟩
    let q : Pool Store := ⟨src, Store.fresh "dst" 0, Pattern.srcOnly.code⟩
    let put : Deed := .exec Session.insert row
    let ms : List (Move Store) := [.become .dst dst.begin.1, .call .begin, .call (.actIn 0 put),
      .become .dst (Store.fresh "dst" 0), .call (.finish 0 .commit), .call (.act put)]
    (Service.mk p []).answers ms = (Service.mk q []).answers (ms.filter Move.isCall) ∧
      (Service.mk p []).answers ms = [.ok .done, .ok (.count 1), .ok .done,
        .error (.store (.unique "interactives" ["id"]))] := by
  intro row src dst p q put ms
  have hms : ∀ m ∈ ms, m.isCall ∨ ∃ s, m = .become .dst s := by simp [ms, Move.isCall]
  obtain ⟨hanswers, _⟩ := only_primary_is_heard (P := .srcFirst) (d := .dst) (p := p) (q := q)
    rfl rfl rfl rfl hms
  exact ⟨hanswers, by decide +kernel⟩

end Service

end DualWrite
