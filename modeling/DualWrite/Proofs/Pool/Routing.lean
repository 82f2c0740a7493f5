import DualWrite.Pool.Basic

/-!
# What a call of a pool does to each store

The store that is asked first decides the answer alone. The other one follows only after it has
agreed, and whatever comes of that is left out of the answer. Each operation of a pool is given here
by its answer and by what it makes of the two stores.
-/
namespace DualWrite

namespace Pattern

@[simp] theorem ofCode_code (q : Pattern) : ofCode q.code = .ok q := by
  rw [ofCode, ofCode?_code]

end Pattern

namespace Pool
variable {σ : Type}

def Transaction.ticket? (t : Transaction) (d : Direction) : Option Ticket :=
  if d = t.pattern.base then some t.primary else t.secondary?

namespace Transaction
variable (t : Transaction)

@[simp] theorem ticket?_base : t.ticket? t.pattern.base = some t.primary := if_pos rfl

@[simp] theorem ticket?_other : t.ticket? t.pattern.base.other = t.secondary? :=
  if_neg t.pattern.base.ne_other.symm

end Transaction

def withStores (p : Pool σ) (d : Direction) (s u : σ) : Pool σ :=
  (p.setStore d s).setStore d.other u

section Stores
variable (p : Pool σ) (d : Direction) (s u : σ)

@[simp] theorem store_setStore : (p.setStore d s).store d = s := by cases d <;> rfl

@[simp] theorem store_setStore_other : (p.setStore d s).store d.other = p.store d.other := by
  cases d <;> rfl

@[simp] theorem other_store_setStore : (p.setStore d.other s).store d = p.store d := by
  cases d <;> rfl

@[simp] theorem store_setCode (code : UInt8) :
    Pool.store { p with code := code } d = p.store d := by
  cases d <;> rfl

@[simp] theorem setStore_code : (p.setStore d s).code = p.code := by cases d <;> rfl

theorem setStore_eq : p.setStore d s = p.withStores d s (p.store d.other) := by cases d <;> rfl

@[simp] theorem setStore_setStore_other :
    (p.setStore d s).setStore d.other u = p.withStores d s u := rfl

@[simp] theorem withStores_setStore (s' : σ) :
    (p.setStore d s').withStores d s u = p.withStores d s u := by cases d <;> rfl

@[simp] theorem withStores_store : (p.withStores d s u).store d = s := by cases d <;> rfl

@[simp] theorem withStores_store_other : (p.withStores d s u).store d.other = u := by
  cases d <;> rfl

@[simp] theorem withStores_code : (p.withStores d s u).code = p.code := by cases d <;> rfl

@[simp] theorem withStores_stores : p.withStores d (p.store d) (p.store d.other) = p := by
  cases d <;> rfl

end Stores

/-- What becomes of the store that is asked second: it follows the first one's consent. -/
def seconded {α β : Type} (r : Except Store.Fault α) (half? : Option β) (s : σ)
    (follow refuse : σ → β → σ) : σ :=
  match half?, r with
  | none, _ => s
  | some b, .ok _ => follow s b
  | some b, .error _ => refuse s b

section Seconded
variable {α β γ : Type} (r : Except Store.Fault α) (half? : Option γ) (s : σ)

@[simp] theorem seconded_of_map (g : α → β) (follow refuse : σ → γ → σ) :
    seconded (r.map g) half? s follow refuse = seconded r half? s follow refuse := by
  cases half? <;> cases r <;> rfl

@[simp] theorem seconded_same : seconded r half? s (fun s _ => s) (fun s _ => s) = s := by
  cases half? <;> cases r <;> rfl

theorem seconded_map (g : γ → β) (follow refuse : σ → β → σ) :
    seconded r (half?.map g) s follow refuse =
      seconded r half? s (fun s c => follow s (g c)) fun s c => refuse s (g c) := by
  cases half? <;> cases r <;> rfl

theorem seconded_of_error {r : Except Store.Fault α} {e : Error} (he : r.mapError .store = .error e)
    (follow refuse : σ → γ → σ) :
    seconded r half? s follow refuse = (half?.map (refuse s)).getD s := by
  cases r with
  | error f => cases half? <;> rfl
  | ok a => cases he

theorem seconded_some (b : γ) (follow refuse : σ → γ → σ) :
    seconded r (some b) s follow refuse = if r.isOk then follow s b else refuse s b := by
  cases r <;> rfl

end Seconded

@[simp] theorem isOk_map {α β ε : Type} (r : Except ε α) (g : α → β) : (r.map g).isOk = r.isOk := by
  cases r <;> rfl

@[simp] theorem isOk_mapError {α ε ε' : Type} (r : Except ε α) (f : ε → ε') :
    (r.mapError f).isOk = r.isOk := by
  cases r <;> rfl

theorem map_mapError {α β ε ε' : Type} (r : Except ε α) (f : ε → ε') (g : α → β) :
    (r.mapError f).map g = (r.map g).mapError f := by
  cases r <;> rfl

variable [Backend σ]

section Executing
variable (p : Pool σ) (d : Direction) (who : Option Ticket) (second? : Option (Option Ticket))
  (failed : String → Store.Fault → String → Notice) (st : Store.Statement) (args : List Value)

theorem execOn_result : (p.execOn d who second? failed st args).result =
    (Backend.exec (p.store d) who st args).2.mapError .store := by
  rcases h : Backend.exec (p.store d) who st args with ⟨s, r⟩
  cases r with
  | error f => simp [execOn, on, h]
  | ok n =>
    cases second? with
    | none => simp [execOn, on, h]
    | some half =>
      rcases h₂ : Backend.exec (p.store d.other) half st args with ⟨u, a⟩
      cases a <;> simp [execOn, on, h, h₂]

theorem execOn_after : (p.execOn d who second? failed st args).after =
    p.withStores d (Backend.exec (p.store d) who st args).1
      (seconded (Backend.exec (p.store d) who st args).2 second? (p.store d.other)
        (fun s half => (Backend.exec s half st args).1) fun s _ => s) := by
  rcases h : Backend.exec (p.store d) who st args with ⟨s, r⟩
  cases r with
  | error f => cases second? <;> simp [execOn, on, seconded, h, setStore_eq]
  | ok n =>
    cases second? with
    | none => simp [execOn, on, seconded, h, setStore_eq]
    | some half =>
      rcases h₂ : Backend.exec (p.store d.other) half st args with ⟨u, a⟩
      cases a <;> simp [execOn, on, seconded, h, h₂]

end Executing

section Ending
variable (p : Pool σ) (t : Transaction) (f : σ → Ticket → σ × Store.Ending)
  (failed : String → Store.Fault → Notice)

theorem releaseSecond_after : (p.releaseSecond t).1 =
    p.withStores t.pattern.base (p.store t.pattern.base)
      ((t.secondary?.map fun u => (Backend.release (p.store t.pattern.base.other) u).1).getD
        (p.store t.pattern.base.other)) := by
  cases h : t.secondary? with
  | none => simp [releaseSecond, h]
  | some u => cases hb : t.pattern.base <;> simp [releaseSecond, on, h, hb] <;> rfl

theorem endWith_result : (p.endWith t f failed).result =
    (f (p.store t.pattern.base) t.primary).2.result.mapError .store := by
  rcases h : f (p.store t.pattern.base) t.primary with ⟨s, r, n⟩
  cases r with
  | error fault => simp [endWith, on, h]
  | ok _ =>
    cases hu : t.secondary? with
    | none => simp [endWith, on, h, hu]
    | some u =>
      rcases h₂ : f (p.store t.pattern.base.other) u with ⟨s₂, r₂, n₂⟩
      cases r₂ <;> simp [endWith, on, h, hu, h₂]

theorem endWith_after : (p.endWith t f failed).after =
    p.withStores t.pattern.base (f (p.store t.pattern.base) t.primary).1
      (seconded (f (p.store t.pattern.base) t.primary).2.result t.secondary?
        (p.store t.pattern.base.other) (fun s u => (f s u).1)
        fun s u => (Backend.release s u).1) := by
  rcases h : f (p.store t.pattern.base) t.primary with ⟨s, r, n⟩
  cases r with
  | error fault =>
    cases hu : t.secondary? <;> simp [endWith, on, h, hu, seconded, releaseSecond_after]
  | ok _ =>
    cases hu : t.secondary? with
    | none => simp [endWith, on, h, hu, seconded, setStore_eq]
    | some u =>
      rcases h₂ : f (p.store t.pattern.base.other) u with ⟨s₂, r₂, n₂⟩
      cases r₂ <;> simp [endWith, on, h, hu, h₂, seconded]

theorem release_after : (p.release t).1 =
    p.withStores t.pattern.base (Backend.release (p.store t.pattern.base) t.primary).1
      ((t.secondary?.map fun u => (Backend.release (p.store t.pattern.base.other) u).1).getD
        (p.store t.pattern.base.other)) := by
  simp [release, on, releaseSecond_after]

end Ending

section Inside
variable (p : Pool σ) (t : Transaction) (st : Store.Statement) (args : List Value)

theorem execIn_result : (p.execIn t st args).result =
    (Backend.exec (p.store t.pattern.base) (some t.primary) st args).2.mapError .store :=
  execOn_result ..

theorem execIn_after : (p.execIn t st args).after =
    p.withStores t.pattern.base (Backend.exec (p.store t.pattern.base) (some t.primary) st args).1
      (seconded (Backend.exec (p.store t.pattern.base) (some t.primary) st args).2 t.secondary?
        (p.store t.pattern.base.other) (fun s u => (Backend.exec s (some u) st args).1)
        fun s _ => s) := by
  rw [execIn, execOn_after, seconded_map]

end Inside

section Live
variable {p : Pool σ} {q : Pattern} (h : p.pattern = .ok q)
include h

theorem exec_result (st : Store.Statement) (args : List Value) : (p.exec st args).result =
    (Backend.exec (p.store q.base) none st args).2.mapError .store := by
  rw [exec, h]
  exact execOn_result ..

theorem exec_after (st : Store.Statement) (args : List Value) : (p.exec st args).after =
    p.withStores q.base (Backend.exec (p.store q.base) none st args).1
      (seconded (Backend.exec (p.store q.base) none st args).2 q.second? (p.store q.base.other)
        (fun s _ => (Backend.exec s none st args).1) fun s _ => s) := by
  rw [exec, h]
  rw [execOn_after, seconded_map]

theorem query_result (st : Store.Statement) (args : List Value) : (p.query st args).result =
    (Backend.query (p.store q.base) none st args).2.mapError .store := by
  rw [query, h]
  rfl

theorem query_after (st : Store.Statement) (args : List Value) : (p.query st args).after =
    p.setStore q.base (Backend.query (p.store q.base) none st args).1 := by
  rw [query, h]
  rfl

/-- The transaction has its other half if that one could be opened. -/
theorem begin_result : p.begin.result =
    ((Backend.begin (p.store q.base)).2.map fun t => (⟨q, t, q.second?.bind fun _ =>
      (Backend.begin (p.store q.base.other)).2.toOption⟩ : Transaction)).mapError .store := by
  rcases hb : Backend.begin (p.store q.base) with ⟨s, r⟩
  cases r with
  | error f => simp [begin, h, on, hb, Except.map]
  | ok t =>
    cases hd : q.second? with
    | none => simp [begin, h, on, hb, hd, Except.map]
    | some d =>
      obtain rfl := Pattern.second?_eq hd
      rcases hb₂ : Backend.begin (p.store q.base.other) with ⟨s₂, r₂⟩
      cases r₂ <;> simp [begin, h, on, hb, hd, hb₂, Except.map, Except.toOption]

theorem begun {t : Transaction} (ht : p.begin.result = .ok t) :
    t.pattern = q ∧ (Backend.begin (p.store q.base)).2 = .ok t.primary ∧
      t.secondary? = q.second?.bind fun _ => (Backend.begin (p.store q.base.other)).2.toOption := by
  rw [begin_result h] at ht
  cases hb : (Backend.begin (p.store q.base)).2 with
  | error f => simp [hb, Except.map] at ht
  | ok u =>
    simp only [hb, Except.map, mapError_ok, Except.ok.injEq] at ht
    subst ht
    exact ⟨rfl, rfl, rfl⟩

theorem begin_after : p.begin.after =
    p.withStores q.base (Backend.begin (p.store q.base)).1
      (seconded (Backend.begin (p.store q.base)).2 q.second? (p.store q.base.other)
        (fun s _ => (Backend.begin s).1) fun s _ => s) := by
  rcases hb : Backend.begin (p.store q.base) with ⟨s, r⟩
  cases r with
  | error f => cases q.second? <;> simp [begin, h, on, hb, seconded, setStore_eq]
  | ok t =>
    cases hd : q.second? with
    | none => simp [begin, h, on, hb, hd, seconded, setStore_eq]
    | some d =>
      obtain rfl := Pattern.second?_eq hd
      rcases hb₂ : Backend.begin (p.store q.base.other) with ⟨s₂, r₂⟩
      cases r₂ <;> simp [begin, h, on, hb, hd, hb₂, seconded]

end Live

end Pool

end DualWrite
