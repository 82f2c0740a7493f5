import DualWrite.Proofs.Pool.Routing

/-!
# Callers of a pool

Callers run statements through a pool, open transactions and end them in one of three ways.
Meanwhile the pattern may be switched, and a store may be changed by someone else. Every call is
described by what it does on one store by itself: the first store is always left as if it had been
alone.
-/
namespace DualWrite

def Outcome.map {τ α β : Type} (g : α → β) (o : Outcome τ α) : Outcome τ β :=
  ⟨o.after, o.result.map g, o.notices⟩

namespace Pool

/-- A statement, and what is wanted of it. -/
inductive Deed where
  | exec (st : Store.Statement) (args : List Value)
  | query (st : Store.Statement) (args : List Value)
  /-- The first row alone. -/
  | queryRow (st : Store.Statement) (args : List Value)

inductive Finish where
  | commit
  | rollback
  | drop
deriving DecidableEq

inductive Reply where
  | count (n : Nat)
  | rows (rows : Store.Rows)
  | row (row? : Option (List Value))
  | done
  /-- There is no such transaction, or it has ended. -/
  | absent
deriving DecidableEq

variable {σ : Type} [Backend σ]

section Alone
variable (s : σ)

def Deed.onStore (who : Option Ticket) : Deed → σ × Except Store.Fault Reply
  | .exec st args => ((Backend.exec s who st args).1, (Backend.exec s who st args).2.map .count)
  | .query st args => ((Backend.query s who st args).1, (Backend.query s who st args).2.map .rows)
  | .queryRow st args =>
    ((Backend.query s who st args).1, (Backend.query s who st args).2.map fun r =>
      .row r.rows.head?)

/-- A deed on the store that is asked second: reads do not get there. -/
def Deed.follow (who : Option Ticket) : Deed → σ
  | .exec st args => (Backend.exec s who st args).1
  | .query _ _ | .queryRow _ _ => s

def Finish.onStore (u : Ticket) : Finish → σ × Except Store.Fault Unit
  | .commit => ((Backend.commit s u).1, (Backend.commit s u).2.result)
  | .rollback => ((Backend.rollback s u).1, (Backend.rollback s u).2.result)
  | .drop => ((Backend.release s u).1, .ok ())

end Alone

variable (p : Pool σ)

def act : Deed → Outcome (Pool σ) Reply
  | .exec st args => (p.exec st args).map .count
  | .query st args => (p.query st args).map .rows
  | .queryRow st args => (p.query st args).map fun r => .row r.rows.head?

def actIn (t : Transaction) : Deed → Outcome (Pool σ) Reply
  | .exec st args => (p.execIn t st args).map .count
  | .query st args => (p.queryIn t st args).map .rows
  | .queryRow st args => (p.queryIn t st args).map fun r => .row r.rows.head?

def finish (t : Transaction) : Finish → Outcome (Pool σ) Unit
  | .commit => p.commit t
  | .rollback => p.rollback t
  | .drop => ⟨(p.release t).1, .ok (), (p.release t).2⟩

section Live
variable {p} {q : Pattern} (h : p.pattern = .ok q) (deed : Deed)
include h

theorem act_result :
    (p.act deed).result = (deed.onStore (p.store q.base) none).2.mapError .store := by
  cases deed with
  | exec st args => simp [act, Outcome.map, exec_result h, map_mapError, Deed.onStore]
  | query st args => simp [act, Outcome.map, query_result h, map_mapError, Deed.onStore]
  | queryRow st args => simp [act, Outcome.map, query_result h, map_mapError, Deed.onStore]

theorem act_after : (p.act deed).after =
    p.withStores q.base (deed.onStore (p.store q.base) none).1
      (seconded (deed.onStore (p.store q.base) none).2 q.second? (p.store q.base.other)
        (fun s _ => deed.follow s none) fun s _ => s) := by
  cases deed with
  | exec st args => simp [act, Outcome.map, exec_after h, Deed.onStore, Deed.follow]
  | query st args =>
    simp [act, Outcome.map, query_after h, Deed.onStore, Deed.follow, setStore_eq]
  | queryRow st args =>
    simp [act, Outcome.map, query_after h, Deed.onStore, Deed.follow, setStore_eq]

end Live

section Inside
variable (t : Transaction) (deed : Deed) (how : Finish)

theorem actIn_result : (p.actIn t deed).result =
    (deed.onStore (p.store t.pattern.base) (some t.primary)).2.mapError .store := by
  cases deed with
  | exec st args => simp [actIn, Outcome.map, execIn_result, map_mapError, Deed.onStore]
  | query st args => simp [actIn, Outcome.map, queryIn, on, map_mapError, Deed.onStore]
  | queryRow st args => simp [actIn, Outcome.map, queryIn, on, map_mapError, Deed.onStore]

theorem actIn_after : (p.actIn t deed).after =
    p.withStores t.pattern.base (deed.onStore (p.store t.pattern.base) (some t.primary)).1
      (seconded (deed.onStore (p.store t.pattern.base) (some t.primary)).2 t.secondary?
        (p.store t.pattern.base.other) (fun s u => deed.follow s (some u)) fun s _ => s) := by
  cases deed with
  | exec st args => simp [actIn, Outcome.map, execIn_after, Deed.onStore, Deed.follow]
  | query st args => simp [actIn, Outcome.map, queryIn, on, Deed.onStore, Deed.follow, setStore_eq]
  | queryRow st args =>
    simp [actIn, Outcome.map, queryIn, on, Deed.onStore, Deed.follow, setStore_eq]

theorem finish_result : (p.finish t how).result =
    (how.onStore (p.store t.pattern.base) t.primary).2.mapError .store := by
  cases how with
  | commit => exact endWith_result ..
  | rollback => exact endWith_result ..
  | drop => rfl

/-- An ending that the first store refuses drops the other half. -/
theorem finish_after : (p.finish t how).after =
    p.withStores t.pattern.base (how.onStore (p.store t.pattern.base) t.primary).1
      (seconded (how.onStore (p.store t.pattern.base) t.primary).2 t.secondary?
        (p.store t.pattern.base.other) (fun s u => (how.onStore s u).1)
        fun s u => (Backend.release s u).1) := by
  cases how with
  | commit => exact endWith_after ..
  | rollback => exact endWith_after ..
  | drop =>
    refine (release_after p t).trans ?_
    cases t.secondary? <;> rfl

end Inside

end Pool

/-- A pool and the transactions opened through it, by their numbers; one that has ended is gone. -/
structure Service (σ : Type) where
  pool : Pool σ
  opened : List (Option Pool.Transaction)

namespace Service
open Pool

inductive Call where
  | act (deed : Deed)
  | begin
  | actIn (n : Nat) (deed : Deed)
  | finish (n : Nat) (how : Finish)

/-- A call, or something that befalls the pool between two calls. -/
inductive Move (σ : Type) where
  | call (c : Call)
  | switch (code : UInt8)
  /-- Someone else has made this of a store. -/
  | become (d : Direction) (s : σ)

variable {σ : Type}

def transaction? (x : Service σ) (n : Nat) : Option Transaction := x.opened[n]?.join

theorem mem_opened {x : Service σ} {n : Nat} {t : Transaction} (h : x.transaction? n = some t) :
    some t ∈ x.opened := by
  rw [transaction?, Option.join_eq_some_iff] at h
  exact List.mem_of_getElem? h

variable [Backend σ] (x : Service σ)

def call : Call → Service σ × Except Error Reply
  | .act deed =>
    let o := x.pool.act deed
    ({ x with pool := o.after }, o.result)
  | .begin =>
    let o := x.pool.begin
    (⟨o.after, x.opened ++ [o.result.toOption]⟩, o.result.map fun _ => .done)
  | .actIn n deed =>
    match x.transaction? n with
    | none => (x, .ok .absent)
    | some t =>
      let o := x.pool.actIn t deed
      ({ x with pool := o.after }, o.result)
  | .finish n how =>
    match x.transaction? n with
    | none => (x, .ok .absent)
    | some t =>
      let o := x.pool.finish t how
      (⟨o.after, x.opened.set n none⟩, o.result.map fun () => .done)

theorem call_code {q : Pattern} (hq : x.pool.pattern = .ok q) (c : Call) :
    (x.call c).1.pool.code = x.pool.code := by
  cases c with
  | act deed => simp [call, act_after hq]
  | begin => simp [call, begin_after hq]
  | actIn n deed => cases ht : x.transaction? n <;> simp [call, ht, actIn_after]
  | finish n how => cases ht : x.transaction? n <;> simp [call, ht, finish_after]

def move : Move σ → Service σ
  | .call c => (x.call c).1
  | .switch code => { x with pool := { x.pool with code := code } }
  | .become d s => { x with pool := x.pool.setStore d s }

def run (ms : List (Move σ)) : Service σ := ms.foldl move x

def answers (x : Service σ) : List (Move σ) → List (Except Error Reply)
  | [] => []
  | .call c :: ms => (x.call c).2 :: answers (x.move (.call c)) ms
  | m :: ms => answers (x.move m) ms

end Service

end DualWrite
