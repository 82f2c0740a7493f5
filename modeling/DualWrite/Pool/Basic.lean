import DualWrite.Notice
import DualWrite.Pattern.Reader
import DualWrite.Store.Basic

/-!
# Pools

A pool holds the two stores and the code of the live pattern. The store that the pattern names first
decides what the caller sees; what fails on the other one is reported and forgotten. A transaction
keeps the pattern that was live when it was opened. Of a store a pool needs only the operations of
`Backend`, any of which may fail.
-/
namespace DualWrite

open Store in
class Backend (σ : Type) where
  name : σ → String
  exec : σ → Option Ticket → Statement → List Value → σ × Except Fault Nat
  query : σ → Option Ticket → Statement → List Value → σ × Except Fault Rows
  begin : σ → σ × Except Fault Ticket
  commit : σ → Ticket → σ × Ending
  rollback : σ → Ticket → σ × Ending
  /-- Drops a transaction that was not ended. -/
  release : σ → Ticket → σ × Option Fault

instance : Backend Store where
  name := Store.name
  exec := Store.exec
  query := Store.query
  begin := Store.begin
  commit := Store.commit
  rollback := Store.rollback
  release := Store.release

/-- What an operation leaves, answers and reports. -/
structure Outcome (σ α : Type) where
  after : σ
  result : Except Error α
  notices : List Notice

structure Pool (σ : Type) where
  src : σ
  dst : σ
  code : UInt8

namespace Pool

/-- A transaction of a pool: one of the primary store and, if it could be opened, one of the
other. -/
structure Transaction where
  pattern : Pattern
  primary : Ticket
  secondary? : Option Ticket
deriving Repr, DecidableEq

variable {σ : Type}

def store (p : Pool σ) : Direction → σ
  | .src => p.src
  | .dst => p.dst

def setStore (p : Pool σ) (d : Direction) (s : σ) : Pool σ :=
  match d with
  | .src => { p with src := s }
  | .dst => { p with dst := s }

def pattern (p : Pool σ) : Except Error Pattern := Pattern.ofCode p.code

def setPattern (p : Pool σ) (q : Pattern) : Pool σ := { p with code := q.code }

variable [Backend σ]

def nameOf (p : Pool σ) (d : Direction) : String := Backend.name (p.store d)

/-- Runs an operation on one of the stores. -/
def on {α : Type} (p : Pool σ) (d : Direction) (f : σ → σ × α) : Pool σ × α :=
  let (s, a) := f (p.store d)
  (p.setStore d s, a)

/-- Runs a statement on a store, and on the other one if it succeeded there and `second?` says
so. -/
def execOn (p : Pool σ) (first : Direction) (who : Option Ticket) (second? : Option (Option Ticket))
    (failed : String → Store.Fault → String → Notice) (st : Store.Statement) (args : List Value) :
    Outcome (Pool σ) Nat :=
  let (p, r) := p.on first fun s => Backend.exec s who st args
  match r, second? with
  | .error f, _ => ⟨p, .error (.store f), []⟩
  | .ok n, none => ⟨p, .ok n, []⟩
  | .ok n, some who =>
    let (p, r) := p.on first.other fun s => Backend.exec s who st args
    match r with
    | .ok _ => ⟨p, .ok n, []⟩
    | .error f => ⟨p, .ok n, [failed (p.nameOf first.other) f st.text]⟩

def exec (p : Pool σ) (st : Store.Statement) (args : List Value) : Outcome (Pool σ) Nat :=
  match p.pattern with
  | .error e => ⟨p, .error e, []⟩
  | .ok q => p.execOn q.base none (q.second?.map fun _ => none) .secondaryWriteFailed st args

/-- Reads the primary store only. -/
def query (p : Pool σ) (st : Store.Statement) (args : List Value) : Outcome (Pool σ) Store.Rows :=
  match p.pattern with
  | .error e => ⟨p, .error e, []⟩
  | .ok q =>
    let (p, r) := p.on q.base fun s => Backend.query s none st args
    ⟨p, r.mapError .store, []⟩

/-- Opens a transaction under the live pattern; without its other half if that one is refused. -/
def begin (p : Pool σ) : Outcome (Pool σ) Transaction :=
  match p.pattern with
  | .error e => ⟨p, .error e, []⟩
  | .ok q =>
    let (p, r) := p.on q.base Backend.begin
    match r, q.second? with
    | .error f, _ => ⟨p, .error (.store f), []⟩
    | .ok t, none => ⟨p, .ok ⟨q, t, none⟩, []⟩
    | .ok t, some d =>
      let (p, r) := p.on d Backend.begin
      match r with
      | .ok u => ⟨p, .ok ⟨q, t, some u⟩, []⟩
      | .error f => ⟨p, .ok ⟨q, t, none⟩, [.secondaryBeginFailed (p.nameOf d) f]⟩

def execIn (p : Pool σ) (t : Transaction) (st : Store.Statement) (args : List Value) :
    Outcome (Pool σ) Nat :=
  p.execOn t.pattern.base (some t.primary) (t.secondary?.map some) .transactionWriteFailed st args

def queryIn (p : Pool σ) (t : Transaction) (st : Store.Statement) (args : List Value) :
    Outcome (Pool σ) Store.Rows :=
  let (p, r) := p.on t.pattern.base fun s => Backend.query s (some t.primary) st args
  ⟨p, r.mapError .store, []⟩

/-- Reports a rollback that was due and could not be done. -/
def unfinished (p : Pool σ) (d : Direction) (f : Option Store.Fault) : List Notice :=
  (f.map (Notice.rollbackFailed (p.nameOf d))).toList

/-- Drops the half of a transaction on the other store. -/
def releaseSecond (p : Pool σ) (t : Transaction) : Pool σ × List Notice :=
  match t.secondary? with
  | none => (p, [])
  | some u =>
    let d := t.pattern.base.other
    let (p, f) := p.on d fun s => Backend.release s u
    (p, p.unfinished d f)

/-- Ends the primary half; only if that succeeded, the other one in the same way. -/
def endWith (p : Pool σ) (t : Transaction) (f : σ → Ticket → σ × Store.Ending)
    (failed : String → Store.Fault → Notice) : Outcome (Pool σ) Unit :=
  let d := t.pattern.base
  let (p, e) := p.on d fun s => f s t.primary
  match e.result, t.secondary? with
  | .error fault, _ =>
    let notices := p.unfinished d e.unfinished
    let (p, more) := p.releaseSecond t
    ⟨p, .error (.store fault), notices ++ more⟩
  | .ok (), none => ⟨p, .ok (), []⟩
  | .ok (), some u =>
    let (p, e) := p.on d.other fun s => f s u
    match e.result with
    | .ok () => ⟨p, .ok (), []⟩
    | .error fault =>
      ⟨p, .ok (), p.unfinished d.other e.unfinished ++ [failed (p.nameOf d.other) fault]⟩

def commit (p : Pool σ) (t : Transaction) : Outcome (Pool σ) Unit :=
  p.endWith t Backend.commit .secondaryCommitFailed

def rollback (p : Pool σ) (t : Transaction) : Outcome (Pool σ) Unit :=
  p.endWith t Backend.rollback .secondaryRollbackFailed

/-- Drops a transaction that was not ended. -/
def release (p : Pool σ) (t : Transaction) : Pool σ × List Notice :=
  let d := t.pattern.base
  let (p, f) := p.on d fun s => Backend.release s t.primary
  let notices := p.unfinished d f
  let (p, more) := p.releaseSecond t
  (p, notices ++ more)

end Pool

end DualWrite
