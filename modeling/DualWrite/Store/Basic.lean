import DualWrite.Store.Contents
import DualWrite.Store.Definition

/-!
# Stores and their transactions

A store has committed contents and at most one open transaction, which works on contents of its
own. Readers outside the transaction see what is committed; a second writer is refused. Idle
connections are taken from the top of a pile and put back there; a connection remembers how many
rows its last modification touched, which is what ending a transaction by a statement reports.
-/
namespace DualWrite

/-- Names a transaction of a store. -/
abbrev Ticket := Nat

namespace Store

/-- The open transaction: whose it is and what it has made of the contents. -/
structure Writer where
  ticket : Ticket
  contents : Contents
deriving Repr, DecidableEq

/-- How an ending went, and the fault of the closing rollback if even that failed. -/
structure Ending where
  result : Except Fault Unit
  unfinished : Option Fault

end Store

structure Store where
  name : String
  committed : Store.Contents
  writer? : Option Store.Writer
  /-- Rows touched last, by idle connection. -/
  idle : List Nat
  /-- Rows touched last, by the connection of a transaction. -/
  held : List (Ticket × Nat)
  nextTicket : Ticket
deriving Repr, DecidableEq

namespace Store

def fresh (name : String) (connections : Nat) : Store :=
  ⟨name, .empty, none, List.replicate connections 0, [], 0⟩

/-- The caller's open transaction, if the caller has one. -/
def own? (s : Store) (who : Option Ticket) : Option Writer :=
  s.writer?.filter fun w => some w.ticket = who

/-- The contents that a caller reads. -/
def view (s : Store) (who : Option Ticket) : Contents :=
  match s.own? who with
  | some w => w.contents
  | none => s.committed

def touched (s : Store) : Option Ticket → Nat
  | none => s.idle.headD 0
  | some t => (s.held.lookup t).getD 0

def setTouched (s : Store) (who : Option Ticket) (n : Nat) : Store :=
  match who with
  | none => { s with idle := n :: s.idle.drop 1 }
  | some t => { s with held := s.held.map fun p => if p.1 = t then (t, n) else p }

/-- Runs a writing statement in the caller's transaction, or as a transaction of its own. -/
def modify (s : Store) (who : Option Ticket) (st : Statement) (args : List Value) :
    Store × Except Fault Nat :=
  match s.own? who with
  | some w =>
    match w.contents.modify st args with
    | .ok (n, c) => ({ s with writer? := some { w with contents := c } }.setTouched who n, .ok n)
    | .error e =>
      ({ s with writer? := if e.endsTransaction then none else some w }.setTouched who 0,
        .error e.fault)
  | none =>
    if s.writer?.isSome then (s.setTouched who 0, .error .locked)
    else match s.committed.modify st args with
      | .error e => (s.setTouched who 0, .error e.fault)
      | .ok (n, c) =>
        if c.hasOrphan then (s.setTouched who 0, .error .foreignKey)
        else ({ s with committed := c }.setTouched who n, .ok n)

/-- Makes the caller's transaction permanent. -/
def commitOwn (s : Store) (who : Option Ticket) : Store × Except Fault Unit :=
  match s.own? who with
  | none => (s, .error (.noTransaction "commit"))
  | some w =>
    if w.contents.hasOrphan then (s, .error .foreignKey)
    else ({ s with committed := w.contents, writer? := none }, .ok ())

def rollbackOwn (s : Store) (who : Option Ticket) : Store × Except Fault Unit :=
  match s.own? who with
  | none => (s, .error (.noTransaction "rollback"))
  | some _ => ({ s with writer? := none }, .ok ())

/-- Whether a statement can run: its names are there and its arguments are as many as needed. -/
def ready (s : Store) (who : Option Ticket) (st : Statement) (args : List Value) :
    Except Fault Unit := do
  (s.view who).prepare st
  if args.length ≠ st.parameters then .error (.argumentCount args.length st.parameters)

/-- Runs a statement that gives no rows; answers how many rows it touched. -/
def exec (s : Store) (who : Option Ticket) (st : Statement) (args : List Value) :
    Store × Except Fault Nat :=
  match s.ready who st args with
  | .error f => (s, .error f)
  | .ok () =>
    match st with
    | .select _ => (s, .error .returnsRows)
    | .commit =>
      let (s, r) := s.commitOwn who
      (s, r.map fun () => s.touched who)
    | .rollback =>
      let (s, r) := s.rollbackOwn who
      (s, r.map fun () => s.touched who)
    | st => s.modify who st args

/-- Runs a statement for its rows; one that writes gives none. -/
def query (s : Store) (who : Option Ticket) (st : Statement) (args : List Value) :
    Store × Except Fault Rows :=
  match s.ready who st args with
  | .error f => (s, .error f)
  | .ok () =>
    match st with
    | .select q => (s, (s.view who).rows q args)
    | st =>
      let (s, r) := s.exec who st args
      (s, r.map fun _ => Rows.none)

/-- Opens a transaction on a connection of its own. -/
def begin (s : Store) : Store × Except Fault Ticket :=
  if s.writer?.isSome then (s, .error .locked)
  else
    let t := s.nextTicket
    ({ s with
        writer? := some ⟨t, s.committed⟩
        idle := s.idle.drop 1
        held := (t, s.idle.headD 0) :: s.held
        nextTicket := t + 1 }, .ok t)

/-- Puts the connection of a transaction back. -/
def giveBack (s : Store) (t : Ticket) : Store :=
  { s with idle := s.touched (some t) :: s.idle, held := s.held.filter fun p => p.1 ≠ t }

/-- Drops a transaction that has not been ended: it is rolled back. -/
def release (s : Store) (t : Ticket) : Store × Option Fault :=
  let (s, r) := s.rollbackOwn (some t)
  (s.giveBack t, match r with | .error f => some f | .ok () => none)

/-- An ending that failed drops the transaction. -/
def finish (s : Store) (t : Ticket) (r : Except Fault Unit) : Store × Ending :=
  match r with
  | .ok () => (s.giveBack t, ⟨.ok (), none⟩)
  | .error f =>
    let (s, unfinished) := s.release t
    (s, ⟨.error f, unfinished⟩)

def commit (s : Store) (t : Ticket) : Store × Ending :=
  let (s, r) := s.commitOwn (some t)
  s.finish t r

def rollback (s : Store) (t : Ticket) : Store × Ending :=
  let (s, r) := s.rollbackOwn (some t)
  s.finish t r

/-- Runs a script outside any transaction, until a definition fails. -/
def define (s : Store) : Script → Store × Except Fault Unit
  | [] => (s, .ok ())
  | d :: ds =>
    match s.committed.define d (Script.text (d :: ds)) with
    | .error f => (s, .error f)
    | .ok none => define s ds
    | .ok (some c) =>
      if s.writer?.isSome then (s, .error .locked) else define { s with committed := c } ds

/-- Columns of a table, in the order of their definition. -/
def columnNames (s : Store) (table : String) : Except Fault (List String) :=
  match s.committed.table? table with
  | some t => .ok t.schema.names
  | none => .error (.noTable table)

end Store

end DualWrite
