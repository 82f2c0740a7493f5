import DualWrite.Store.Fault
import DualWrite.Store.Schema

/-!
# Definitions

A script makes and drops tables, definition by definition; each is effective as soon as it has been
run. The text of a definition matters only to the faults that quote it.
-/
namespace DualWrite.Store

inductive Effect where
  | createTable (schema : Schema) (unlessThere : Bool)
  /-- An index on one column, unless it is there. -/
  | createIndex (name table column : String)
  | dropTable (name : String)
  | malformed (word : String)
  | nothing
deriving Repr, DecidableEq

/-- A definition, its text, and how many octets stand before the name that a fault points at. -/
structure Definition where
  effect : Effect
  text : String
  offset : Nat
deriving Repr, DecidableEq

abbrev Script := List Definition

def Script.text (s : Script) : String := s.foldl (fun t d => t ++ d.text) ""

namespace Contents

/-- The contents after a definition; `none` if it changes nothing. `rest` is the script from the
definition on. -/
def define (c : Contents) (d : Definition) (rest : String) : Except Fault (Option Contents) :=
  match d.effect with
  | .createTable s unlessThere =>
    match c.table? s.table, unlessThere with
    | none, _ => .ok (some (c.addTable s))
    | some _, true => .ok none
    | some t, false => .error (.tableExists t.schema.table ⟨rest, d.offset⟩)
  | .createIndex name table column =>
    match c.table? table with
    | none => .error (.noTable ("main." ++ table))
    | some t =>
      if name ∈ t.indices then .ok none
      else if (t.schema.place? column).isNone then .error (.noColumn column (some ⟨rest, d.offset⟩))
      else .ok (some (c.setTable { t with indices := name :: t.indices }))
  | .dropTable name =>
    match c.table? name with
    | none => .error (.noTable name)
    | some _ => .ok (some (c.dropTable name))
  | .malformed word => .error (.malformed word ⟨rest, d.offset⟩)
  | .nothing => .ok none

end Contents

end DualWrite.Store
