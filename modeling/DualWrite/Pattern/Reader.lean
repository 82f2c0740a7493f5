import DualWrite.Error
import DualWrite.Json.Record
import DualWrite.Pattern.Basic

/-!
# Reading patterns and directions

Patterns are read from text, from their codes and from JSON, directions from text; what cannot be
read is an error that shows it unchanged.
-/
namespace DualWrite

namespace Pattern

def ofText (s : String) : Except Error Pattern :=
  match ofText? s with
  | some p => .ok p
  | none => .error (.unknownPattern s)

def ofCode (n : UInt8) : Except Error Pattern :=
  match ofCode? n with
  | some p => .ok p
  | none => .error (.unknownPattern (toString n.toNat))

/-- In JSON a pattern is the kind that its name says, letter by letter. -/
def ofJson (text : List UInt8) : Except Error Pattern :=
  (Json.document (Json.kind (all.map fun p => (p.name, p))) text).mapError .json

def toJson (p : Pattern) : String := "\"" ++ p.name ++ "\""

end Pattern

def Direction.ofText (s : String) : Except Error Direction :=
  match ofName? s with
  | some d => .ok d
  | none => .error (.unknownDirection s)

end DualWrite
