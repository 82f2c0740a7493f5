import DualWrite.Json.Fault
import DualWrite.Store.Fault

/-!
# Errors

Everything that can go wrong for a caller, and its text.
-/
namespace DualWrite

inductive Error where
  | store (fault : Store.Fault)
  | json (error : Json.Error)
  | unknownPattern (text : String)
  | unknownDirection (text : String)
  | poisoned
  | other (message : String)
deriving Repr, DecidableEq

def Error.message : Error → String
  | .store f => "Database error: " ++ f.message
  | .json e => "Serialization error: " ++ e.message
  | .unknownPattern s => "Unknown dual-write pattern: " ++ s
  | .unknownDirection s => "Unknown repair direction: " ++ s
  | .poisoned => "Control-plane lock was poisoned"
  | .other m => "Error: " ++ m

section
variable {α ε ε' : Type} (f : ε → ε')

@[simp] theorem mapError_ok (a : α) : (Except.ok a : Except ε α).mapError f = .ok a := rfl

@[simp] theorem mapError_error (e : ε) :
    (Except.error e : Except ε α).mapError f = .error (f e) := rfl

end

end DualWrite
