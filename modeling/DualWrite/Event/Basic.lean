import DualWrite.Pattern.Basic

/-!
# Events

An event reports one row in which two stores differ. Its direction names the store that is right;
it stays a text, so that a reader can meet one that it does not know.
-/
namespace DualWrite

namespace Event

inductive Kind where
  /-- The base has the row, the target lacks it. -/
  | targetMissing
  /-- Both have the row, with different contents. -/
  | unequal
  /-- The target has the row, the base lacks it. -/
  | baseMissing
deriving Repr, DecidableEq

namespace Kind

def all : List Kind := [.targetMissing, .unequal, .baseMissing]

def name : Kind → String
  | .targetMissing => "target_missing"
  | .unequal => "neq"
  | .baseMissing => "base_missing"

/-- The name in log lines. -/
def title : Kind → String
  | .targetMissing => "TargetMissing"
  | .unequal => "Neq"
  | .baseMissing => "BaseMissing"

def ofName? (s : String) : Option Kind := all.find? (·.name = s)

/-- Found by the scan of the base, not by that of the target. -/
def isForward : Kind → Bool
  | .targetMissing | .unequal => true
  | .baseMissing => false

end Kind

end Event

structure Event where
  id : Int
  direction : String
  kind : Event.Kind
deriving Repr, DecidableEq

end DualWrite
