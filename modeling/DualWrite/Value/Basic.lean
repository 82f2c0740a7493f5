import DualWrite.Binary64.Decimal

/-!
# Stored values

A value is nothing, a whole number of sixty-four bits, a real, a text or a string of octets.
Values are ordered by class first: nothing, numbers, texts, octets.
-/
namespace DualWrite

inductive Value where
  | null
  | int (n : Int)
  | real (x : Binary64)
  | text (s : String)
  | blob (octets : List UInt8)
deriving Repr, DecidableEq

namespace Value

def className : Value → String
  | .null => "Null"
  | .int _ => "Integer"
  | .real _ => "Real"
  | .text _ => "Text"
  | .blob _ => "Blob"

def rank : Value → Nat
  | .null => 0
  | .int _ | .real _ => 1
  | .text _ => 2
  | .blob _ => 3

/-- Lists in the order of their first difference. -/
def compareLists {α : Type} (cmp : α → α → Ordering) : List α → List α → Ordering
  | [], [] => .eq
  | [], _ :: _ => .lt
  | _ :: _, [] => .gt
  | a :: as, b :: bs =>
    match cmp a b with
    | .eq => compareLists cmp as bs
    | o => o

/-- The order of stored values. -/
def compare : Value → Value → Ordering
  | .int a, .int b => Ord.compare a b
  | .int a, .real y => (Binary64.compareRatio (a, 1) y)
  | .real x, .int b => (Binary64.compareRatio (b, 1) x).swap
  | .real x, .real y => x.compare y
  | .text a, .text b =>
    compareLists (fun c d : Char => Ord.compare c.toNat d.toNat) a.toList b.toList
  | .blob a, .blob b => compareLists (fun c d : UInt8 => Ord.compare c.toNat d.toNat) a b
  | a, b => Ord.compare a.rank b.rank

/-- Equality as a condition sees it: nothing equals nothing, not even itself. -/
def equals (a b : Value) : Bool :=
  a ≠ .null && b ≠ .null && a.compare b = .eq

def above (a b : Value) : Bool :=
  a ≠ .null && b ≠ .null && a.compare b = .gt

/-- A real as it is stored, shown with the fewest digits. -/
def realStyle : Decimal.Style := ⟨-4, 15, false, false, 1⟩

def realText (x : Binary64) : String := x.text realStyle Decimal.shortest

end Value

end DualWrite
