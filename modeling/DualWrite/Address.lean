import DualWrite.Text.Basic

/-!
# Addresses to listen at

A host of four octets, or of eight groups between brackets, with a port. In a host of groups two
colons stand once for a row of zeros, and the last two groups may be written as four octets. Names
are no addresses.
-/
namespace DualWrite

inductive Host where
  | octets (os : List Nat)
  | groups (gs : List Nat) (zone : Nat)
deriving Repr, DecidableEq

structure Address where
  host : Host
  port : Nat
deriving Repr, DecidableEq

namespace Address

open Text (Reading isHexDigit digitsValue)
open Text.Reading

/-- A decimal number of any length, at most so great. -/
def number (most : Nat) : Reading Nat := do
  let n := digitsValue 10 (← run1 Char.isDigit)
  if n ≤ most then return n else failure

/-- An octet has no leading zero. -/
def octet : Reading Nat := do
  let ds ← run1 Char.isDigit
  let n := digitsValue 10 ds
  if (ds.head? = some '0' ∧ ds.length ≠ 1) ∨ 255 < n then failure
  return n

def fourOctets : Reading (List Nat) := do
  let a ← octet
  mark '.'
  let b ← octet
  mark '.'
  let c ← octet
  mark '.'
  return [a, b, c, ← octet]

def group : Reading Nat := do
  let ds ← run1 isHexDigit
  if 4 < ds.length then failure
  return digitsValue 16 ds

/-- The colon before a group, but not before the first one. -/
def separator (first : Bool) : Reading Unit := if first then pure () else mark ':'

/-- Two groups written as four octets. -/
def octetGroups : Reading (List Nat) := do
  match ← fourOctets with
  | [a, b, c, d] => return [a * 256 + b, c * 256 + d]
  | _ => failure

/-- At most so many groups, and whether the last two of them were written as octets. -/
def groups : Nat → Bool → Reading (List Nat × Bool)
  | 0, _ => pure ([], false)
  | limit + 1, first =>
    (do
      if limit = 0 then failure
      separator first
      return (← octetGroups, true))
    <|> (do
      separator first
      let g ← group
      let (gs, octets) ← groups limit false
      return (g :: gs, octets))
    <|> pure ([], false)

/-- Eight groups; two colons fill them up with zeros. -/
def eightGroups : Reading (List Nat) := do
  let (head, octets) ← groups 8 true
  if head.length = 8 then return head
  if octets then failure
  mark ':'
  mark ':'
  let (tail, _) ← groups (7 - head.length) true
  return head ++ List.replicate (8 - head.length - tail.length) 0 ++ tail

def zone : Reading Nat := do
  mark '%'
  number (Nat.pow 2 32 - 1)

def anyHost : Reading Host :=
  (.octets <$> fourOctets) <|> do
    mark '['
    let gs ← eightGroups
    let z ← zone <|> pure 0
    mark ']'
    return .groups gs z

def address : Reading Address := do
  let h ← anyHost
  mark ':'
  return ⟨h, ← number 65535⟩

def ofString? (s : String) : Option Address := whole? address s.toList

end Address

end DualWrite
