import DualWrite.Binary64.Basic

/-!
# Decimal text of binary numbers

`shortest` takes the fewest digits that read back as the same value, `rounded` a fixed number of
digits. A `Style` says where positional writing ends and how an exponent is written.
-/
namespace DualWrite

/-- `significand · 10^exponent`, with no zero at the end of the significand. -/
structure Decimal where
  significand : Nat
  exponent : Int
deriving Repr, DecidableEq

namespace Decimal

def digitCount (n : Nat) : Nat := (Nat.toDigits 10 n).length

def strip (fuel : Nat) (n : Nat) (e : Int) : Decimal :=
  match fuel with
  | 0 => ⟨n, e⟩
  | k + 1 => if n ≠ 0 && n % 10 = 0 then strip k (n / 10) (e + 1) else ⟨n, e⟩

/-- The same number without zeros at the end of its significand. -/
def normal (n : Nat) (e : Int) : Decimal := if n = 0 then ⟨0, 0⟩ else strip (digitCount n) n e

/-- Place of the leading digit, counted from the point. -/
def leading (d : Decimal) : Int := d.exponent + digitCount d.significand - 1

/-- Place of the leading digit of a positive quotient. -/
def place (num den : Nat) : Int :=
  if den ≤ num then digitCount (num / den) - 1
  else
    let k := ((List.range 400).find? fun k => den ≤ num * Nat.pow 10 (k + 1)).getD 400
    Int.negSucc k

/-- The quotient counted in units of `10^u`: whole units, remainder and divisor. -/
def inUnits (num den : Nat) (u : Int) : Nat × Nat × Nat :=
  let (n, d) :=
    if 0 ≤ u then (num, den * Nat.pow 10 u.toNat) else (num * Nat.pow 10 (-u).toNat, den)
  (n / d, n % d, d)

/-- With `n` digits: the nearer of the two neighbours that read back, if one does. -/
def neighbour (x : Binary64) (num den n : Nat) : Option Decimal :=
  let u := place num den - n + 1
  let (q, r, d) := inUnits num den u
  let back := fun k => Binary64.ofDecimal x.isNegative k u == x
  match back q, back (q + 1) with
  | true, true =>
    if 2 * r < d || (2 * r = d && q % 2 = 0) then some (normal q u) else some (normal (q + 1) u)
  | true, false => some (normal q u)
  | false, true => some (normal (q + 1) u)
  | false, false => none

/-- The fewest digits that read back as the value. -/
def shortest (x : Binary64) : Decimal :=
  match x.toRatio with
  | none => ⟨0, 0⟩
  | some (n, den) =>
    if n = 0 then ⟨0, 0⟩
    else ((List.range 17).findSome? fun k => neighbour x n.natAbs den (k + 1)).getD ⟨n.natAbs, 0⟩

/-- The value to `n` significant digits, a half away from zero. -/
def rounded (n : Nat) (x : Binary64) : Decimal :=
  match x.toRatio with
  | none => ⟨0, 0⟩
  | some (a, den) =>
    if a = 0 then ⟨0, 0⟩
    else
      let u := place a.natAbs den - n + 1
      let (q, r, d) := inUnits a.natAbs den u
      normal (if d ≤ 2 * r then q + 1 else q) u

/-- How a number with a point is written. -/
structure Style where
  /-- Leading places from `low` to `high` are written positionally. -/
  low : Int
  high : Int
  /-- A single digit before an exponent is followed by `.0`. -/
  pointBeforeExponent : Bool
  /-- A positive exponent shows its sign. -/
  plus : Bool
  /-- Least number of digits of an exponent. -/
  exponentDigits : Nat
deriving Repr, DecidableEq

def zeros (n : Nat) : List Char := List.replicate n '0'

def exponentText (s : Style) (p : Int) : List Char :=
  let ds := Nat.toDigits 10 p.natAbs
  let sign := if p < 0 then ['-'] else if s.plus then ['+'] else []
  'e' :: sign ++ zeros (s.exponentDigits - ds.length) ++ ds

/-- The text of an unsigned decimal. -/
def chars (s : Style) (d : Decimal) : List Char :=
  let ds := Nat.toDigits 10 d.significand
  let p := if d.significand = 0 then 0 else d.leading
  if s.low ≤ p && p ≤ s.high then
    if p < 0 then '0' :: '.' :: zeros ((-p).toNat - 1) ++ ds
    else
      let whole := p.toNat + 1
      let tail := ds.drop whole
      ds.take whole ++ zeros (whole - ds.length) ++ '.' :: (if tail.isEmpty then ['0'] else tail)
  else
    let tail := ds.drop 1
    let point :=
      if tail.isEmpty then (if s.pointBeforeExponent then ['.', '0'] else []) else '.' :: tail
    ds.take 1 ++ point ++ exponentText s p

end Decimal

/-- The text of a value whose digits have been chosen. -/
def Binary64.text (s : Decimal.Style) (digits : Binary64 → Decimal) (x : Binary64) : String :=
  let sign := if x.isNegative then ['-'] else []
  match x with
  | .infinite _ => String.ofList (sign ++ ['i', 'n', 'f'])
  | .finite .. => String.ofList (sign ++ (digits x).chars s)

end DualWrite
