/-!
# Binary floating point as exact numbers

A finite value is a sign, a significand below `2^53` and a power of two. Every operation computes
the exact quotient of two natural numbers and rounds it once, to the nearest value and to the
even one of two nearest. There is no value for an undefined result.
-/
namespace DualWrite

inductive Binary64 where
  | finite (negative : Bool) (significand : Nat) (power : Int)
  | infinite (negative : Bool)
deriving Repr, DecidableEq

namespace Binary64

/-- The quotient rounded to the nearest whole number, a half to the even one. -/
def roundHalfEven (num den : Nat) : Nat :=
  let q := num / den
  let r := 2 * (num % den)
  if r < den then q else if den < r then q + 1 else q + q % 2

/-- The quotient divided by a power of two. -/
def overPower (num den : Nat) (p : Int) : Nat × Nat :=
  if 0 ≤ p then (num, den * Nat.pow 2 p.toNat) else (num * Nat.pow 2 (-p).toNat, den)

/-- The power of two at which the quotient has fifty-three binary places, or the least one. -/
def powerOf (num den : Nat) : Int :=
  let guess : Int := (num.log2 : Int) - den.log2 - 53
  let p := if let (n, d) := overPower num den guess; n / d < Nat.pow 2 53 then guess else guess + 1
  max p (-1074)

def zero (negative : Bool) : Binary64 := .finite negative 0 (-1074)

def ofRatio (negative : Bool) (num den : Nat) : Binary64 :=
  if num = 0 then zero negative
  else
    let p := powerOf num den
    let (n, d) := overPower num den p
    let m := roundHalfEven n d
    let (m, p) := if m = Nat.pow 2 53 then (Nat.pow 2 52, p + 1) else (m, p)
    if 971 < p then .infinite negative else .finite negative m p

/-- The value nearest to a signed quotient; an exact zero is positive. -/
def ofSigned (num : Int) (den : Nat) : Binary64 := ofRatio (num < 0) num.natAbs den

def ofInt (n : Int) : Binary64 := ofSigned n 1

/-- `digits · 10^exponent`, rounded. Exponents far outside the range are cut short. -/
def ofDecimal (negative : Bool) (digits : Nat) (exponent : Int) : Binary64 :=
  if digits = 0 then zero negative
  else if 0 ≤ exponent then
    if 400 < exponent then .infinite negative
    else ofRatio negative (digits * Nat.pow 10 exponent.toNat) 1
  else if exponent < -(400 + digits.log2 : Int) then zero negative
  else ofRatio negative digits (Nat.pow 10 (-exponent).toNat)

def isNegative : Binary64 → Bool
  | .finite s _ _ => s
  | .infinite s => s

/-- The exact value as a signed numerator over a denominator. -/
def toRatio : Binary64 → Option (Int × Nat)
  | .infinite _ => none
  | .finite s m p =>
    let (n, d) := if 0 ≤ p then (m * Nat.pow 2 p.toNat, 1) else (m, Nat.pow 2 (-p).toNat)
    some (if s then -(n : Int) else n, d)

/-- The whole number that the value is, if it is one. -/
def toInt? (x : Binary64) : Option Int :=
  match x.toRatio with
  | none => none
  | some (n, d) => if n % (d : Int) = 0 then some (n / (d : Int)) else none

/-- Compares an exact quotient with a value. -/
def compareRatio (q : Int × Nat) (y : Binary64) : Ordering :=
  match y, y.toRatio with
  | .infinite s, _ => if s then .gt else .lt
  | _, some (c, d) => Ord.compare (q.1 * d) (c * q.2)
  | _, none => .eq

def compare (x y : Binary64) : Ordering :=
  match x, x.toRatio with
  | .infinite s, _ =>
    match y with
    | .infinite t => Ord.compare (if s then 0 else 1 : Nat) (if t then 0 else 1)
    | _ => if s then .lt else .gt
  | _, some q => compareRatio q y
  | _, none => .eq

def mul (x y : Binary64) : Binary64 :=
  let s := x.isNegative != y.isNegative
  match x.toRatio, y.toRatio with
  | some (a, b), some (c, d) => ofRatio s (a * c).natAbs (b * d)
  | _, _ => .infinite s

def div (x y : Binary64) : Binary64 :=
  let s := x.isNegative != y.isNegative
  match x.toRatio, y.toRatio with
  | some (a, b), some (c, d) =>
    if c = 0 then .infinite s else ofRatio s (a * d).natAbs (b * c.natAbs)
  | none, _ => .infinite s
  | _, none => zero s

def add (x y : Binary64) : Binary64 :=
  match x.toRatio, y.toRatio with
  | some (a, b), some (c, d) =>
    let n := a * d + c * b
    if n = 0 && x.isNegative && y.isNegative then zero true else ofSigned n (b * d)
  | none, _ => x
  | _, none => y

def negate : Binary64 → Binary64
  | .finite s m p => .finite (!s) m p
  | .infinite s => .infinite (!s)

end Binary64

end DualWrite
