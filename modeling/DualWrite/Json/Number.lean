import DualWrite.Json.Reader

/-!
# Numbers in JSON documents

A number without point and exponent that fits sixty-four bits is whole. Any other is a real: its
significand takes leading digits while they fit sixty-four bits, and is then scaled by rounded
powers of ten.
-/
namespace DualWrite.Json

inductive Number where
  | natural (n : Nat)
  | negative (n : Int)
  | real (x : Binary64)
deriving Repr, DecidableEq

def Number.found : Number → Found
  | .natural n => .integer n
  | .negative n => .integer n
  | .real x => .real x

def wordLimit : Nat := Nat.pow 2 64

def powerOfTen (n : Nat) : Binary64 := Binary64.ofDecimal false 1 n

/-- Scales by a power of ten, at most `10^308` at a time; `none` if the result is out of range. -/
def scaled : Nat → Binary64 → Int → Option Binary64
  | 0, x, _ => some x
  | fuel + 1, x, e =>
    if e.natAbs ≤ 308 then
      if 0 ≤ e then
        match x.mul (powerOfTen e.natAbs) with
        | .infinite _ => none
        | y => some y
      else some (x.div (powerOfTen e.natAbs))
    else if x.toRatio.any (·.1 = 0) then some x
    else if 0 ≤ e then none
    else scaled fuel (x.div (powerOfTen 308)) (e + 308)

/-- After four steps down nothing is left to scale. -/
def real (positive : Bool) (significand : Nat) (exponent : Int) (rest : Octets) :
    Except Fault (Number × Octets) :=
  match scaled 8 (Binary64.ofRatio false significand 1) exponent with
  | none => .error (faultAt .outOfRange rest)
  | some x => .ok (.real (if positive then x else x.negate), rest)

def digitValue (b : UInt8) : Nat := b.toNat - 0x30

/-- Takes digits while the significand fits; counts those taken. -/
def takeDigits : Nat → Nat → Octets → Nat × Nat × Octets
  | n, k, [] => (n, k, [])
  | n, k, b :: r =>
    if isDigit b && n * 10 + digitValue b < wordLimit then
      takeDigits (n * 10 + digitValue b) (k + 1) r
    else (n, k, b :: r)

def isExponentMark (b : UInt8) : Bool := b == 0x65 || b == 0x45

/-- The digits of an exponent; `none` once they exceed thirty-one bits. -/
def exponentDigits : Nat → Octets → Option Nat × Octets
  | n, [] => (some n, [])
  | n, b :: r =>
    if isDigit b then
      if n * 10 + digitValue b < Nat.pow 2 31 then exponentDigits (n * 10 + digitValue b) r
      else (none, r)
    else (some n, b :: r)

/-- The exponent behind its mark. -/
def exponent (positive : Bool) (significand : Nat) (start : Int) : Reader Number := fun s =>
  let (up, s) := match s with
    | b :: r => if b == 0x2B then (true, r) else if b == 0x2D then (false, r) else (true, s)
    | [] => (true, s)
  match s with
  | [] => .error (faultAt .endInValue [])
  | b :: r =>
    if !isDigit b then .error (faultAt .badNumber r)
    else match exponentDigits (digitValue b) r with
      | (some e, rest) => real positive significand (if up then start + e else start - e) rest
      | (none, rest) =>
        if significand ≠ 0 && up then .error (faultAt .outOfRange rest)
        else .ok (.real (Binary64.zero (!positive)), rest.dropWhile isDigit)

def afterDigits (positive : Bool) (significand : Nat) (start : Int) : Reader Number := fun s =>
  match s with
  | b :: r => if isExponentMark b then exponent positive significand start r
    else real positive significand start s
  | [] => real positive significand start []

/-- The digits behind the point. -/
def fraction (positive : Bool) (significand : Nat) (start : Int) : Reader Number := fun s =>
  let (n, k, rest) := takeDigits significand 0 s
  let start := start - k
  match rest with
  | b :: _ =>
    if isDigit b then afterDigits positive n start (rest.dropWhile isDigit)
    else if k = 0 then .error (faultNext .badNumber rest)
    else afterDigits positive n start rest
  | [] => if k = 0 then .error (faultNext .endInValue rest) else afterDigits positive n start rest

/-- A significand that has outgrown its word: further digits only raise the exponent. -/
def longNumber (positive : Bool) (significand : Nat) : Reader Number := fun s =>
  let raised : Int := (s.takeWhile isDigit).length
  match s.dropWhile isDigit with
  | b :: r =>
    if b == 0x2E then fraction positive significand raised r
    else afterDigits positive significand raised (b :: r)
  | [] => afterDigits positive significand raised []

def whole (positive : Bool) (n : Nat) : Number :=
  if positive then .natural n
  else if n = 0 || Nat.pow 2 63 < n then .real (Binary64.ofRatio true n 1)
  else .negative (-(n : Int))

def afterWhole (positive : Bool) (n : Nat) : Reader Number := fun s =>
  match s with
  | b :: r =>
    if b == 0x2E then fraction positive n 0 r
    else if isExponentMark b then exponent positive n 0 r
    else if isDigit b then longNumber positive n s
    else .ok (whole positive n, s)
  | [] => .ok (whole positive n, [])

/-- A number whose sign has been read. -/
def unsigned (positive : Bool) : Reader Number := fun s =>
  match s with
  | [] => .error (faultAt .endInValue [])
  | b :: r =>
    if b == 0x30 then
      match r with
      | c :: _ => if isDigit c then .error (faultNext .badNumber r) else afterWhole positive 0 r
      | [] => afterWhole positive 0 []
    else if isDigit b then
      let (n, _, rest) := takeDigits 0 0 s
      afterWhole positive n rest
    else .error (faultAt .badNumber r)

/-- A number at its first octet, which is a sign or a digit. -/
def number : Reader Number
  | [] => .error (faultAt .endInValue [])
  | b :: r => if b == 0x2D then unsigned false r else unsigned true (b :: r)

end DualWrite.Json
