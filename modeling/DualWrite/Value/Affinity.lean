import DualWrite.Text.Basic
import DualWrite.Value.Basic

/-!
# Column affinities

A column of whole numbers turns whatever reads as a number into one, and into a whole number where
that loses nothing. A text column turns numbers into text. Other columns keep what they are given.
-/
namespace DualWrite

inductive Affinity where
  | integer
  | text
  | none
deriving Repr, DecidableEq

namespace Value

def isSpace (c : Char) : Bool :=
  c = ' ' || c = '\t' || c = '\n' || c = '\x0b' || c = '\x0c' || c = '\r'

/-- A number at the head of a text. -/
structure Numeral where
  negative : Bool
  /-- Digits before the point. -/
  whole : List Char
  /-- Digits behind the point, if there is one. -/
  fraction : Option (List Char)
  /-- The exponent, if its mark is there; nothing stands for a mark without digits. -/
  exponent : Option (Option Int)
  rest : List Char
deriving Repr

def takeSign : List Char → Bool × List Char
  | '-' :: r => (true, r)
  | '+' :: r => (false, r)
  | r => (false, r)

def takeFraction : List Char → Option (List Char) × List Char
  | '.' :: r => (some (r.takeWhile Char.isDigit), r.dropWhile Char.isDigit)
  | r => (none, r)

def takeExponent : List Char → Option (Option Int) × List Char
  | [] => (none, [])
  | c :: r =>
    if c = 'e' || c = 'E' then
      let (negative, r) := takeSign r
      let ds := r.takeWhile Char.isDigit
      let n : Int := Text.digitsValue 10 ds
      (some (if ds.isEmpty then none else some (if negative then -n else n)),
        r.dropWhile Char.isDigit)
    else (none, c :: r)

def numeral (cs : List Char) : Numeral :=
  let (negative, cs) := takeSign (cs.dropWhile isSpace)
  let whole := cs.takeWhile Char.isDigit
  let (fraction, cs) := takeFraction (cs.dropWhile Char.isDigit)
  let (exponent, cs) := takeExponent cs
  ⟨negative, whole, fraction, exponent, cs.dropWhile isSpace⟩

namespace Numeral

def hasDigits (n : Numeral) : Bool := !n.whole.isEmpty || n.fraction.any (!·.isEmpty)

/-- The whole text is a number. -/
def isComplete (n : Numeral) : Bool := n.rest.isEmpty && n.hasDigits && n.exponent != some none

def isWhole (n : Numeral) : Bool := n.fraction.isNone && n.exponent.isNone

def toReal (n : Numeral) : Binary64 :=
  let tail := n.fraction.getD []
  let e : Int := (n.exponent.getD none).getD 0
  Binary64.ofDecimal n.negative (Text.digitsValue 10 (n.whole ++ tail)) (e - tail.length)

def toInt (n : Numeral) : Int :=
  let m : Int := Text.digitsValue 10 n.whole
  if n.negative then -m else m

/-- The digits before the point where they fit, else the real. -/
def toNumber (n : Numeral) : Value := if fits n.toInt then .int n.toInt else .real n.toReal

end Numeral

/-- A real becomes the whole number that it is, the two ends of the range excepted. -/
def tighten (x : Binary64) : Value :=
  match x.toInt? with
  | some n => if minInt < n && n < maxInt then .int n else .real x
  | none => .real x

/-- The number that a text is, if it is nothing else. -/
def ofNumericText (s : String) : Option Value :=
  let n := numeral s.toList
  if !n.isComplete then none
  else if n.isWhole && fits n.toInt then some (.int n.toInt)
  else some (tighten n.toReal)

/-- Reals in text columns: fifteen digits, positional for leading places from -4 to 14. -/
def columnStyle : Decimal.Style := ⟨-4, 14, true, true, 2⟩

def columnText (x : Binary64) : String :=
  match x with
  | .infinite s => if s then "-Inf" else "Inf"
  | .finite _ 0 _ => "0.0"
  | x => x.text columnStyle (Decimal.rounded 15)

/-- The value as a column of this affinity keeps it. -/
def store : Affinity → Value → Value
  | .integer, .real x => tighten x
  | .integer, .text s => (ofNumericText s).getD (.text s)
  | .text, .int n => .text (toString n)
  | .text, .real x => .text (columnText x)
  | _, v => v

/-- The value as a comparison with a column of this affinity sees it. -/
def facing : Affinity → Value → Value
  | .integer, .text s => (ofNumericText s).getD (.text s)
  | .text, .int n => .text (toString n)
  | .text, .real x => .text (columnText x)
  | _, v => v

/-- The number that arithmetic takes a value for; of a text, the number at its head. -/
def arithmetic : Value → Value
  | .text s => headNumber s.toList
  | .blob b => headNumber (b.map fun o => Char.ofNat o.toNat)
  | v => v
where
  headNumber (cs : List Char) : Value :=
    let n := numeral cs
    if n.isComplete then (if n.isWhole then n.toNumber else .real n.toReal)
    else if n.hasDigits && !n.isWhole
        && ((n.fraction.isSome && n.exponent.isSome) || n.exponent != some none) then
      .real n.toReal
    else n.toNumber

/-- One more; a whole number that would leave its range goes on as a real. -/
def increment (v : Value) : Value :=
  match v.arithmetic with
  | .int n =>
    if fits (n + 1) then .int (n + 1) else .real ((Binary64.ofInt n).add (Binary64.ofInt 1))
  | .real x => .real (x.add (Binary64.ofInt 1))
  | _ => .null

end Value

end DualWrite
