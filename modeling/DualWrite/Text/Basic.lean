import DualWrite.Text.Reading

/-!
# Characters and whole numbers

The blanks are the code points of the property `White_Space`. Letter case is that of the twenty-six
basic letters only, so a folded text has as many characters as before. Digits go up to the base
sixteen, in letters of either case. A whole number of the program has sixty-four bits with a sign.
-/
namespace DualWrite

def minInt : Int := -9223372036854775808

def maxInt : Int := 9223372036854775807

def fits (n : Int) : Bool := minInt ≤ n && n ≤ maxInt

namespace Text
open Reading

def isBlank (c : Char) : Bool :=
  let n := c.toNat
  (0x9 ≤ n && n ≤ 0xD) || n == 0x20 || n == 0x85 || n == 0xA0 || n == 0x1680
    || (0x2000 ≤ n && n ≤ 0x200A) || n == 0x2028 || n == 0x2029 || n == 0x202F || n == 0x205F
    || n == 0x3000

/-- The text without the blanks at its two ends. -/
def trim (s : String) : String :=
  String.ofList (((s.toList.dropWhile isBlank).reverse.dropWhile isBlank).reverse)

def upper (s : String) : String := String.ofList (s.toList.map Char.toUpper)

def lower (s : String) : String := String.ofList (s.toList.map Char.toLower)

/-- Names of tables and columns are the same name whatever the case of their letters. -/
def sameName (a b : String) : Bool := lower a == lower b

def isHexDigit (c : Char) : Bool :=
  c.isDigit || ('a' ≤ c && c ≤ 'f') || ('A' ≤ c && c ≤ 'F')

def digitValue (c : Char) : Nat :=
  if c.isDigit then c.toNat - '0'.toNat
  else if 'a' ≤ c then c.toNat - 'a'.toNat + 10
  else c.toNat - 'A'.toNat + 10

/-- The value of digits, the first of them the highest. -/
def digitsValue (base : Nat) (ds : List Char) : Nat :=
  ds.foldl (fun n d => n * base + digitValue d) 0

/-- Whether a minus stands here; either sign is taken. -/
def sign : Reading Bool :=
  (do mark '-'; return true) <|> (do mark '+'; return false) <|> return false

def signed (negative : Bool) (n : Nat) : Int := if negative then -(n : Int) else n

end Text
end DualWrite
