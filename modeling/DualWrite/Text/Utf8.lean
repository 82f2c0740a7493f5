/-!
# Octets and characters

`units` cuts a list of octets into characters and, where the octets are no text, into the
longest pieces that could have begun a character. Strict reading, lenient reading and the
length of the readable part are three views of that one cut.
-/
namespace DualWrite.Text.Utf8

/-- The octets of a text. -/
def encode (cs : List Char) : List UInt8 := cs.flatMap String.utf8EncodeChar

def isTail (b : UInt8) : Bool := 0x80 ≤ b && b ≤ 0xBF

/-- How many tails a leading octet owes, and the range of the first of them. -/
def owed (a : UInt8) : Option (Nat × UInt8 × UInt8) :=
  if 0xC2 ≤ a && a ≤ 0xDF then some (1, 0x80, 0xBF)
  else if a == 0xE0 then some (2, 0xA0, 0xBF)
  else if a == 0xED then some (2, 0x80, 0x9F)
  else if 0xE1 ≤ a && a ≤ 0xEF then some (2, 0x80, 0xBF)
  else if a == 0xF0 then some (3, 0x90, 0xBF)
  else if 0xF1 ≤ a && a ≤ 0xF3 then some (3, 0x80, 0xBF)
  else if a == 0xF4 then some (3, 0x80, 0x8F)
  else none

def low (b : UInt8) : Nat := b.toNat % 64

/-- One piece of a cut: the character read, if any, and how many octets it covers. -/
structure Piece where
  char? : Option Char
  width : Nat
deriving Repr, DecidableEq

def units : List UInt8 → List Piece
  | [] => []
  | a :: r =>
    if a < 0x80 then ⟨some (Char.ofNat a.toNat), 1⟩ :: units r
    else match owed a, r with
      | none, r => ⟨none, 1⟩ :: units r
      | some _, [] => [⟨none, 1⟩]
      | some (n, lo, hi), b :: r1 =>
        if lo ≤ b && b ≤ hi then
          if n = 1 then ⟨some (Char.ofNat (a.toNat % 32 * 64 + low b)), 2⟩ :: units r1
          else match r1 with
            | [] => [⟨none, 2⟩]
            | c :: r2 =>
              if isTail c then
                if n = 2 then
                  ⟨some (Char.ofNat ((a.toNat % 16 * 64 + low b) * 64 + low c)), 3⟩ :: units r2
                else match r2 with
                  | [] => [⟨none, 3⟩]
                  | d :: r3 =>
                    if isTail d then
                      ⟨some (Char.ofNat (((a.toNat % 8 * 64 + low b) * 64 + low c) * 64 + low d)),
                        4⟩
                        :: units r3
                    else ⟨none, 3⟩ :: units (d :: r3)
              else ⟨none, 2⟩ :: units (c :: r2)
        else ⟨none, 1⟩ :: units (b :: r1)

/-- The text of octets that are one. -/
def decode (bytes : List UInt8) : Option (List Char) := (units bytes).mapM Piece.char?

/-- Each piece that is no character reads as the replacement character. -/
def lenient (bytes : List UInt8) : List Char :=
  (units bytes).map fun p => p.char?.getD '\uFFFD'

/-- How many octets stand before the first piece that is no character. -/
def readable (bytes : List UInt8) : Nat :=
  ((units bytes).takeWhile (·.char?.isSome)).foldl (fun n p => n + p.width) 0

def ofString (s : String) : List UInt8 := encode s.toList

def toString? (bytes : List UInt8) : Option String := (decode bytes).map String.ofList

@[simp] theorem encode_nil : encode [] = [] := rfl

@[simp] theorem encode_cons (c : Char) (cs : List Char) :
    encode (c :: cs) = String.utf8EncodeChar c ++ encode cs := rfl

@[simp] theorem encode_append (a b : List Char) : encode (a ++ b) = encode a ++ encode b := by
  simp [encode]

end DualWrite.Text.Utf8
