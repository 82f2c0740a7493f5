import DualWrite.Json.Fault
import DualWrite.Text.Utf8

/-!
# Reading JSON from octets

A reader takes the octets that are left and returns a value with the octets that are then left.
Blanks between tokens are the space, the tab and the two line ends.
-/
namespace DualWrite.Json

abbrev Octets := List UInt8

abbrev Reader (α : Type) := Octets → Except Fault (α × Octets)

def isBlank (b : UInt8) : Bool := b == 0x20 || b == 0x0A || b == 0x09 || b == 0x0D

def isDigit (b : UInt8) : Bool := 0x30 ≤ b && b ≤ 0x39

def skipBlanks (s : Octets) : Octets := s.dropWhile isBlank

/-- A fault behind the octets read so far. -/
def faultAt (cause : Cause) (rest : Octets) : Fault := ⟨cause, rest.length, []⟩

/-- A fault at the next octet; at the end of the document, there. -/
def faultNext (cause : Cause) (rest : Octets) : Fault := ⟨cause, rest.length - 1, []⟩

/-- The remaining octets of a word such as `null`. -/
def word : Octets → Reader Unit
  | [], s => .ok ((), s)
  | _ :: _, [] => .error (faultAt .endInValue [])
  | w :: ws, b :: r => if b = w then word ws r else .error (faultAt .noWord r)

/-- The colon between a key and its value. -/
def colon : Reader Unit := fun s =>
  match skipBlanks s with
  | [] => .error (faultNext .endInObject [])
  | b :: r => if b = 0x3A then .ok ((), r) else .error (faultNext .noColon (b :: r))

/-- Nothing but blanks may follow the value of a document. -/
def atEnd (s : Octets) : Except Fault Unit :=
  match skipBlanks s with
  | [] => .ok ()
  | r => .error (faultNext .trailingCharacters r)

/-- Reads a whole document. -/
def document {α : Type} (read : Reader α) (text : Octets) : Except Error α :=
  match read text with
  | .error f => .error (f.locate text)
  | .ok (a, rest) =>
    match atEnd rest with
    | .error f => .error (f.locate text)
    | .ok () => .ok a

/-- A fault inside a part of a value is found by one more step. -/
def within {α : Type} (step : Step) (read : Reader α) : Reader α := fun s =>
  match read s with
  | .error f => .error { f with path := step :: f.path }
  | .ok r => .ok r

end DualWrite.Json
