import DualWrite.Error
import DualWrite.Event.Basic
import DualWrite.Json.Record

/-!
# Events on the wire

An event is written as an object with three members in a fixed order. It is read from an object
with those members in any order among others, or from a list of the three values.
-/
namespace DualWrite.Event

def hexDigit (n : Nat) : Char := (Nat.toDigits 16 n).headD '0'

/-- A character inside a written text. -/
def escape (c : Char) : List Char :=
  if c = '"' then ['\\', '"']
  else if c = '\\' then ['\\', '\\']
  else if c = '\x08' then ['\\', 'b']
  else if c = '\x0c' then ['\\', 'f']
  else if c = '\n' then ['\\', 'n']
  else if c = '\r' then ['\\', 'r']
  else if c = '\t' then ['\\', 't']
  else if c.toNat < 0x20 then
    ['\\', 'u', '0', '0', hexDigit (c.toNat / 16), hexDigit (c.toNat % 16)]
  else [c]

def quote (s : String) : List Char := '"' :: s.toList.flatMap escape ++ ['"']

/-- The written form of an event. -/
def chars (e : Event) : List Char :=
  "\x7b\"ID\":".toList ++ (toString e.id).toList ++ ",\"Direction\":".toList ++ quote e.direction
    ++ ",\"Type\":".toList ++ quote e.kind.name ++ ['\x7d']

def encode (e : Event) : List UInt8 := Text.Utf8.encode e.chars

/-- The value of one member. -/
inductive Part where
  | id (n : Int)
  | direction (s : String)
  | kind (k : Kind)
deriving Repr, DecidableEq

def read {α β : Type} (r : Json.Reader α) (f : α → β) : Json.Reader β := fun s =>
  (r s).map fun (a, rest) => (f a, rest)

def fields : List (Json.Field Part) :=
  [⟨"ID", read Json.integer .id⟩,
   ⟨"Direction", read Json.string .direction⟩,
   ⟨"Type", read (Json.kind (Kind.all.map fun k => (k.name, k))) .kind⟩]

/-- The event of three parts, whatever their order. -/
def ofParts (ps : List (String × Part)) : Event :=
  { id := match ps.lookup "ID" with | some (.id n) => n | _ => 0
    direction := match ps.lookup "Direction" with | some (.direction s) => s | _ => ""
    kind := match ps.lookup "Type" with | some (.kind k) => k | _ => .unequal }

def reader : Json.Reader Event := read (Json.record "struct InconsistentEvent" fields) ofParts

def decode (payload : List UInt8) : Except Error Event :=
  (Json.document reader payload).mapError .json

end DualWrite.Event
