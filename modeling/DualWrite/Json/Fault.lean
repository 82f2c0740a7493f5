import DualWrite.Binary64.Decimal
import DualWrite.Text.Quoted

/-!
# Faults of JSON documents

A fault has a cause and the number of octets that lay beyond its place. Line and column follow
from that number and the document.
-/
namespace DualWrite.Json

/-- What a document held where something else was wanted. -/
inductive Found where
  | null
  | boolean (b : Bool)
  | integer (n : Int)
  | real (x : Binary64)
  | text (s : String)
  | list
  | object
deriving Repr, DecidableEq

inductive Cause where
  | endInValue
  | endInText
  | endInList
  | endInObject
  | noValue
  | noWord
  | noColon
  | noCommaInList
  | noCommaInObject
  | keyNotText
  | trailingComma
  | trailingCharacters
  | badNumber
  | outOfRange
  | badEscape
  | escapeEnds
  | loneSurrogate
  | badCodePoint
  | controlCharacter
  | wrongType (found : Found) (wanted : String)
  | wrongValue (n : Nat) (wanted : String)
  | wrongLength (n : Nat) (wanted : String)
  | unknownVariant (name : String) (known : List String)
  | missingField (key : String)
  | duplicateField (key : String)
deriving Repr, DecidableEq

/-- The document is well formed, but its value is not one of the wanted kind. -/
def Cause.isData : Cause → Bool
  | .wrongType .. | .wrongValue .. | .wrongLength .. | .unknownVariant .. | .missingField ..
  | .duplicateField .. => true
  | _ => false

/-- A step from a value to a part of it. -/
inductive Step where
  | key (name : String)
  | index (n : Nat)
deriving Repr, DecidableEq

/-- `left` octets lay beyond the place of the fault, which `path` leads to from the root. -/
structure Fault where
  cause : Cause
  left : Nat
  path : List Step
deriving Repr, DecidableEq

/-- Reals in messages: the fewest digits, positional for leading places from -4 to 15. -/
def realStyle : Decimal.Style := ⟨-4, 15, false, true, 2⟩

def Found.message : Found → String
  | .null => "null"
  | .boolean b => "boolean `" ++ (if b then "true" else "false") ++ "`"
  | .integer n => "integer `" ++ toString n ++ "`"
  | .real x => "floating point `" ++ x.text realStyle Decimal.shortest ++ "`"
  | .text s => "string " ++ Text.quoted s
  | .list => "sequence"
  | .object => "map"

def Cause.message : Cause → String
  | .endInValue => "EOF while parsing a value"
  | .endInText => "EOF while parsing a string"
  | .endInList => "EOF while parsing a list"
  | .endInObject => "EOF while parsing an object"
  | .noValue => "expected value"
  | .noWord => "expected ident"
  | .noColon => "expected `:`"
  | .noCommaInList => "expected `,` or `]`"
  | .noCommaInObject => "expected `,` or `\x7d`"
  | .keyNotText => "key must be a string"
  | .trailingComma => "trailing comma"
  | .trailingCharacters => "trailing characters"
  | .badNumber => "invalid number"
  | .outOfRange => "number out of range"
  | .badEscape => "invalid escape"
  | .escapeEnds => "unexpected end of hex escape"
  | .loneSurrogate => "lone leading surrogate in hex escape"
  | .badCodePoint => "invalid unicode code point"
  | .controlCharacter => "control character (\\u0000-\\u001F) found while parsing a string"
  | .wrongType found wanted => "invalid type: " ++ found.message ++ ", expected " ++ wanted
  | .wrongValue n wanted => "invalid value: integer `" ++ toString n ++ "`, expected " ++ wanted
  | .wrongLength n wanted => "invalid length " ++ toString n ++ ", expected " ++ wanted
  | .unknownVariant name known =>
    "unknown variant `" ++ name ++ "`, expected one of "
      ++ ", ".intercalate (known.map fun k => "`" ++ k ++ "`")
  | .missingField key => "missing field `" ++ key ++ "`"
  | .duplicateField key => "duplicate field `" ++ key ++ "`"

/-- Moves a place, its line and the octets before it there, over one octet. -/
def pass (at' : Nat × Nat) (b : UInt8) : Nat × Nat :=
  if b = 0x0A then (at'.1 + 1, 0) else (at'.1, at'.2 + 1)

/-- Line of the place after these octets, counted from one, and the octets before it there. -/
def lineAndColumn (read : List UInt8) : Nat × Nat := read.foldl pass (1, 0)

/-- A fault with its place in a document. -/
structure Error where
  cause : Cause
  line : Nat
  column : Nat
  path : List Step
deriving Repr, DecidableEq

def Fault.locate (document : List UInt8) (f : Fault) : Error :=
  let (line, column) := lineAndColumn (document.take (document.length - f.left))
  ⟨f.cause, line, column, f.path⟩

def Error.message (e : Error) : String :=
  e.cause.message ++ " at line " ++ toString e.line ++ " column " ++ toString e.column

/-- The path from the root: keys joined by points, indices in brackets. -/
def pathText : List Step → String
  | [] => ""
  | .key k :: [] => k
  | .key k :: .key l :: rest => k ++ "." ++ pathText (.key l :: rest)
  | .key k :: rest => k ++ pathText rest
  | .index n :: .key k :: rest => "[" ++ toString n ++ "]." ++ pathText (.key k :: rest)
  | .index n :: rest => "[" ++ toString n ++ "]" ++ pathText rest

end DualWrite.Json
