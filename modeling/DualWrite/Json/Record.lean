import DualWrite.Json.Number
import DualWrite.Json.Skip

/-!
# Records in JSON documents

A record is an object with known keys, in any order and among unknown ones, or a list of its
values in order. A key may stand once. One kind out of several is a text, or an object whose only
key is that text and whose value is null.
-/
namespace DualWrite.Json

/-- The fault of a value of another type than the wanted one. -/
def refuseType {α : Type} (wanted : String) : Reader α := fun s =>
  let found (f : Found) (rest : Octets) := .error (faultAt (.wrongType f wanted) rest)
  match s with
  | [] => .error (faultNext .noValue [])
  | b :: r =>
    if b = 0x6E then
      match word [0x75, 0x6C, 0x6C] r with
      | .ok (_, rest) => found .null rest
      | .error f => .error f
    else if b = 0x74 then
      match word [0x72, 0x75, 0x65] r with
      | .ok (_, rest) => found (.boolean true) rest
      | .error f => .error f
    else if b = 0x66 then
      match word [0x61, 0x6C, 0x73, 0x65] r with
      | .ok (_, rest) => found (.boolean false) rest
      | .error f => .error f
    else if b = 0x2D || isDigit b then
      match number s with
      | .ok (n, rest) => found n.found rest
      | .error f => .error f
    else if b = 0x22 then
      match text r with
      | .ok (t, rest) => found (.text t) rest
      | .error f => .error f
    else if b = 0x5B then found .list s
    else if b = 0x7B then found .object s
    else .error (faultNext .noValue s)

/-- A whole number of sixty-four bits with a sign. -/
def integer : Reader Int := fun s =>
  match skipBlanks s with
  | [] => .error (faultNext .endInValue [])
  | b :: r =>
    if b = 0x2D || isDigit b then
      match number (b :: r) with
      | .error f => .error f
      | .ok (.natural n, rest) =>
        if n < Nat.pow 2 63 then .ok (n, rest) else .error (faultAt (.wrongValue n "i64") rest)
      | .ok (.negative n, rest) => .ok (n, rest)
      | .ok (.real x, rest) => .error (faultAt (.wrongType (.real x) "i64") rest)
    else refuseType "i64" (b :: r)

def string : Reader String := fun s =>
  match skipBlanks s with
  | [] => .error (faultNext .endInValue [])
  | b :: r => if b = 0x22 then text r else refuseType "a string" (b :: r)

def null (wanted : String) : Reader Unit := fun s =>
  match skipBlanks s with
  | [] => .error (faultNext .endInValue [])
  | b :: r => if b = 0x6E then word [0x75, 0x6C, 0x6C] r else refuseType wanted (b :: r)

/-- The kind that a text names. -/
def named {α : Type} (kinds : List (String × α)) : Reader α := fun s =>
  match text s with
  | .error f => .error f
  | .ok (t, rest) =>
    match kinds.lookup t with
    | some k => .ok (k, rest)
    | none => .error (faultAt (.unknownVariant t (kinds.map (·.1))) rest)

/-- One of several kinds. -/
def kind {α : Type} (kinds : List (String × α)) : Reader α := fun s =>
  match skipBlanks s with
  | [] => .error (faultNext .endInValue [])
  | b :: r =>
    if b = 0x22 then named kinds r
    else if b ≠ 0x7B then .error (faultNext .noValue (b :: r))
    else match skipBlanks r with
      | [] => .error (faultNext .endInValue [])
      | b :: r =>
        if b = 0x7D then .error (faultNext .noValue (b :: r))
        else if b ≠ 0x22 then .error (faultNext .keyNotText (b :: r))
        else match named kinds r with
          | .error f => .error f
          | .ok (k, r) =>
            match colon r with
            | .error f => .error f
            | .ok (_, r) =>
              match null "unit" r with
              | .error f => .error f
              | .ok (_, r) =>
                match skipBlanks r with
                | [] => .error (faultAt .endInObject [])
                | b :: r => if b = 0x7D then .ok (k, r) else .error (faultAt .noValue (b :: r))

/-- A field of a record: its key and the reader of its value. -/
structure Field (V : Type) where
  key : String
  read : Reader V

/-- The end of a bracket, if nothing but blanks stands before it. -/
def pastEnd (close : UInt8) (s : Octets) : Octets :=
  match skipBlanks s with
  | [] => []
  | b :: r => if b = close then r else b :: r

/-- Whether an object goes on with a key, whose opening quote is then read, or has ended. -/
def toKey (first : Bool) (s : Octets) : Except Fault (Bool × Octets) :=
  match skipBlanks s with
  | [] => .error (faultNext .endInObject [])
  | b :: r =>
    if b = 0x7D then .ok (false, r)
    else if first then
      if b = 0x22 then .ok (true, r) else .error (faultNext .keyNotText (b :: r))
    else if b ≠ 0x2C then .error (faultNext .noCommaInObject (b :: r))
    else match skipBlanks r with
      | [] => .error (faultNext .endInValue [])
      | b :: r =>
        if b = 0x22 then .ok (true, r)
        else if b = 0x7D then .error (faultNext .trailingComma (b :: r))
        else .error (faultNext .keyNotText (b :: r))

/-- What stands behind a key: the value of a field, or a value to pass over. -/
def member {V : Type} (field : Option (Field V)) (key : String) : Reader (Option (String × V)) :=
  within (.key key) fun s =>
    match colon s with
    | .error f => .error f
    | .ok (_, s) =>
      match field with
      | none =>
        match skip s with
        | .error f => .error f
        | .ok rest => .ok (none, rest)
      | some field =>
        match field.read s with
        | .error f => .error f
        | .ok (v, rest) => .ok (some (field.key, v), rest)

/-- The members of an object up to its end, the values of known keys with their keys. -/
def members {V : Type} (fields : List (Field V)) (seen : List (String × V)) (first : Bool)
    (s : Octets) : Except Fault (List (String × V) × Octets) :=
  match toKey first s with
  | .error f => .error f
  | .ok (false, rest) => .ok (seen, rest)
  | .ok (true, r) =>
    match text r with
    | .error f => .error f
    | .ok (key, rest) =>
      if (seen.lookup key).isSome then .error (faultAt (.duplicateField key) (pastEnd 0x7D rest))
      else match member (fields.find? (·.key = key)) key rest with
        | .error f => .error f
        | .ok (m, rest) =>
          if rest.length < s.length then members fields (seen ++ m.toList) false rest
          else .error (faultAt .endInObject rest)
termination_by s.length

/-- Whether a list goes on with a value or has ended, `k` values having been read. -/
def toElement (k : Nat) (s : Octets) : Except Fault (Bool × Octets) :=
  match skipBlanks s with
  | [] => .error (faultNext .endInList [])
  | b :: r =>
    if b = 0x5D then .ok (false, r)
    else if k = 0 then .ok (true, b :: r)
    else if b ≠ 0x2C then .error (faultNext .noCommaInList (b :: r))
    else match skipBlanks r with
      | [] => .error (faultNext .endInValue [])
      | b :: r => if b = 0x5D then .error (faultNext .trailingComma (b :: r))
        else .ok (true, b :: r)

/-- The end of a list that holds no further value. -/
def listEnd (s : Octets) : Except Fault Octets :=
  match skipBlanks s with
  | [] => .error (faultNext .endInList [])
  | b :: r =>
    if b = 0x5D then .ok r
    else if b ≠ 0x2C then .error (faultNext .trailingCharacters (b :: r))
    else match skipBlanks r with
      | [] => .error (faultNext .trailingCharacters [])
      | b :: r =>
        .error (faultNext (if b = 0x5D then .trailingComma else .trailingCharacters) (b :: r))

/-- The values of a list, one for each field. -/
def elements {V : Type} (wanted : String) : List (Field V) → Nat → Octets →
    Except Fault (List (String × V) × Octets)
  | [], _, s =>
    match listEnd s with
    | .error f => .error f
    | .ok rest => .ok ([], rest)
  | field :: more, k, s =>
    match toElement k s with
    | .error f => .error f
    | .ok (false, rest) => .error (faultAt (.wrongLength k wanted) rest)
    | .ok (true, s) =>
      match within (.index k) field.read s with
      | .error f => .error f
      | .ok (v, rest) =>
        match elements wanted more (k + 1) rest with
        | .error f => .error f
        | .ok (vs, rest) => .ok ((field.key, v) :: vs, rest)

/-- The values of all fields of a record that the messages call by `name`. -/
def record {V : Type} (name : String) (fields : List (Field V)) : Reader (List (String × V)) :=
  fun s =>
    match skipBlanks s with
    | [] => .error (faultNext .endInValue [])
    | b :: r =>
      if b = 0x7B then
        match members fields [] true r with
        | .error f => .error f
        | .ok (vs, rest) =>
          match fields.find? fun f => (vs.lookup f.key).isNone with
          | some f => .error (faultAt (.missingField f.key) rest)
          | none => .ok (vs, rest)
      else if b = 0x5B then
        elements (name ++ " with " ++ toString fields.length ++ " elements") fields 0 r
      else refuseType name (b :: r)

end DualWrite.Json
