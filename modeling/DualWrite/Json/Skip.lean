import DualWrite.Json.Text

/-!
# Values that nobody reads

`skip` passes over one value of any depth, octet by octet, with the open brackets on a stack. It
asks only for the shape of tokens: texts need not be readable, numbers may have any size.
-/
namespace DualWrite.Json

inductive Bracket where
  | list
  | object
deriving Repr, DecidableEq

/-- What the next octet belongs to; `isKey` marks the texts that are keys. -/
inductive Mode where
  | value
  | word (rest : Octets)
  | sign
  | zero
  | digits
  | point
  | fraction
  | mark
  | exponentSign
  | exponent
  | text (isKey : Bool)
  | escape (isKey : Bool)
  | hex (isKey : Bool) (due : Nat) (good : Bool)
  | opened
  | closed
  | key
  | colon
deriving Repr, DecidableEq

/-- What an octet does: it is taken, or it ends the value, or the value has ended before it. -/
inductive Move where
  | go (mode : Mode) (stack : List Bracket)
  | finish
  | finishBefore
  | refuse (cause : Cause)
  | refuseBefore (cause : Cause)
deriving Repr, DecidableEq

def complete : List Bracket → Move
  | [] => .finish
  | stack => .go .closed stack

def ontoValue (stack : List Bracket) (b : UInt8) : Move :=
  if isBlank b then .go .value stack
  else if b = 0x22 then .go (.text false) stack
  else if b = 0x5B then .go .opened (.list :: stack)
  else if b = 0x7B then .go .opened (.object :: stack)
  else if b = 0x2D then .go .sign stack
  else if b = 0x30 then .go .zero stack
  else if isDigit b then .go .digits stack
  else if b = 0x6E then .go (.word [0x75, 0x6C, 0x6C]) stack
  else if b = 0x74 then .go (.word [0x72, 0x75, 0x65]) stack
  else if b = 0x66 then .go (.word [0x61, 0x6C, 0x73, 0x65]) stack
  else .refuse .noValue

def ontoKey (stack : List Bracket) (b : UInt8) : Move :=
  if isBlank b then .go .key stack
  else if b = 0x22 then .go (.text true) stack
  else .refuse .keyNotText

def ontoOpened : List Bracket → UInt8 → Move
  | [], _ => .finishBefore
  | .list :: stack, b =>
    if isBlank b then .go .opened (.list :: stack)
    else if b = 0x5D then complete stack
    else ontoValue (.list :: stack) b
  | .object :: stack, b =>
    if isBlank b then .go .opened (.object :: stack)
    else if b = 0x7D then complete stack
    else ontoKey (.object :: stack) b

def ontoClosed : List Bracket → UInt8 → Move
  | [], _ => .finishBefore
  | .list :: stack, b =>
    if isBlank b then .go .closed (.list :: stack)
    else if b = 0x2C then .go .value (.list :: stack)
    else if b = 0x5D then complete stack
    else .refuse .noCommaInList
  | .object :: stack, b =>
    if isBlank b then .go .closed (.object :: stack)
    else if b = 0x2C then .go .key (.object :: stack)
    else if b = 0x7D then complete stack
    else .refuse .noCommaInObject

def isExponent (b : UInt8) : Bool := b == 0x65 || b == 0x45

def onto (mode : Mode) (stack : List Bracket) (b : UInt8) : Move :=
  match mode with
  | .value => ontoValue stack b
  | .word [] => ontoClosed stack b
  | .word (w :: ws) =>
    if b ≠ w then .refuse .noWord
    else if ws = [] then complete stack
    else .go (.word ws) stack
  | .sign =>
    if b = 0x30 then .go .zero stack
    else if isDigit b then .go .digits stack
    else .refuse .badNumber
  | .zero =>
    if isDigit b then .refuse .badNumber
    else if b = 0x2E then .go .point stack
    else if isExponent b then .go .mark stack
    else ontoClosed stack b
  | .digits =>
    if isDigit b then .go .digits stack
    else if b = 0x2E then .go .point stack
    else if isExponent b then .go .mark stack
    else ontoClosed stack b
  | .point => if isDigit b then .go .fraction stack else .refuse .badNumber
  | .fraction =>
    if isDigit b then .go .fraction stack
    else if isExponent b then .go .mark stack
    else ontoClosed stack b
  | .mark =>
    if b = 0x2B || b = 0x2D then .go .exponentSign stack
    else if isDigit b then .go .exponent stack
    else .refuse .badNumber
  | .exponentSign => if isDigit b then .go .exponent stack else .refuse .badNumber
  | .exponent => if isDigit b then .go .exponent stack else ontoClosed stack b
  | .text isKey =>
    if b = 0x22 then (if isKey then .go .colon stack else complete stack)
    else if b = 0x5C then .go (.escape isKey) stack
    else if b < 0x20 then .refuseBefore .controlCharacter
    else .go (.text isKey) stack
  | .escape isKey =>
    if b = 0x75 then .go (.hex isKey 4 true) stack
    else if (shortEscape b).isSome then .go (.text isKey) stack
    else .refuse .badEscape
  | .hex isKey due good =>
    let good := good && (hexDigit b).isSome
    if 1 < due then .go (.hex isKey (due - 1) good) stack
    else if good then .go (.text isKey) stack
    else .refuse .badEscape
  | .opened => ontoOpened stack b
  | .closed => ontoClosed stack b
  | .key => ontoKey stack b
  | .colon =>
    if isBlank b then .go .colon stack
    else if b = 0x3A then .go .value stack
    else .refuse .noColon

/-- What the end of the document is in a mode; `none` where it ends a number. -/
def endCause (mode : Mode) (stack : List Bracket) : Option Cause :=
  match mode, stack with
  | .value, _ | .word _, _ => some .endInValue
  | .sign, _ | .point, _ | .mark, _ | .exponentSign, _ => some .badNumber
  | .text _, _ | .escape _, _ | .hex .., _ => some .endInText
  | .key, _ | .colon, _ => some .endInObject
  | _, .list :: _ => some .endInList
  | _, .object :: _ => some .endInObject
  | _, [] => none

def skipFrom (mode : Mode) (stack : List Bracket) : Octets → Except Fault Octets
  | [] =>
    match endCause mode stack with
    | some c => .error (faultAt c [])
    | none => .ok []
  | b :: r =>
    match onto mode stack b with
    | .go mode stack => skipFrom mode stack r
    | .finish => .ok r
    | .finishBefore => .ok (b :: r)
    | .refuse c => .error (faultAt c r)
    | .refuseBefore c => .error (faultAt c (b :: r))

/-- Passes over one value. -/
def skip (s : Octets) : Except Fault Octets := skipFrom .value [] s

end DualWrite.Json
