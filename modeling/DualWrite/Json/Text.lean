import DualWrite.Json.Reader

/-!
# Texts in JSON documents

`text` reads what stands between two quotes. Escapes are resolved octet by octet; whether the
octets are text is settled at the closing quote, and a fault then lies at the first octet that is
none.
-/
namespace DualWrite.Json

def hexDigit (b : UInt8) : Option Nat :=
  if isDigit b then some (b.toNat - 0x30)
  else if 0x61 ≤ b && b ≤ 0x66 then some (b.toNat - 0x57)
  else if 0x41 ≤ b && b ≤ 0x46 then some (b.toNat - 0x37)
  else none

def hexValue (a b c d : UInt8) : Option Nat := do
  return (((← hexDigit a) * 16 + (← hexDigit b)) * 16 + (← hexDigit c)) * 16 + (← hexDigit d)

def isLeading (n : Nat) : Bool := 0xD800 ≤ n && n ≤ 0xDBFF

def isTrailing (n : Nat) : Bool := 0xDC00 ≤ n && n ≤ 0xDFFF

def pair (high low : Nat) : Char := Char.ofNat (0x10000 + (high - 0xD800) * 0x400 + (low - 0xDC00))

/-- What a short escape stands for. -/
def shortEscape (b : UInt8) : Option UInt8 :=
  if b == 0x22 || b == 0x5C || b == 0x2F then some b
  else if b == 0x62 then some 0x08
  else if b == 0x66 then some 0x0C
  else if b == 0x6E then some 0x0A
  else if b == 0x72 then some 0x0D
  else if b == 0x74 then some 0x09
  else none

/-- The octets up to the closing quote, escapes resolved. -/
def content : Reader Octets
  | [] => .error (faultAt .endInText [])
  | b :: r =>
    if b = 0x22 then .ok ([], r)
    else if b < 0x20 then .error (faultAt .controlCharacter r)
    else if b ≠ 0x5C then
      match content r with
      | .ok (bs, rest) => .ok (b :: bs, rest)
      | .error f => .error f
    else match r with
      | [] => .error (faultAt .endInText [])
      | e :: r =>
        if e = 0x75 then
          match r with
          | a :: b :: c :: d :: r =>
            match hexValue a b c d with
            | none => .error (faultAt .badEscape r)
            | some n =>
              if isTrailing n then .error (faultAt .loneSurrogate r)
              else if isLeading n then
                match r with
                | [] => .error (faultAt .endInText [])
                | bar :: r =>
                  if bar ≠ 0x5C then .error (faultAt .escapeEnds r)
                  else match r with
                    | [] => .error (faultAt .endInText [])
                    | u :: r =>
                      if u ≠ 0x75 then .error (faultAt .escapeEnds r)
                      else match r with
                        | a :: b :: c :: d :: r =>
                          match hexValue a b c d with
                          | none => .error (faultAt .badEscape r)
                          | some m =>
                            if isTrailing m then
                              match content r with
                              | .ok (bs, rest) => .ok (Text.Utf8.encode [pair n m] ++ bs, rest)
                              | .error f => .error f
                            else .error (faultAt .loneSurrogate r)
                        | _ => .error (faultAt .endInText [])
              else
                match content r with
                | .ok (bs, rest) => .ok (Text.Utf8.encode [Char.ofNat n] ++ bs, rest)
                | .error f => .error f
          | _ => .error (faultAt .endInText [])
        else match shortEscape e with
          | none => .error (faultAt .badEscape r)
          | some x =>
            match content r with
            | .ok (bs, rest) => .ok (x :: bs, rest)
            | .error f => .error f

/-- A text whose opening quote has been read. -/
def text : Reader String := fun s =>
  match content s with
  | .error f => .error f
  | .ok (bs, rest) =>
    match Text.Utf8.toString? bs with
    | some t => .ok (t, rest)
    | none => .error ⟨.badCodePoint, s.length - Text.Utf8.readable s - 1, []⟩

end DualWrite.Json
