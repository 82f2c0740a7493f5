import DualWrite.Text.Basic

/-!
# Media types

A media type is a type and a subtype, the latter perhaps with a suffix behind a plus sign, followed
by parameters. Its letter case does not matter.
-/
namespace DualWrite.Http

structure MediaType where
  type : String
  subtype : String
  suffix? : Option String
deriving Repr, DecidableEq

namespace MediaType

def isTokenChar (c : Char) : Bool :=
  c.isAlphanum || "!#$%&'*+-.^_|~".toList.contains c || c = '\x60'

/-- Characters inside quotes. -/
def isQuotedChar (c : Char) : Bool := 31 < c.toNat && c.toNat ≠ 127

/-- A nonempty run of token characters. -/
def token (cs : List Char) : Option (List Char × List Char) :=
  match cs.takeWhile isTokenChar with
  | [] => none
  | t => some (t, cs.dropWhile isTokenChar)

/-- The end of a quoted value of at least one character, and what follows its closing quote. -/
def quotedRest : List Char → Option (List Char)
  | [] => none
  | c :: r =>
    if !isQuotedChar c then none
    else if r.head? = some '"' then some (r.drop 1)
    else quotedRest r

/-- Nothing, or a semicolon behind spaces. -/
def nextParameter (cs : List Char) : Option (List Char) :=
  match cs.dropWhile (· = ' ') with
  | [] => some []
  | ';' :: r => some r
  | _ => none

/-- Whether what follows a semicolon is a list of parameters; the first argument bounds their
number. -/
def parameters : Nat → List Char → Bool
  | 0, _ => false
  | fuel + 1, cs =>
    match cs.dropWhile (· = ' ') with
    | [] => true
    | cs =>
      match token cs with
      | some (_, '=' :: '"' :: r) => ((quotedRest r).bind nextParameter).any (parameters fuel)
      | some (_, '=' :: r) =>
        match token r with
        | some (_, []) => true
        | some (_, ';' :: r) => parameters fuel r
        | some _ => false
        | none => r.isEmpty
      | _ => false

/-- Subtype and suffix: the last plus sign, unless it is the first character, separates them. -/
def splitSuffix (cs : List Char) : String × Option String :=
  let suffix := (cs.reverse.takeWhile (· ≠ '+')).reverse
  let rest := cs.take (cs.length - suffix.length - 1)
  if suffix.length = cs.length || rest.isEmpty then (String.ofList cs, none)
  else (String.ofList rest, some (String.ofList suffix))

def parse (s : String) : Option MediaType :=
  match token (Text.lower s).toList with
  | some (type, '/' :: r) =>
    match token r with
    | some (subtype, rest) =>
      let ok := match rest with
        | [] => true
        | ';' :: ps => parameters (ps.length + 1) ps
        | _ => false
      let (sub, suffix) := splitSuffix subtype
      if ok then some ⟨String.ofList type, sub, suffix⟩ else none
    | none => none
  | _ => none

def isJson (m : MediaType) : Bool :=
  m.type == "application" && (m.subtype == "json" || m.suffix? == some "json")

end MediaType

end DualWrite.Http
