/-!
# The command line

`migrator [-c FILE] [serve | config]`. The option may stand before or behind the command; behind it
counts. An option is settled, and its value looked at, only when the next option or the end of its
level is reached; what cannot be an argument at all is refused at once.
-/
namespace DualWrite

/-- What the program is told to do. -/
inductive Command where
  | serve
  | config
deriving Repr, DecidableEq

/-- Why the arguments are no call of the program, or no more than a question about it. -/
inductive Refusal where
  | displayHelp
  | displayVersion
  | unknownArgument
  | invalidSubcommand
  | invalidValue
  | argumentConflict
  | tooManyValues
deriving Repr, DecidableEq

/-- A call of the program. -/
structure Invocation where
  command : Option Command
  /-- The settings document. -/
  document : Option String
deriving Repr, DecidableEq

namespace CommandLine

/-- The words that may stand in the place of a command. -/
inductive Word where
  | command (c : Command)
  | help
deriving Repr, DecidableEq

def Word.ofString? : String → Option Word
  | "serve" => some (.command .serve)
  | "config" => some (.command .config)
  | "help" => some .help
  | _ => none

/-- The shapes of an argument. -/
inductive Argument where
  /-- Two dashes alone. -/
  | escape
  | long (name : String) (value : Option String)
  | short (flags : List Char)
  | plain
deriving Repr, DecidableEq

def Argument.ofString (s : String) : Argument :=
  match s.toList with
  | ['-', '-'] => .escape
  | '-' :: '-' :: r =>
    let name := String.ofList (r.takeWhile (· ≠ '='))
    match r.dropWhile (· ≠ '=') with
    | [] => .long name none
    | _ :: v => .long name (some (String.ofList v))
  | '-' :: c :: r => .short (c :: r)
  | _ => .plain

/-- An option that was begun and is not settled. -/
inductive Pending where
  | nothing
  | awaiting
  | given (value : String)
deriving Repr, DecidableEq

/-- The arguments before the command, or those behind it. -/
structure Level where
  document : Option String
  pending : Pending
deriving Repr, DecidableEq

namespace Level

def empty : Level := ⟨none, .nothing⟩

/-- Takes the value of the option, which is given once and is not empty. -/
def take (l : Level) (value : String) : Except Refusal Level :=
  if l.document.isSome then .error .argumentConflict
  else if value = "" then .error .invalidValue
  else .ok ⟨some value, .nothing⟩

def settle (l : Level) : Except Refusal Level :=
  match l.pending with
  | .nothing => .ok l
  | .awaiting => .error .invalidValue
  | .given v => l.take v

/-- The option, with a value of its own or with the next argument as its value. -/
def option (l : Level) (value : Option String) : Except Refusal Level := do
  let l ← l.settle
  match value with
  | some v => l.take v
  | none => return { l with pending := .awaiting }

/-- A flag that ends everything. -/
def ask (l : Level) (r : Refusal) : Except Refusal Level := do
  let _ ← l.settle
  throw r

/-- Only the level before the command knows the version. -/
def long (l : Level) (top : Bool) (name : String) (value : Option String) : Except Refusal Level :=
  if name = "config" then l.option value
  else if name = "help" then if value.isSome then .error .tooManyValues else l.ask .displayHelp
  else if name = "version" && top then
    if value.isSome then .error .tooManyValues else l.ask .displayVersion
  else .error .unknownArgument

def short (l : Level) (top : Bool) : List Char → Except Refusal Level
  | ['c'] => l.option none
  | 'c' :: '=' :: v => l.option (some (String.ofList v))
  | 'c' :: v => l.option (some (String.ofList v))
  | 'h' :: _ => l.ask .displayHelp
  | 'V' :: _ => if top then l.ask .displayVersion else .error .unknownArgument
  | _ => .error .unknownArgument

end Level

/-- Help is given on the program or on one of the words. -/
def helpOn : List String → Refusal
  | [] => .displayHelp
  | [s] => if (Word.ofString? s).isSome then .displayHelp else .invalidSubcommand
  | _ => .invalidSubcommand

/-- An argument that is neither an option nor a value. -/
def stray (top escaped : Bool) (s : String) : Refusal :=
  if top && !(escaped && (Word.ofString? s).isSome) then .invalidSubcommand else .unknownArgument

/-- Reads one level; before the command, up to the command and with what is behind it. -/
def readLevel (top escaped : Bool) (l : Level) :
    List String → Except Refusal (Level × Option (Command × List String))
  | [] => .ok (l, none)
  | s :: rest =>
    if escaped then .error (stray top true s)
    else
      let word? := if top && l.pending ≠ .awaiting then Word.ofString? s else none
      match word?, Argument.ofString s with
      | some (.command c), _ => .ok (l, some (c, rest))
      | some .help, _ => .error (helpOn rest)
      | none, .escape => readLevel top true l rest
      | none, .long name value => do readLevel top false (← l.long top name value) rest
      | none, .short flags => do readLevel top false (← l.short top flags) rest
      | none, .plain =>
        if l.pending = .awaiting then readLevel top false { l with pending := .given s } rest
        else .error (stray top false s)

/-- The call that arguments make. -/
def parse (args : List String) : Except Refusal Invocation := do
  let (before, rest) ← readLevel true false .empty args
  match rest with
  | none => return ⟨none, (← before.settle).document⟩
  | some (c, args) =>
    let (behind, _) ← readLevel false false .empty args
    let behind ← behind.settle
    let before ← before.settle
    return ⟨some c, behind.document.or before.document⟩

end CommandLine

end DualWrite
