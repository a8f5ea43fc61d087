import Chip8.CommandLine.Assignment
import Chip8.CommandLine.Token

namespace Chip8

/-- The values accepted, in their order, and the parameter whose value is still to come or to be
checked: a value that stands apart from its option, like the ROM, is checked only when the argument
after it has been understood. -/
structure Reading where
  accepted : List Assignment := []
  pending : Option (Parameter × Option String) := none
deriving DecidableEq

namespace Reading

def has (r : Reading) (p : Parameter) : Bool :=
  r.accepted.any (·.parameter = p)

def accept (r : Reading) (p : Parameter) (text : String) : Except UsageError Reading :=
  if r.has p then .error (.repeated p)
  else (Assignment.ofText p text).map fun a ↦ { r with accepted := r.accepted ++ [a] }

def settle (r : Reading) : Except UsageError Reading :=
  match r.pending with
  | none => .ok r
  | some (p, none) => .error (.missingValue p)
  | some (p, some text) => { r with pending := none }.accept p text

def hasRom (r : Reading) : Bool :=
  r.has .rom || r.pending.any (·.1 = .rom)

/-- The parameters that count as given by now. A pending value counts whether it is good or bad, and
if it is a repetition neither counts. -/
def given (r : Reading) : List Parameter :=
  let accepted := r.accepted.map Assignment.parameter
  match r.pending with
  | some (p, some _) => if p ∈ accepted then accepted.erase p else accepted ++ [p]
  | _ => accepted

def parameter (r : Reading) (p : Parameter) (value? : Option String) :
    Except UsageError Reading := do
  let r ← r.settle
  match value? with
  | none => return { r with pending := some (p, none) }
  | some text => r.accept p text

/-- A second ROM is refused whatever else is wrong. -/
def positional (r : Reading) (text : String) : Except UsageError Reading :=
  if r.hasRom then .error (.surplusWord text)
  else r.settle.map ({ · with pending := some (.rom, some text) })

def word (r : Reading) (text : String) : Except UsageError Reading :=
  match r.pending with
  | some (p, none) => .ok { r with pending := some (p, some text) }
  | _ => r.positional text

def finish (r : Reading) : Except UsageError Request := do
  let r ← r.settle
  return .run (← Invocation.ofAssignments r.accepted)

def positionals (r : Reading) : List String → Except UsageError Request
  | [] => r.finish
  | text :: rest => do (← r.positional text).positionals rest

def arguments (r : Reading) : List String → Except UsageError Request
  | [] => r.finish
  | argument :: rest =>
    match Token.ofArgument argument with
    | .terminator => r.positionals rest
    | .word text => do (← r.word text).arguments rest
    | .long name value? =>
      match Switch.ofName? name, value? with
      | none, _ => .error (.unknownName name (Switch.similar? name) r.given)
      | some (.parameter p), _ => do (← r.parameter p value?).arguments rest
      | some (.flag f), none => r.settle.map fun _ ↦ .show f
      | some (.flag f), some value => .error (.surplusValue value f !r.accepted.isEmpty)
    | .short letter value? =>
      match Switch.ofLetter? letter with
      | none => .error (.unknownLetter letter)
      | some (.parameter p) => do (← r.parameter p value?).arguments rest
      | some (.flag f) => r.settle.map fun _ ↦ .show f

end Reading

def Request.ofArguments (arguments : List String) : Except UsageError Request :=
  ({} : Reading).arguments arguments

end Chip8
