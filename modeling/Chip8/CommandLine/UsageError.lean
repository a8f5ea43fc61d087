import Chip8.CommandLine.Numeral
import Chip8.CommandLine.Parameter
import Chip8.Text.ControlSequence

namespace Chip8

/-- `given` is what was given before the error, in that order; for `surplusValue`, whether anything
was. -/
inductive UsageError
  | missingRom (given : List Parameter)
  | surplusWord (text : String)
  | unknownLetter (letter : Char)
  | unknownName (name : String) (similar? : Option Switch) (given : List Parameter)
  | repeated (p : Parameter)
  | missingValue (p : Parameter)
  | invalidValue (value : String) (p : Parameter) (reason : ValueError)
  | surplusValue (value : String) (f : Flag) (given : Bool)
deriving DecidableEq

namespace UsageError

def quoted (text : String) : String :=
  "'" ++ ControlSequence.strip text ++ "'"

def unexpected (argument : String) : String :=
  "unexpected argument " ++ quoted argument ++ " found"

def asValueTip (argument : String) : String :=
  "\n\n  tip: to pass " ++ quoted argument ++ " as a value, use " ++ quoted ("-- " ++ argument)

def message : UsageError → String
  | .missingRom _ => "the following required arguments were not provided:\n  <ROM>"
  | .surplusWord text => unexpected text
  | .unknownLetter letter =>
    let argument := String.ofList ['-', letter]
    unexpected argument ++ asValueTip argument
  | .unknownName name similar? _ =>
    let argument := "--" ++ name
    unexpected argument ++
      match similar? with
      | none => asValueTip argument
      | some s => "\n\n  tip: a similar argument exists: '--" ++ s.name ++ "'"
  | .repeated p => "the argument '" ++ p.label ++ "' cannot be used multiple times"
  | .missingValue p => "a value is required for '" ++ p.label ++ "' but none was supplied"
  | .invalidValue value p reason =>
    "invalid value " ++ quoted value ++ " for '" ++ p.label ++ "': " ++ reason.message
  | .surplusValue value f _ =>
    "unexpected value " ++ quoted value ++ " for '" ++ f.label ++ "' found; no more were expected"

def anyPattern : String :=
  "[OPTIONS] <ROM>"

def pattern (given : List Switch) : String :=
  " ".intercalate ((given.filter (· ≠ .parameter .rom)).map Switch.label ++ [Parameter.rom.label])

/-- The pattern of a right command line, shown after the errors that are not about the value of a
parameter. -/
def usage? : UsageError → Option String
  | .missingRom given => some (pattern (given.map .parameter))
  | .unknownName _ similar? given =>
    let used := given.map .parameter
    let used := used ++ similar?.toList.filter (· ∉ used)
    some (if used.isEmpty then anyPattern else pattern used)
  | .surplusWord _ | .unknownLetter _ | .repeated _ => some anyPattern
  | .surplusValue _ f given =>
    let others := if given then Parameter.options.map Parameter.label else []
    some (f.label ++ " <" ++ "|".intercalate ("ROM" :: others) ++ ">")
  | .missingValue _ | .invalidValue .. => none

def text (e : UsageError) : String :=
  "error: " ++ e.message ++ "\n\n" ++
    (match e.usage? with
      | some usage => "Usage: chip8 " ++ usage ++ "\n\n"
      | none => "") ++
    "For more information, try '--help'.\n"

end UsageError

end Chip8
