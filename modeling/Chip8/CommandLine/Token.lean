namespace Chip8

/-- The value of an option is attached to it by `=` or, behind a letter, directly. -/
inductive Token
  | word (text : String)
  | terminator
  | long (name : String) (value? : Option String)
  | short (letter : Char) (value? : Option String)
deriving DecidableEq

namespace Token

def splitValue (text : List Char) : String × Option String :=
  let name := String.ofList (text.takeWhile (· ≠ '='))
  match text.dropWhile (· ≠ '=') with
  | [] => (name, none)
  | _ :: value => (name, some (.ofList value))

def attached? : List Char → Option String
  | [] => none
  | '=' :: value => some (.ofList value)
  | value => some (.ofList value)

/-- A lone `-` is a word. -/
def ofArgument (argument : String) : Token :=
  match argument.toList with
  | ['-', '-'] => .terminator
  | '-' :: '-' :: text => let (name, value?) := splitValue text; .long name value?
  | '-' :: letter :: text => .short letter (attached? text)
  | _ => .word argument

end Token

end Chip8
