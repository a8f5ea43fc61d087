namespace Chip8.ControlSequence

/-- What has been read of a sequence. A control string ends at a terminator, and a command at a
bell. -/
inductive State
  | ground
  | escape
  | escapeTail
  | control
  | device
  | deviceParameters
  | deviceTail
  | controlString
  | command
deriving DecidableEq

def isLayout (c : Char) : Bool :=
  c = '\t' || c = '\n' || c = '\x0c' || c = '\r'

def terminates (c : Char) : Bool :=
  (String.utf8EncodeChar c).contains 0x9c

namespace State

def next (s : State) (c : Char) : State :=
  if c = '\x1b' then .escape
  else if c = '\x18' ∨ c = '\x1a' then .ground
  else
    match s with
    | .ground => .ground
    | .escape =>
      if c = '[' then .control
      else if c = ']' then .command
      else if c = 'P' then .device
      else if c = 'X' ∨ c = '^' ∨ c = '_' then .controlString
      else if ' ' ≤ c ∧ c ≤ '/' then .escapeTail
      else if '0' ≤ c ∧ c ≤ '~' then .ground
      else .escape
    | .escapeTail => if '0' ≤ c ∧ c ≤ '~' then .ground else .escapeTail
    | .control => if '@' ≤ c ∧ c ≤ '~' then .ground else .control
    | .device =>
      if ' ' ≤ c ∧ c ≤ '/' then .deviceTail
      else if '0' ≤ c ∧ c ≤ '?' then .deviceParameters
      else if '@' ≤ c ∧ c ≤ '~' then .controlString
      else .device
    | .deviceParameters =>
      if ' ' ≤ c ∧ c ≤ '/' then .deviceTail
      else if '<' ≤ c ∧ c ≤ '~' then .controlString
      else .deviceParameters
    | .deviceTail => if '0' ≤ c ∧ c ≤ '~' then .controlString else .deviceTail
    | .controlString => if terminates c then .ground else .controlString
    | .command => if c = '\x07' then .ground else .command

/-- Layout is shown also inside a sequence that has no string. -/
def shows (s : State) (c : Char) : Bool :=
  match s with
  | .ground => isLayout c || (' ' ≤ c && c ≠ '\x7f')
  | .escape | .escapeTail | .control => isLayout c
  | _ => false

end State

structure Reader where
  state : State := .ground
  showing : Bool := true
  shown : List Char := []

namespace Reader

/-- After a character that is shown, all are until the next control character. A sequence that was
open by then goes on, unless a character beyond ASCII has been shown. -/
def step (r : Reader) (c : Char) : Reader :=
  if r.showing && State.ground.shows c then
    { r with
      state := if c.toNat < 128 then r.state else .ground
      shown := c :: r.shown }
  else if r.state.shows c then ⟨r.state.next c, true, c :: r.shown⟩
  else ⟨r.state.next c, false, r.shown⟩

end Reader

def strip (text : String) : String :=
  .ofList (text.toList.foldl Reader.step {}).shown.reverse

end Chip8.ControlSequence
