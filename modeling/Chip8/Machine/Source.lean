import Chip8.Machine.Basic

namespace Chip8

/-- The result of one read. An interrupted read has delivered nothing and is made again. -/
inductive Read
  | bytes (chunk : Array UInt8)
  | interrupted
  | failed (reason : String)
deriving DecidableEq

/-- The results of the reads to come; after the last of them the source is at its end. -/
abbrev Source := List Read

/-- All bytes up to the end, after the bytes `read` so far. A read of no bytes is the end. -/
def Source.contentsAfter (read : Array UInt8) : Source → Except String (Array UInt8)
  | [] => .ok read
  | .interrupted :: rest => contentsAfter read rest
  | .failed reason :: _ => .error reason
  | .bytes chunk :: rest =>
    if chunk.isEmpty then .ok read else contentsAfter (read ++ chunk) rest

def Source.contents (source : Source) : Except String (Array UInt8) :=
  source.contentsAfter #[]

def Machine.loadFrom (m : Machine) (source : Source) : Outcome Machine (Except LoadError Nat) :=
  match source.contents with
  | .error reason => ⟨m, .error (.unreadable reason), []⟩
  | .ok rom => m.load rom

end Chip8
