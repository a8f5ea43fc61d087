import Chip8.Mode

namespace Chip8

inductive Level
  | error
  | warn
  | info
  | debug
  | trace
deriving DecidableEq

def Level.name : Level → String
  | .error => "ERROR"
  | .warn => "WARN"
  | .info => "INFO"
  | .debug => "DEBUG"
  | .trace => "TRACE"

def Level.detail : Level → Nat
  | .error => 0
  | .warn => 1
  | .info => 2
  | .debug => 3
  | .trace => 4

inductive Event
  | executing (word : UInt16) (v : Vector UInt8 16) (i pc : UInt16)
  | awaitingKey (x : Fin 16)
  | keyStored (key x : Fin 16)
  | halting (fault : Fault)
  | backlogDropped (steps : Nat)
  | loaded (size : Nat)
  | restarted
  | registers (pc : UInt16) (depth : Nat) (i : UInt16) (mode : Mode)
  | register (x : Fin 16) (value : UInt8)
  | timers (delay sound : UInt8)
deriving DecidableEq

namespace Event

def level : Event → Level
  | .executing .. => .trace
  | .awaitingKey _ | .keyStored .. | .backlogDropped _ => .debug
  | .halting _ => .error
  | .loaded _ | .restarted | .registers .. | .register .. | .timers .. => .info

def byteText (b : UInt8) : String :=
  Hex.padded 2 b.toNat

def text : Event → String
  | .executing word v i pc =>
    Hex.padded 4 word.toNat ++ " v[" ++ ", ".intercalate (v.toList.map byteText) ++ "] i" ++
      Hex.padded 4 i.toNat ++ " pc" ++ Hex.padded 4 pc.toNat
  | .awaitingKey x => "awaiting keypress for v" ++ Hex.padded 1 x
  | .keyStored key x => "key " ++ Hex.padded 1 key ++ " pressed; stored in v" ++ Hex.padded 1 x
  | .halting fault => "halting: " ++ fault.message
  | .backlogDropped steps => "dropping " ++ toString steps ++ " steps of backlog"
  | .loaded size => "loaded " ++ toString size ++ " byte ROM"
  | .restarted => "reset"
  | .registers pc depth i mode =>
    "pc " ++ Hex.padded 3 pc.toNat ++ " sp " ++ Hex.padded 1 depth ++ " i " ++
      Hex.padded 3 i.toNat ++ " mode " ++ mode.record
  | .register x value => "v" ++ Hex.padded 1 x ++ " " ++ byteText value
  | .timers delay sound => "dt " ++ byteText delay ++ " st " ++ byteText sound

def line (e : Event) : String :=
  e.level.name ++ " " ++ e.text

/-- The lines of a log that goes down to `limit`. -/
def lines (limit : Level) (events : List Event) : List String :=
  (events.filter fun e ↦ e.level.detail ≤ limit.detail).map line

end Event

end Chip8
