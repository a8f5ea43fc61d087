import Chip8.Fault

namespace Chip8

/-- A waiting processor polls the keypad for register `x`; a halted one repeats its fault. -/
inductive Mode
  | running
  | awaitingKey (x : Fin 16)
  | halted (fault : Fault)
deriving DecidableEq

def Mode.record : Mode → String
  | .running => "Running"
  | .awaitingKey x => "AwaitingKey(" ++ toString x.val ++ ")"
  | .halted fault => "Halted(" ++ fault.record ++ ")"

end Chip8
