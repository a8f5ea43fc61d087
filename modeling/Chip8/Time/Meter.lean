import Chip8.Time.Duration

namespace Chip8

/-- The open window, and the rate over the last one that was closed. -/
structure Meter where
  elapsed : Duration := .zero
  steps : Nat := 0
  rate : Nat := 0
deriving DecidableEq

namespace Meter

def rateOf (elapsed : Duration) (steps : Nat) : Nat :=
  min (steps * 1000000000 / elapsed.nanoseconds) (UInt32.size - 1)

/-- Fails if the window would outlast the longest duration. -/
def record? (m : Meter) (elapsed : Duration) (steps : Nat) : Option Meter :=
  (m.elapsed.add? elapsed).map fun total ↦
    if Duration.second.nanoseconds ≤ total.nanoseconds then
      { rate := rateOf total (m.steps + steps) }
    else { m with elapsed := total, steps := m.steps + steps }

end Meter

end Chip8
