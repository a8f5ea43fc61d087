import Chip8.Machine.Basic

namespace Chip8

inductive Interruption
  | fault (f : Fault)
  | overlong
deriving DecidableEq

def Interruption.message : Interruption → String
  | .fault f => f.message
  | .overlong => "overflow when adding durations"

namespace Machine

/-- No more than a second's worth of steps is made at once. -/
def due (m : Machine) (elapsed : Duration) : Nat :=
  min (m.clock.ticks elapsed) m.clock.frequency.toNat

def backlog (m : Machine) (elapsed : Duration) : Nat :=
  m.clock.ticks elapsed - m.clock.frequency.toNat

def backlogEvents : Nat → List Event
  | 0 => []
  | n + 1 => [.backlogDropped (n + 1)]

/-- The steps that `elapsed` calls for are made first; then the timers run for the same time, and
the meter counts both. A fault stops it before the timers, and a window that outlasts the longest
duration before the meter. The answer is the number of steps. -/
def advance (m : Machine) (elapsed : Duration) : Outcome Machine (Except Interruption Nat) :=
  let steps := m.due elapsed
  let dropped := backlogEvents (m.backlog elapsed)
  let o := { m with clock := m.clock.advance elapsed }.run steps
  match o.answer.fault? with
  | some fault => ⟨o.state, .error (.fault fault), dropped ++ o.log⟩
  | none =>
    match m.meter.record? elapsed steps with
    | none => ⟨o.state.tick elapsed, .error .overlong, dropped ++ o.log⟩
    | some meter => ⟨{ o.state.tick elapsed with meter }, .ok steps, dropped ++ o.log⟩

end Machine

end Chip8
