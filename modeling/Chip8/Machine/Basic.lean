import Chip8.Processor.Step
import Chip8.Time.Meter

namespace Chip8

/-- The clock ticks once for each step that is due. -/
structure Machine where
  processor : Processor
  rom : Array UInt8 := #[]
  clock : Oscillator
  meter : Meter := {}

namespace Machine

def new (settings : Settings) (entropy : ChaCha.Key) : Except SettingsError Machine :=
  settings.validate.map fun _ ↦
    { processor := .new settings entropy, clock := { frequency := settings.clockSpeed } }

/-- A machine with nothing in memory and nothing counted; it keeps its ROM for a later load. -/
def restart (m : Machine) : Machine :=
  { m with processor := m.processor.reset, clock := m.clock.restart, meter := {} }

/-- Starts anew with `rom`, and answers its size. After a ROM that is too large the machine is
left with none. -/
def load (m : Machine) (rom : Array UInt8) : Outcome Machine (Except LoadError Nat) :=
  let m := { m.restart with rom := #[] }
  match m.processor.load rom with
  | .error e => ⟨m, .error e, []⟩
  | .ok processor => ⟨{ m with processor, rom }, .ok rom.size, [.loaded rom.size]⟩

def reset (m : Machine) : Outcome Machine (Except LoadError Unit) :=
  match m.restart.processor.load m.rom with
  | .error e => ⟨m.restart, .error e, []⟩
  | .ok processor => ⟨{ m.restart with processor }, .ok (), [.restarted]⟩

def step (m : Machine) : Outcome Machine (Except Fault Unit) :=
  m.processor.step.map fun processor ↦ { m with processor }

def run (m : Machine) (n : Nat) : Outcome Machine Processor.Progress :=
  (m.processor.run n).map fun processor ↦ { m with processor }

def tick (m : Machine) (elapsed : Duration) : Machine :=
  { m with processor.timers := m.processor.timers.tick elapsed }

def press (m : Machine) (key : UInt8) : Machine :=
  { m with processor.keypad := m.processor.keypad.press key }

def release (m : Machine) (key : UInt8) : Machine :=
  { m with processor.keypad := m.processor.keypad.release key }

def setKeys (m : Machine) (mask : BitVec 16) : Machine :=
  { m with processor.keypad := ⟨mask⟩ }

def takeFrame (m : Machine) : Machine × Option Frame :=
  let (screen, frame) := m.processor.screen.takeFrame
  ({ m with processor.screen := screen }, frame)

def status (m : Machine) : List Event :=
  let p := m.processor
  .registers p.pc p.stack.depth p.i p.mode ::
    (List.finRange 16).map (fun x ↦ .register x (p.get x)) ++
      [.timers p.timers.delay p.timers.sound]

end Machine

end Chip8
