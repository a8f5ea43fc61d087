import Chip8.CallStack
import Chip8.Event
import Chip8.Keypad.Basic
import Chip8.Memory.Basic
import Chip8.Random.Generator
import Chip8.Screen.Basic
import Chip8.Settings
import Chip8.Timers

namespace Chip8

structure Processor where
  v : Vector UInt8 16
  i : UInt16
  pc : UInt16
  mode : Mode
  memory : Memory
  stack : CallStack
  screen : Screen
  keypad : Keypad
  timers : Timers
  random : Generator

namespace Processor

/-- `entropy` keys the random bytes when the settings hold no seed. -/
def new (settings : Settings) (entropy : ChaCha.Key) : Processor where
  v := Vector.replicate 16 0
  i := 0
  pc := Memory.programStart
  mode := .running
  memory := .blank
  stack := .empty
  screen := .blank
  keypad := .released
  timers := .new settings.timerFrequency
  random := settings.seed.elim (.ofKey entropy) .ofSeed

/-- Starts anew with nothing loaded and a blank screen to show. The random bytes go on. -/
def reset (p : Processor) : Processor where
  v := Vector.replicate 16 0
  i := 0
  pc := Memory.programStart
  mode := .running
  memory := .blank
  stack := .empty
  screen := p.screen.clear
  keypad := .released
  timers := p.timers.reset
  random := p.random

def load (p : Processor) (rom : Array UInt8) : Except LoadError Processor :=
  (p.memory.load rom).map fun memory ↦ { p with memory }

end Processor

end Chip8
