import Chip8.Time.Duration

namespace Chip8

/-- `phase` is the time since the last tick in units of a nanosecond divided by the frequency,
so that a tick is due every 10^9 units whatever the frequency. -/
structure Oscillator where
  frequency : UInt32
  phase : Nat := 0
deriving DecidableEq

namespace Oscillator

def reading (o : Oscillator) (elapsed : Duration) : Nat :=
  o.phase + elapsed.nanoseconds * o.frequency.toNat

def ticks (o : Oscillator) (elapsed : Duration) : Nat :=
  o.reading elapsed / 1000000000

def advance (o : Oscillator) (elapsed : Duration) : Oscillator :=
  { o with phase := o.reading elapsed % 1000000000 }

def restart (o : Oscillator) : Oscillator :=
  { o with phase := 0 }

@[simp] theorem frequency_advance (o : Oscillator) (elapsed : Duration) :
    (o.advance elapsed).frequency = o.frequency :=
  rfl

theorem phase_advance_lt (o : Oscillator) (elapsed : Duration) :
    (o.advance elapsed).phase < 1000000000 :=
  Nat.mod_lt _ (by decide)

theorem ticks_add_phase_advance (o : Oscillator) (elapsed : Duration) :
    1000000000 * o.ticks elapsed + (o.advance elapsed).phase = o.reading elapsed :=
  Nat.div_add_mod _ _

end Oscillator

end Chip8
