import Chip8.Time.Oscillator

namespace Chip8

structure Timers where
  delay : UInt8 := 0
  sound : UInt8 := 0
  clock : Oscillator
deriving DecidableEq

namespace Timers

def new (frequency : UInt32) : Timers :=
  { clock := { frequency } }

def lower (value : UInt8) (n : Nat) : UInt8 :=
  UInt8.ofNat (value.toNat - n)

def tick (t : Timers) (elapsed : Duration) : Timers :=
  let n := t.clock.ticks elapsed
  { delay := lower t.delay n, sound := lower t.sound n, clock := t.clock.advance elapsed }

/-- The number of decrements that `tick` makes, as far as 32 bits can tell it. -/
def periods (t : Timers) (elapsed : Duration) : Nat :=
  min (t.clock.ticks elapsed) (UInt32.size - 1)

def setDelay (t : Timers) (value : UInt8) : Timers :=
  { t with delay := value }

def setSound (t : Timers) (value : UInt8) : Timers :=
  { t with sound := value }

def soundActive (t : Timers) : Bool :=
  0 < t.sound

def reset (t : Timers) : Timers :=
  { clock := t.clock.restart }

theorem toNat_lower (value : UInt8) (n : Nat) : (lower value n).toNat = value.toNat - n := by
  have := value.toNat_lt
  simp only [lower, UInt8.toNat_ofNat']
  omega

end Timers

end Chip8
