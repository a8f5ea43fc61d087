import Chip8.Proofs.Time.Slicing
import Chip8.Timers

namespace Chip8

/-- What can go wrong with a product, a sum, a difference or a quotient in the bits there are for
it. -/
inductive Slip
  | overflow
  | zeroDivisor
  | overlong
deriving DecidableEq

namespace Slip

def wide : Nat :=
  UInt64.size * UInt64.size

def fit (size n : Nat) : Except Slip Nat :=
  if n < size then .ok n else .error .overflow

def sub (a b : Nat) : Except Slip Nat :=
  if b ≤ a then .ok (a - b) else .error .overflow

def div (a b : Nat) : Except Slip Nat :=
  if 0 < b then .ok (a / b) else .error .zeroDivisor

def mod (a b : Nat) : Except Slip Nat :=
  if 0 < b then .ok (a % b) else .error .zeroDivisor

variable {size n a b : Nat}

theorem fit_eq (h : n < size) : fit size n = .ok n :=
  if_pos h

theorem sub_eq (h : b ≤ a) : sub a b = .ok (a - b) :=
  if_pos h

theorem div_eq (h : 0 < b) : div a b = .ok (a / b) :=
  if_pos h

theorem mod_eq (h : 0 < b) : mod a b = .ok (a % b) :=
  if_pos h

theorem ok_bind {α β : Type} (a : α) (f : α → Except Slip β) : (Except.ok a >>= f) = f a :=
  rfl

end Slip

open Slip

namespace Oscillator

/-- The ticks that fall due, and the clock after them. -/
def advanceChecked (o : Oscillator) (elapsed : Duration) : Except Slip (Nat × Oscillator) := do
  let gained ← fit wide (elapsed.nanoseconds * o.frequency.toNat)
  let reading ← fit wide (o.phase + gained)
  let ticks ← div reading 1000000000
  let phase ← mod reading 1000000000
  return (ticks, { o with phase })

theorem advanceChecked_eq {o : Oscillator} (h : o.phase < 1000000000) (elapsed : Duration) :
    o.advanceChecked elapsed = .ok (o.ticks elapsed, o.advance elapsed) := by
  have hn := elapsed.bounded
  have hf := o.frequency.toNat_lt_size
  have product : elapsed.nanoseconds * o.frequency.toNat ≤
      UInt64.size * 1000000000 * UInt32.size := Nat.mul_le_mul (Nat.le_of_lt hn) (Nat.le_of_lt hf)
  simp only [UInt64.size, UInt32.size] at product
  have gained : elapsed.nanoseconds * o.frequency.toNat < wide := by
    simp only [wide, UInt64.size]
    omega
  have reading : o.phase + elapsed.nanoseconds * o.frequency.toNat < wide := by
    simp only [wide, UInt64.size]
    omega
  have second : 0 < 1000000000 := by decide
  rw [advanceChecked, fit_eq gained, ok_bind, fit_eq reading, ok_bind, div_eq second, ok_bind,
    mod_eq second, ok_bind]
  rfl

theorem ticks_le {o : Oscillator} (h : o.phase < 1000000000) (elapsed : Duration) :
    o.ticks elapsed ≤ elapsed.nanoseconds * o.frequency.toNat := by
  simp only [ticks, reading]
  omega

end Oscillator

namespace Timers

/-- The timers after `elapsed`, and how often they were due to count down. Both numbers that come
of the ticks stop at the most that there are bits for. -/
def tickChecked (t : Timers) (elapsed : Duration) : Except Slip (Timers × Nat) := do
  let (ticks, clock) ← t.clock.advanceChecked elapsed
  let decrement := min ticks (UInt8.size - 1)
  return ({ delay := lower t.delay decrement, sound := lower t.sound decrement, clock },
    min ticks (UInt32.size - 1))

theorem lower_min (value : UInt8) (n : Nat) :
    lower value (min n (UInt8.size - 1)) = lower value n := by
  have hv := value.toNat_lt
  rw [← UInt8.toNat_inj, toNat_lower, toNat_lower]
  simp only [UInt8.size]
  omega

theorem tickChecked_eq {t : Timers} (h : t.clock.phase < 1000000000) (elapsed : Duration) :
    t.tickChecked elapsed = .ok (t.tick elapsed, t.periods elapsed) := by
  rw [tickChecked, Oscillator.advanceChecked_eq h, ok_bind]
  simp only [lower_min]
  rfl

inductive Operation
  | tick (elapsed : Duration)
  | setDelay (value : UInt8)
  | setSound (value : UInt8)
  | reset

def Operation.apply : Operation → Timers → Timers
  | .tick elapsed, t => t.tick elapsed
  | .setDelay value, t => t.setDelay value
  | .setSound value, t => t.setSound value
  | .reset, t => t.reset

def driven (t : Timers) (os : List Operation) : Timers :=
  os.foldl (fun t o ↦ o.apply t) t

theorem phase_apply_lt {t : Timers} (h : t.clock.phase < 1000000000) (o : Operation) :
    (o.apply t).clock.phase < 1000000000 := by
  cases o with
  | tick elapsed => exact Oscillator.phase_advance_lt _ _
  | reset => exact (by decide : 0 < 1000000000)
  | _ => exact h

theorem phase_driven_lt {t : Timers} (h : t.clock.phase < 1000000000) (os : List Operation) :
    (t.driven os).clock.phase < 1000000000 := by
  induction os generalizing t with
  | nil => exact h
  | cons o os ih => exact ih (phase_apply_lt h o)

end Timers

namespace Meter

variable {elapsed : Duration} {steps : Nat}

def rateChecked (elapsed : Duration) (steps : Nat) : Except Slip Nat := do
  let scaled ← fit wide (steps * 1000000000)
  let rate ← div scaled elapsed.nanoseconds
  return min rate (UInt32.size - 1)

theorem rateChecked_eq (h : steps < UInt64.size) (long : 0 < elapsed.nanoseconds) :
    rateChecked elapsed steps = .ok (rateOf elapsed steps) := by
  have scaled : steps * 1000000000 < wide := by
    simp only [wide, UInt64.size] at h ⊢
    omega
  rw [rateChecked, fit_eq scaled, ok_bind, div_eq long, ok_bind]
  rfl

def recordChecked (m : Meter) (elapsed : Duration) (steps : Nat) : Except Slip Meter :=
  match m.elapsed.add? elapsed with
  | none => .error .overlong
  | some total => do
    let added ← fit UInt64.size steps
    let counted ← fit UInt64.size (m.steps + added)
    if Duration.second.nanoseconds ≤ total.nanoseconds then
      let rate ← rateChecked total counted
      return { rate }
    else
      return { m with elapsed := total, steps := counted }

theorem recordChecked_eq {m : Meter} (elapsed : Duration) (fits : m.steps + steps < UInt64.size) :
    m.recordChecked elapsed steps =
      match m.record? elapsed steps with
      | none => .error .overlong
      | some m' => .ok m' := by
  have added : steps < UInt64.size := Nat.lt_of_le_of_lt (Nat.le_add_left _ _) fits
  rw [recordChecked, record?]
  cases m.elapsed.add? elapsed with
  | none => rfl
  | some total =>
    simp only [Option.map_some]
    rw [fit_eq added, ok_bind, fit_eq fits, ok_bind]
    split
    case isTrue long =>
      have second : 0 < Duration.second.nanoseconds := by decide
      rw [rateChecked_eq fits (Nat.lt_of_lt_of_le second long), ok_bind]
      rfl
    case isFalse => rfl

theorem steps_record?_le {m m' : Meter} {frequency : Nat}
    (h : m.steps ≤ m.elapsed.nanoseconds * frequency)
    (hs : steps ≤ elapsed.nanoseconds * frequency) (recorded : m.record? elapsed steps = some m') :
    m'.steps ≤ m'.elapsed.nanoseconds * frequency := by
  simp only [record?, Option.map_eq_some_iff] at recorded
  obtain ⟨total, sum, rfl⟩ := recorded
  split
  case isTrue => exact Nat.zero_le _
  case isFalse =>
    simp only [Duration.add?_eq_some_iff.mp sum, Nat.add_mul]
    exact Nat.add_le_add h hs

end Meter

end Chip8
