import Chip8.Time.Meter
import Chip8.Time.Oscillator

namespace Chip8

def Duration.total : List Duration → Nat
  | [] => 0
  | d :: slices => d.nanoseconds + total slices

namespace Oscillator

variable (o : Oscillator) (a b : Nat)

def later (n : Nat) : Oscillator :=
  { o with phase := (o.phase + n * o.frequency.toNat) % 1000000000 }

/-- How many ticks fall due within `n` nanoseconds. -/
def count (n : Nat) : Nat :=
  (o.phase + n * o.frequency.toNat) / 1000000000

theorem ticks_eq_count (elapsed : Duration) : o.ticks elapsed = o.count elapsed.nanoseconds :=
  rfl

theorem phase_later_lt : (o.later a).phase < 1000000000 :=
  Nat.mod_lt _ (by decide)

theorem later_zero (h : o.phase < 1000000000) : o.later 0 = o := by
  rw [later, Nat.zero_mul, Nat.add_zero, Nat.mod_eq_of_lt h]

theorem count_zero (h : o.phase < 1000000000) : o.count 0 = 0 := by
  rw [count, Nat.zero_mul, Nat.add_zero, Nat.div_eq_of_lt h]

theorem later_add : o.later (a + b) = (o.later a).later b := by
  simp only [later, Nat.mod_add_mod, Nat.add_mul, Nat.add_assoc]

theorem count_add : o.count (a + b) = o.count a + (o.later a).count b := by
  simp only [count, later, Nat.add_mul]
  omega

theorem count_le_frequency (h : o.phase < 1000000000) {n : Nat} (hn : n ≤ 1000000000) :
    o.count n ≤ o.frequency.toNat := by
  have hm : n * o.frequency.toNat ≤ 1000000000 * o.frequency.toNat := Nat.mul_le_mul_right _ hn
  simp only [count]
  omega

end Oscillator

namespace Meter

variable {m m' : Meter} {elapsed : Duration} {steps : Nat}

theorem exists_record?_eq (h : m.elapsed.nanoseconds < 1000000000)
    (he : elapsed.nanoseconds ≤ 1000000000) (steps : Nat) :
    ∃ m', m.record? elapsed steps = some m' := by
  have hb : m.elapsed.nanoseconds + elapsed.nanoseconds < UInt64.size * 1000000000 := by
    simp only [UInt64.size]
    omega
  simp [record?, Duration.add?, Duration.ofNanoseconds?, hb]

theorem elapsed_record?_lt (h : m.record? elapsed steps = some m') :
    m'.elapsed.nanoseconds < 1000000000 := by
  simp only [record?, Option.map_eq_some_iff] at h
  obtain ⟨total, _, rfl⟩ := h
  split
  case isTrue => exact Nat.zero_lt_of_lt (by decide : 0 < 1000000000)
  case isFalse hs => exact Nat.lt_of_not_le hs

end Meter

end Chip8
