import Chip8.Time.Meter

namespace Chip8.Meter

inductive Recorded (m : Meter) (elapsed : Duration) (steps : Nat) : Meter → Prop
  | closed {total : Duration}
      (sum : total.nanoseconds = m.elapsed.nanoseconds + elapsed.nanoseconds)
      (long : 1000000000 ≤ total.nanoseconds) :
      Recorded m elapsed steps { rate := rateOf total (m.steps + steps) }
  | continued {total : Duration}
      (sum : total.nanoseconds = m.elapsed.nanoseconds + elapsed.nanoseconds)
      (short : total.nanoseconds < 1000000000) :
      Recorded m elapsed steps { m with elapsed := total, steps := m.steps + steps }

/-- The open window has counted no more steps than there is time for in it and in the part of a
period that had passed when it was opened. A phase is the time since the last tick in the units of
the clock. -/
def Within (m : Meter) (speed phase : Nat) : Prop :=
  1000000000 * m.steps + phase < 1000000000 + speed * m.elapsed.nanoseconds

def Complete (m : Meter) (speed phase : Nat) : Prop :=
  speed * m.elapsed.nanoseconds ≤ 1000000000 * m.steps + phase

variable {m m' : Meter} {elapsed : Duration} {steps speed total phase phase' : Nat}

theorem recorded_of_record? (h : m.record? elapsed steps = some m') :
    m.Recorded elapsed steps m' := by
  simp only [record?, Option.map_eq_some_iff] at h
  obtain ⟨total, sum, rfl⟩ := h
  have sum := Duration.add?_eq_some_iff.mp sum
  split
  case isTrue long => exact .closed sum long
  case isFalse short => exact .continued sum (Nat.lt_of_not_le short)

theorem rate_record? (h : m.record? elapsed steps = some m')
    (short : m.elapsed.nanoseconds + elapsed.nanoseconds < 1000000000) : m'.rate = m.rate := by
  cases recorded_of_record? h with
  | closed sum long => omega
  | continued => rfl

theorem div_le_speed (long : 1000000000 ≤ total)
    (few : 1000000000 * steps < 1000000000 + speed * total) :
    steps * 1000000000 / total ≤ speed := by
  have pos : 0 < total := Nat.lt_of_lt_of_le (by decide) long
  rw [← Nat.lt_succ_iff, Nat.div_lt_iff_lt_mul pos, Nat.succ_mul]
  omega

theorem speed_le_div (long : 1000000000 ≤ total) (phase_lt : phase < 1000000000)
    (many : speed * total ≤ 1000000000 * steps + phase) :
    speed ≤ steps * 1000000000 / total + 1 := by
  have pos : 0 < total := Nat.lt_of_lt_of_le (by decide) long
  rw [← Nat.sub_le_iff_le_add, Nat.le_div_iff_mul_le pos, Nat.sub_mul]
  omega

theorem within_empty (rate speed : Nat) (phase_lt : phase < 1000000000) :
    ({ rate } : Meter).Within speed phase := by
  simp only [Within]
  omega

theorem complete_empty (rate speed phase : Nat) : ({ rate } : Meter).Complete speed phase := by
  simp only [Complete, Duration.zero]
  omega

theorem Within.mono (h : m.Within speed phase) (le : phase' ≤ phase) : m.Within speed phase' :=
  Nat.lt_of_le_of_lt (Nat.add_le_add_left le _) h

theorem Within.total_lt (h : m.Within speed phase)
    (balance : 1000000000 * steps + phase' ≤ phase + speed * elapsed.nanoseconds) :
    1000000000 * (m.steps + steps) + phase' <
      1000000000 + speed * (m.elapsed.nanoseconds + elapsed.nanoseconds) := by
  simp only [Within] at h
  rw [Nat.mul_add, Nat.mul_add]
  omega

theorem Within.record (h : m.Within speed phase) (recorded : m.record? elapsed steps = some m')
    (balance : 1000000000 * steps + phase' ≤ phase + speed * elapsed.nanoseconds)
    (phase_lt : phase' < 1000000000) : m'.Within speed phase' := by
  have total_lt := h.total_lt balance
  cases recorded_of_record? recorded with
  | closed => exact within_empty _ speed phase_lt
  | continued sum =>
    rw [← sum] at total_lt
    exact total_lt

theorem Within.rate_le (h : m.Within speed phase) (recorded : m.record? elapsed steps = some m')
    (balance : 1000000000 * steps + phase' ≤ phase + speed * elapsed.nanoseconds)
    (before : m.rate ≤ speed) : m'.rate ≤ speed := by
  have total_lt := h.total_lt balance
  cases recorded_of_record? recorded with
  | closed sum long =>
    rw [← sum] at total_lt
    have few := div_le_speed long (Nat.lt_of_le_of_lt (Nat.le_add_right _ _) total_lt)
    exact Nat.le_trans (Nat.min_le_left _ _) few
  | continued => exact before

theorem Within.rate_eq (h : m.Within speed phase) (recorded : m.record? elapsed steps = some m')
    (balance : 1000000000 * steps + phase' ≤ phase + speed * elapsed.nanoseconds)
    (narrow : speed < UInt32.size)
    (closes : 1000000000 ≤ m.elapsed.nanoseconds + elapsed.nanoseconds) :
    m'.rate = (m.steps + steps) * 1000000000 /
      (m.elapsed.nanoseconds + elapsed.nanoseconds) := by
  have total_lt := h.total_lt balance
  have few := div_le_speed closes (Nat.lt_of_le_of_lt (Nat.le_add_right _ _) total_lt)
  cases recorded_of_record? recorded with
  | closed sum =>
    rw [← sum] at few ⊢
    exact Nat.min_eq_left (Nat.le_trans few (Nat.le_sub_one_of_lt narrow))
  | continued sum short => omega

theorem Complete.total_le (h : m.Complete speed phase)
    (balance : phase + speed * elapsed.nanoseconds ≤ 1000000000 * steps + phase') :
    speed * (m.elapsed.nanoseconds + elapsed.nanoseconds) ≤
      1000000000 * (m.steps + steps) + phase' := by
  simp only [Complete] at h
  rw [Nat.mul_add, Nat.mul_add]
  omega

theorem Complete.record (h : m.Complete speed phase)
    (recorded : m.record? elapsed steps = some m')
    (balance : phase + speed * elapsed.nanoseconds ≤ 1000000000 * steps + phase') :
    m'.Complete speed phase' := by
  have total_le := h.total_le balance
  cases recorded_of_record? recorded with
  | closed => exact complete_empty _ speed phase'
  | continued sum =>
    rw [← sum] at total_le
    exact total_le

end Chip8.Meter
