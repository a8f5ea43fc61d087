import Chip8.Proofs.Machine.Pacing
import Chip8.Proofs.Machine.Restart
import Chip8.Proofs.Time.Checked

namespace Chip8

def Duration.longest : Duration :=
  ⟨UInt64.size * 1000000000 - 1, by decide⟩

theorem Duration.add?_eq_none_iff {a b : Duration} :
    a.add? b = none ↔ longest.nanoseconds < a.nanoseconds + b.nanoseconds := by
  have hl : longest.nanoseconds + 1 = UInt64.size * 1000000000 := rfl
  simp only [add?, ofNanoseconds?, dite_eq_right_iff, reduceCtorEq, imp_false]
  omega

namespace Machine

open Slip
open Processor (QuietRun)

def paceChecked (limit ticks : Nat) : Except Slip (Nat × List Event) := do
  if limit < ticks then
    let dropped ← sub ticks limit
    return (limit, [.backlogDropped dropped])
  else
    return (ticks, [])

/-- An advance whose arithmetic is checked. It leaves what it had reached when it slips. -/
def advanceChecked (m : Machine) (elapsed : Duration) :
    Outcome Machine (Except Slip (Except Fault Nat)) :=
  match m.clock.advanceChecked elapsed with
  | .error slip => ⟨m, .error slip, []⟩
  | .ok (ticks, clock) =>
    let m := { m with clock }
    match paceChecked clock.frequency.toNat ticks with
    | .error slip => ⟨m, .error slip, []⟩
    | .ok (steps, dropped) =>
      let o := m.run steps
      match o.answer.fault? with
      | some fault => ⟨o.state, .ok (.error fault), dropped ++ o.log⟩
      | none =>
        match o.state.processor.timers.tickChecked elapsed with
        | .error slip => ⟨o.state, .error slip, dropped ++ o.log⟩
        | .ok (timers, _) =>
          let m := { o.state with processor.timers := timers }
          match fit USize.size steps >>= m.meter.recordChecked elapsed with
          | .error slip => ⟨m, .error slip, dropped ++ o.log⟩
          | .ok meter => ⟨{ m with meter }, .ok (.ok steps), dropped ++ o.log⟩

def slipped : Except Interruption Nat → Except Slip (Except Fault Nat)
  | .ok steps => .ok (.ok steps)
  | .error (.fault f) => .ok (.error f)
  | .error .overlong => .error .overlong

/-- Both clocks are within a tick and the meter within its window, in which it has counted no more
steps than can have fallen due. -/
structure Timed (m : Machine) : Prop extends Paced m where
  timers_lt : m.processor.timers.clock.phase < 1000000000
  steps_le : m.meter.steps ≤ m.meter.elapsed.nanoseconds * m.clock.frequency.toNat

variable {m : Machine} {elapsed : Duration}

theorem due_le (h : m.Paced) (elapsed : Duration) :
    m.due elapsed ≤ elapsed.nanoseconds * m.clock.frequency.toNat :=
  Nat.le_trans (Nat.min_le_left _ _) (Oscillator.ticks_le h.phase_lt elapsed)

theorem Timed.turn {m' : Machine} (h : m.Timed) (turn : m.Turn m')
    (timers_lt : m'.processor.timers.clock.phase < 1000000000) : m'.Timed := by
  refine ⟨h.toPaced.turn turn, timers_lt, ?_⟩
  cases turn with
  | restarted => exact Nat.zero_le _
  | advanced elapsed _ meter metered =>
    obtain rfl | recorded := metered
    · exact h.steps_le
    · exact Meter.steps_record?_le h.steps_le (due_le h.toPaced elapsed) recorded
  | kept => exact h.steps_le

theorem Reachable.timed (h : m.Reachable) : m.Timed := by
  induction h with
  | @new settings entropy m h =>
    have reachable : m.Reachable := .new h
    have bounded := reachable.processor.bounded
    refine ⟨reachable.paced, bounded.phase_lt, ?_⟩
    rw [eq_of_new h]
    exact Nat.zero_le _
  | @apply m h o ih => exact ih.turn (m.turn_apply o) (h.apply o).processor.bounded.phase_lt

theorem paceChecked_eq (limit ticks : Nat) :
    paceChecked limit ticks = .ok (min ticks limit, backlogEvents (ticks - limit)) := by
  rw [paceChecked]
  split
  case isTrue h =>
    obtain ⟨k, hk⟩ := Nat.exists_eq_add_of_lt h
    have dropped : ticks - limit = k + 1 := by omega
    rw [sub_eq (Nat.le_of_lt h), ok_bind, dropped, Nat.min_eq_right (Nat.le_of_lt h)]
    rfl
  case isFalse h =>
    have none : ticks - limit = 0 := by omega
    rw [none, Nat.min_eq_left (Nat.le_of_not_lt h)]
    rfl

theorem fits_of_timed (h : m.Timed) (elapsed : Duration) :
    m.due elapsed < USize.size ∧ m.meter.steps + m.due elapsed < UInt64.size := by
  have hf := m.clock.frequency.toNat_lt_size
  have limit : m.due elapsed ≤ m.clock.frequency.toNat := Nat.min_le_right _ _
  have counted : m.meter.elapsed.nanoseconds * m.clock.frequency.toNat ≤
      1000000000 * UInt32.size := Nat.mul_le_mul (Nat.le_of_lt h.elapsed_lt) (Nat.le_of_lt hf)
  have hs := h.steps_le
  have word := USize.le_size
  simp only [UInt32.size, UInt64.size] at *
  omega

theorem advanceChecked_eq (h : m.Timed) (elapsed : Duration) :
    m.advanceChecked elapsed =
      ⟨(m.advance elapsed).state, slipped (m.advance elapsed).answer, (m.advance elapsed).log⟩ := by
  obtain ⟨word, counted⟩ := fits_of_timed h elapsed
  have clock : (m.processor.run (m.due elapsed)).state.timers.clock.phase < 1000000000 := by
    rw [Processor.state_run, Processor.clock_steps]
    exact h.timers_lt
  have due : min (m.clock.ticks elapsed) m.clock.frequency.toNat = m.due elapsed := rfl
  rw [advanceChecked, Oscillator.advanceChecked_eq h.phase_lt]
  simp only [paceChecked_eq, Oscillator.frequency_advance, due, advance, run, Outcome.map]
  cases (m.processor.run (m.due elapsed)).answer.fault? with
  | some f => rfl
  | none =>
    simp only [Timers.tickChecked_eq clock, fit_eq word, ok_bind,
      Meter.recordChecked_eq elapsed counted]
    cases m.meter.record? elapsed (m.due elapsed) with
    | none => rfl
    | some meter => rfl

theorem answer_advance_eq_overlong_iff :
    (m.advance elapsed).answer = .error .overlong ↔
      (∀ k < m.due elapsed, (m.processor.steps k).step.answer = .ok ()) ∧
        Duration.longest.nanoseconds < m.meter.elapsed.nanoseconds + elapsed.nanoseconds := by
  have unmetered : m.meter.record? elapsed (m.due elapsed) = none ↔
      m.meter.elapsed.add? elapsed = none := Option.map_eq_none_iff
  rw [← Processor.fault?_run_eq_none_iff, ← Duration.add?_eq_none_iff, ← unmetered]
  have ha := m.advanced elapsed
  generalize m.advance elapsed = o at ha ⊢
  cases ha with
  | faulted fault => simp [fault]
  | overlong fine long => simp [fine, long]
  | metered fine recorded => simp [fine, recorded]

def unmetered (m : Machine) (elapsed : Duration) : Machine :=
  let p := m.processor.steps (m.due elapsed)
  { m with
    processor := { p with timers := p.timers.tick elapsed }
    clock := m.clock.advance elapsed }

theorem state_advance_of_overlong (h : (m.advance elapsed).answer = .error .overlong) :
    (m.advance elapsed).state = m.unmetered elapsed := by
  have ha := m.advanced elapsed
  generalize m.advance elapsed = o at ha h ⊢
  cases ha with
  | faulted | metered => cases h
  | overlong fine =>
    rw [Processor.state_run, Processor.length_stepped fine]
    rfl

theorem slipped_eq_error_iff {answer : Except Interruption Nat} {slip : Slip} :
    slipped answer = .error slip ↔ slip = .overlong ∧ answer = .error .overlong := by
  match answer with
  | .ok _ => simp [slipped]
  | .error (.fault _) => simp [slipped]
  | .error .overlong => simp [slipped, eq_comm]

/-- Nothing that the clocks, the timers and the meter of a machine compute goes wrong, except that
the window of the meter can be too long for a duration. Then the steps are made and the clocks and
timers run on, but the meter stays as it was. -/
theorem advance_slips_iff {settings : Settings} {entropy : ChaCha.Key} {fresh : Machine}
    (built : Machine.new settings entropy = .ok fresh) (os : List Operation) :
    let m := fresh.driven os
    m.clock.frequency = settings.clockSpeed ∧ m.Timed ∧
      (∀ elapsed,
        m.advanceChecked elapsed =
          ⟨(m.advance elapsed).state, slipped (m.advance elapsed).answer,
            (m.advance elapsed).log⟩ ∧
        m.processor.timers.tickChecked elapsed =
          .ok (m.processor.timers.tick elapsed, m.processor.timers.periods elapsed) ∧
        ∀ slip,
          ((m.advanceChecked elapsed).answer = .error slip ↔
            slip = .overlong ∧
              (∀ k < m.due elapsed, (m.processor.steps k).step.answer = .ok ()) ∧
              Duration.longest.nanoseconds <
                m.meter.elapsed.nanoseconds + elapsed.nanoseconds) ∧
          ((m.advanceChecked elapsed).answer = .error slip →
            (m.advanceChecked elapsed).state = m.unmetered elapsed)) ∧
      ∀ (frequency : UInt32) (os : List Timers.Operation) (elapsed : Duration),
        let t := (Timers.new frequency).driven os
        t.clock.phase < 1000000000 ∧
          t.tickChecked elapsed = .ok (t.tick elapsed, t.periods elapsed) := by
  intro m
  have timed : m.Timed := ((Reachable.new built).driven os).timed
  have frequency : m.clock.frequency = settings.clockSpeed := by
    rw [frequency_driven, eq_of_new built]
  refine ⟨frequency, timed, ?_, ?_⟩
  · intro elapsed
    have checked := advanceChecked_eq timed elapsed
    refine ⟨checked, Timers.tickChecked_eq timed.timers_lt elapsed, fun slip ↦ ?_⟩
    rw [checked, slipped_eq_error_iff, answer_advance_eq_overlong_iff]
    refine ⟨Iff.rfl, ?_⟩
    rintro ⟨-, overlong⟩
    exact state_advance_of_overlong (answer_advance_eq_overlong_iff.mpr overlong)
  · intro frequency os elapsed t
    have start : (Timers.new frequency).clock.phase < 1000000000 := (by decide : 0 < 1000000000)
    have phase := Timers.phase_driven_lt start os
    exact ⟨phase, Timers.tickChecked_eq phase elapsed⟩

def moment : List Operation :=
  [.load #[0x12, 0x00], .advance (.ofParts 0 1)]

theorem driven_moment :
    (newborn.driven moment).meter.elapsed.nanoseconds = 1 ∧
      ∀ n, QuietRun n (newborn.driven moment).processor (newborn.driven moment).processor := by
  have small : (#[0x12, 0x00] : Array UInt8).size ≤ 3584 := by decide
  obtain ⟨memory, loaded⟩ := Memory.blank.exists_load_eq small
  have clock : (newborn.emptied.fill memory #[0x12, 0x00]).clock = { frequency := 500 } := rfl
  have due : (newborn.emptied.fill memory #[0x12, 0x00]).due (.ofParts 0 1) = 0 := by
    rw [due, clock]
    decide
  have metered : (newborn.emptied.fill memory #[0x12, 0x00]).meter.record? (.ofParts 0 1) 0 =
      some { elapsed := .ofParts 0 1 } := rfl
  have filled : newborn.processor.reset.load #[0x12, 0x00] =
      .ok { newborn.processor.reset with memory } :=
    Processor.load_eq_ok_iff.mpr ⟨memory, loaded, rfl⟩
  have fetched := Processor.word_of_load filled rfl
  simp only [moment, driven, List.foldl, Operation.apply, load_of_load_blank newborn loaded,
    advance, due, metered, run, Processor.run_zero, Outcome.map]
  exact ⟨rfl, quietRun_of_jump rfl 0x200 fetched rfl⟩

theorem advance_slips_iff_moment :
    ((newborn.driven moment).advanceChecked .longest).answer = .error .overlong ∧
      ((newborn.driven moment).advanceChecked .longest).state =
        (newborn.driven moment).unmetered .longest := by
  have built : Machine.new .standard (Seed.key 0) = .ok newborn := rfl
  obtain ⟨-, -, checked, -⟩ := advance_slips_iff built moment
  obtain ⟨-, -, slips⟩ := checked .longest
  obtain ⟨iff, state⟩ := slips .overlong
  obtain ⟨window, quiet⟩ := driven_moment
  obtain ⟨-, fine, -, -⟩ := (quiet ((newborn.driven moment).due .longest)).run
  have ok := Processor.fault?_run_eq_none_iff.mp fine
  have more : Duration.longest.nanoseconds <
      (newborn.driven moment).meter.elapsed.nanoseconds + Duration.longest.nanoseconds := by
    rw [window]
    exact Nat.lt_add_of_pos_left Nat.one_pos
  have long := iff.mpr ⟨rfl, ok, more⟩
  exact ⟨long, state long⟩

end Machine

end Chip8
