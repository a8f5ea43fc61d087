import Chip8.Proofs.Machine.Latching
import Chip8.Proofs.Machine.Timekeeping

namespace Chip8.Machine

/-- Single steps in succession. One that fails does not keep the host from the next. -/
def steps : Nat → Machine → Outcome Machine (List (Except Fault Unit))
  | 0, m => ⟨m, [], []⟩
  | n + 1, m =>
    let first := m.step
    let rest := steps n first.state
    ⟨rest.state, first.answer :: rest.answer, first.log ++ rest.log⟩

variable {m : Machine} {n k : Nat} {f : Fault} {later : List (Except Fault Unit)}
  {elapsed : Duration}

theorem run_succ_of_ok (ok : m.step.answer = .ok ()) :
    m.run (n + 1) =
      ⟨(m.step.state.run n).state,
        ⟨(m.step.state.run n).answer.steps + 1, (m.step.state.run n).answer.fault?⟩,
        m.step.log ++ (m.step.state.run n).log⟩ := by
  simp only [run, step, Outcome.map, Processor.run_succ] at ok ⊢
  generalize m.processor.step = first at ok ⊢
  obtain ⟨q, answer, log⟩ := first
  cases ok
  rfl

theorem run_succ_of_error (error : m.step.answer = .error f) :
    m.run (n + 1) = ⟨m.step.state, ⟨0, some f⟩, m.step.log⟩ := by
  simp only [run, step, Outcome.map, Processor.run_succ] at error ⊢
  generalize m.processor.step = first at error ⊢
  obtain ⟨q, answer, log⟩ := first
  cases error
  rfl

theorem run_of_steps_ok (ok : (m.steps n).answer = List.replicate n (.ok ())) :
    m.run n = ⟨(m.steps n).state, ⟨n, none⟩, (m.steps n).log⟩ := by
  induction n generalizing m with
  | zero => rfl
  | succ n ih =>
    rw [List.replicate_succ] at ok
    obtain ⟨first, rest⟩ := List.cons.inj ok
    rw [run_succ_of_ok first, ih rest]
    rfl

theorem run_of_steps_error
    (cut : (m.steps n).answer = List.replicate k (.ok ()) ++ .error f :: later) :
    m.run n = ⟨(m.steps (k + 1)).state, ⟨k, some f⟩, (m.steps (k + 1)).log⟩ := by
  induction k generalizing m n with
  | zero =>
    cases n with
    | zero => cases cut
    | succ n =>
      obtain ⟨first, -⟩ := List.cons.inj cut
      rw [run_succ_of_error first, steps, steps, List.append_nil]
  | succ k ih =>
    cases n with
    | zero => cases cut
    | succ n =>
      rw [List.replicate_succ, List.cons_append] at cut
      obtain ⟨first, rest⟩ := List.cons.inj cut
      rw [run_succ_of_ok first, ih rest]
      rfl

theorem state_steps (m : Machine) (n : Nat) :
    (m.steps n).state = { m with processor := m.processor.steps n } := by
  induction n generalizing m with
  | zero => rfl
  | succ n ih => exact ih m.step.state

theorem run_clock (m : Machine) (clock : Oscillator) (n : Nat) :
    ({ m with clock } : Machine).run n = (m.run n).map fun m' ↦ { m' with clock } :=
  rfl

theorem advance_of_steps_ok
    (ok : (m.steps (m.due elapsed)).answer = List.replicate (m.due elapsed) (.ok ()))
    (room : m.meter.elapsed.nanoseconds + elapsed.nanoseconds ≤ Duration.longest.nanoseconds) :
    ∃ meter, m.meter.record? elapsed (m.due elapsed) = some meter ∧
      m.advance elapsed =
        ⟨{ (m.steps (m.due elapsed)).state.tick elapsed with
            clock := m.clock.advance elapsed, meter },
          .ok (m.due elapsed),
          backlogEvents (m.backlog elapsed) ++ (m.steps (m.due elapsed)).log⟩ := by
  have sum : m.meter.elapsed.add? elapsed ≠ none := by
    rwa [ne_eq, Duration.add?_eq_none_iff, Nat.not_lt]
  obtain ⟨total, sum⟩ := Option.ne_none_iff_exists'.mp sum
  obtain ⟨meter, recorded⟩ : ∃ meter, m.meter.record? elapsed (m.due elapsed) = some meter := by
    rw [Meter.record?, sum]
    exact ⟨_, rfl⟩
  refine ⟨meter, recorded, ?_⟩
  simp only [advance, run_clock, run_of_steps_ok ok, Outcome.map, recorded]
  rfl

theorem advance_of_steps_error
    (cut : (m.steps (m.due elapsed)).answer = List.replicate k (.ok ()) ++ .error f :: later) :
    m.advance elapsed =
      ⟨{ (m.steps (k + 1)).state with clock := m.clock.advance elapsed },
        .error (.fault f), backlogEvents (m.backlog elapsed) ++ (m.steps (k + 1)).log⟩ := by
  simp only [advance, run_clock, run_of_steps_error cut, Outcome.map]

theorem steps_ok_or_error (m : Machine) (n : Nat) :
    (m.steps n).answer = List.replicate n (.ok ()) ∨
      ∃ k f later, k < n ∧ (m.steps n).answer = List.replicate k (.ok ()) ++ .error f :: later := by
  induction n generalizing m with
  | zero => exact .inl rfl
  | succ n ih =>
    rw [steps, List.replicate_succ]
    cases first : m.step.answer with
    | error f => exact .inr ⟨0, f, _, Nat.succ_pos n, rfl⟩
    | ok _ =>
      obtain ok | ⟨k, f, later, below, cut⟩ := ih m.step.state
      · exact .inl (congrArg _ ok)
      · exact .inr ⟨k + 1, f, later, Nat.succ_lt_succ below, congrArg _ cut⟩

/-- An advance is the steps that are due, at most a second's worth of them, and then a tick. If one
of the steps fails it is the steps up to that one, and besides them only the clock moves on. -/
theorem advance_eq_steps {settings : Settings} {entropy : ChaCha.Key} {fresh : Machine}
    (built : Machine.new settings entropy = .ok fresh) (os : List Operation)
    (elapsed : Duration) :
    let m := fresh.driven os
    let speed := settings.clockSpeed.toNat
    let reading := m.clock.phase + elapsed.nanoseconds * speed
    let n := min speed (reading / 1000000000)
    let dropped := backlogEvents (reading / 1000000000 - speed)
    let clock := { m.clock with phase := reading % 1000000000 }
    ((m.steps n).answer = List.replicate n (.ok ()) →
      m.meter.elapsed.nanoseconds + elapsed.nanoseconds ≤ Duration.longest.nanoseconds →
      ∃ meter, m.meter.record? elapsed n = some meter ∧
        m.advance elapsed =
          ⟨{ (m.steps n).state.tick elapsed with clock, meter }, .ok n,
            dropped ++ (m.steps n).log⟩) ∧
      (∀ k f later, (m.steps n).answer = List.replicate k (.ok ()) ++ .error f :: later →
        m.advance elapsed =
            ⟨{ (m.steps (k + 1)).state with clock }, .error (.fault f),
              dropped ++ (m.steps (k + 1)).log⟩ ∧
          (m.advance elapsed).state.meter = m.meter ∧
          (m.advance elapsed).state.processor.timers.clock = m.processor.timers.clock) ∧
      ((m.steps n).answer = List.replicate n (.ok ()) ∨
        ∃ k f later, k < n ∧
          (m.steps n).answer = List.replicate k (.ok ()) ++ .error f :: later) := by
  intro m speed reading n dropped clock
  have frequency : m.clock.frequency = settings.clockSpeed := by
    rw [frequency_driven, eq_of_new built]
  have read : m.clock.reading elapsed = reading := by
    rw [Oscillator.reading, frequency]
  have due : m.due elapsed = n := by
    rw [Machine.due, Oscillator.ticks, read, frequency]
    exact Nat.min_comm _ _
  have backlog : backlogEvents (m.backlog elapsed) = dropped := by
    rw [Machine.backlog, Oscillator.ticks, read, frequency]
  have later : m.clock.advance elapsed = clock := by
    rw [Oscillator.advance, read]
  refine ⟨fun ok room ↦ ?_, fun k f rest cut ↦ ?_, m.steps_ok_or_error n⟩
  · rw [← due] at ok
    have advanced := advance_of_steps_ok ok room
    rwa [due, backlog, later] at advanced
  · rw [← due] at cut
    have advanced := advance_of_steps_error cut
    rw [backlog, later] at advanced
    rw [advanced, state_steps]
    exact ⟨rfl, rfl, m.processor.clock_steps (k + 1)⟩

theorem steps_ok_of_run (fine : (m.processor.run n).answer.fault? = none) :
    (m.steps n).answer = List.replicate n (.ok ()) := by
  obtain ok | ⟨k, f, later, -, cut⟩ := m.steps_ok_or_error n
  · exact ok
  · have fine : (m.run n).answer.fault? = none := fine
    rw [run_of_steps_error cut] at fine
    cases fine

theorem steps_of_error (error : m.step.answer = .error f) (n : Nat) :
    (m.steps (n + 1)).answer = .error f :: (m.step.state.steps n).answer :=
  congrArg (· :: (m.step.state.steps n).answer) error

theorem advance_eq_steps_idle :
    (∃ meter, idle.advance (.ofParts 0 11000000) =
      ⟨{ (idle.steps 5).state.tick (.ofParts 0 11000000) with
          clock := { frequency := 500, phase := 500000000 }, meter },
        .ok 5, (idle.steps 5).log⟩) ∧
      (newborn.driven [.load #[0x00, 0xEE]]).advance (.ofParts 3 0) =
        ⟨{ ((newborn.driven [.load #[0x00, 0xEE]]).steps 1).state with
            clock := { frequency := 500 } },
          .error (.fault (.stackUnderflow 0x200)),
          .backlogDropped 1000 :: ((newborn.driven [.load #[0x00, 0xEE]]).steps 1).log⟩ := by
  have built : Machine.new .standard (Seed.key 0) = .ok newborn := rfl
  have speed : Settings.standard.clockSpeed.toNat = 500 := rfl
  constructor
  · have clock : idle.clock = { frequency := 500 } := rfl
    have meter : idle.meter = {} := rfl
    have same : newborn.driven [.load #[0x12, 0x00]] = idle := rfl
    have due :
        min 500 ((0 + (Duration.ofParts 0 11000000).nanoseconds * 500) / 1000000000) = 5 := by
      decide
    have none : backlogEvents
        ((0 + (Duration.ofParts 0 11000000).nanoseconds * 500) / 1000000000 - 500) = [] := by decide
    obtain ⟨whole, -, -⟩ := advance_eq_steps built [.load #[0x12, 0x00]] (.ofParts 0 11000000)
    rw [same, clock, speed, due, none, meter, List.nil_append] at whole
    obtain ⟨_, run⟩ := quietRun_idle 5
    obtain ⟨-, fine, -, -⟩ := run.run
    obtain ⟨meter, -, advanced⟩ := whole (steps_ok_of_run fine) (by decide)
    exact ⟨meter, advanced⟩
  · have clock : (newborn.driven [.load #[0x00, 0xEE]]).clock = { frequency := 500 } := rfl
    have due : min 500 ((0 + (Duration.ofParts 3 0).nanoseconds * 500) / 1000000000) = 500 := by
      decide
    obtain ⟨-, cut, -⟩ := advance_eq_steps built [.load #[0x00, 0xEE]] (.ofParts 3 0)
    rw [clock, speed, due] at cut
    obtain ⟨advanced, -, -⟩ := cut 0 _ _ (steps_of_error answer_step_unfounded 499)
    exact advanced

end Chip8.Machine
