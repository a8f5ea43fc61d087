import Chip8.Machine.Advance

namespace Chip8.Machine

variable {m : Machine} {elapsed : Duration} {n : Nat}

/-- One case for each end that an advance can come to. -/
inductive Advanced (m : Machine) (elapsed : Duration) :
    Outcome Machine (Except Interruption Nat) → Prop
  | faulted {f : Fault} (fault : (m.processor.run (m.due elapsed)).answer.fault? = some f) :
    Advanced m elapsed
      ⟨{ m with
          processor := (m.processor.run (m.due elapsed)).state
          clock := m.clock.advance elapsed },
        .error (.fault f),
        backlogEvents (m.backlog elapsed) ++ (m.processor.run (m.due elapsed)).log⟩
  | overlong (fine : (m.processor.run (m.due elapsed)).answer.fault? = none)
    (long : m.meter.record? elapsed (m.due elapsed) = none) :
    Advanced m elapsed
      ⟨{ m with
          processor := { (m.processor.run (m.due elapsed)).state with
            timers := (m.processor.run (m.due elapsed)).state.timers.tick elapsed }
          clock := m.clock.advance elapsed },
        .error .overlong,
        backlogEvents (m.backlog elapsed) ++ (m.processor.run (m.due elapsed)).log⟩
  | metered {meter : Meter} (fine : (m.processor.run (m.due elapsed)).answer.fault? = none)
    (recorded : m.meter.record? elapsed (m.due elapsed) = some meter) :
    Advanced m elapsed
      ⟨{ m with
          processor := { (m.processor.run (m.due elapsed)).state with
            timers := (m.processor.run (m.due elapsed)).state.timers.tick elapsed }
          clock := m.clock.advance elapsed
          meter },
        .ok (m.due elapsed),
        backlogEvents (m.backlog elapsed) ++ (m.processor.run (m.due elapsed)).log⟩

theorem advanced (m : Machine) (elapsed : Duration) : m.Advanced elapsed (m.advance elapsed) := by
  simp only [advance, run, Outcome.map]
  cases fault : (m.processor.run (m.due elapsed)).answer.fault? with
  | some f => exact .faulted fault
  | none =>
    cases recorded : m.meter.record? elapsed (m.due elapsed) with
    | none => exact .overlong fault recorded
    | some meter => exact .metered fault recorded

theorem clock_advance (m : Machine) (elapsed : Duration) :
    (m.advance elapsed).state.clock = m.clock.advance elapsed := by
  have ha := m.advanced elapsed
  generalize m.advance elapsed = o at ha ⊢
  cases ha <;> rfl

theorem rom_advance (m : Machine) (elapsed : Duration) : (m.advance elapsed).state.rom = m.rom := by
  have ha := m.advanced elapsed
  generalize m.advance elapsed = o at ha ⊢
  cases ha <;> rfl

theorem log_advance (m : Machine) (elapsed : Duration) :
    (m.advance elapsed).log =
      backlogEvents (m.backlog elapsed) ++ (m.processor.run (m.due elapsed)).log := by
  have ha := m.advanced elapsed
  generalize m.advance elapsed = o at ha ⊢
  cases ha <;> rfl

theorem run_of_advance (h : (m.advance elapsed).answer = .ok n) :
    n = m.due elapsed ∧ (m.processor.run (m.due elapsed)).answer.fault? = none := by
  have ha := m.advanced elapsed
  generalize m.advance elapsed = o at ha h
  cases ha with
  | faulted | overlong => cases h
  | metered fine => exact ⟨(Except.ok.inj h).symm, fine⟩

end Chip8.Machine
