import Chip8.Proofs.Machine.Recording
import Chip8.Proofs.Text.Diagnosis

namespace Chip8

theorem Event.ofStep_of_isDiagnosis (e : Event) (h : e.isDiagnosis = true) : e.OfStep := by
  obtain trace | error := of_decide_eq_true h
  · exact e.ofStep_iff.mpr (.inl trace)
  · exact e.ofStep_iff.mpr (.inr (.inl error))

namespace Processor

/-- What a step tells of how it found the processor, and of the fault that it came upon. -/
def diagnoses (p : Processor) : List Event :=
  match p.mode, p.step.answer with
  | .running, .ok () => [.executing p.word p.v p.i p.pc]
  | .running, .error fault => [.executing p.word p.v p.i p.pc, .halting fault]
  | .awaitingKey _, _ | .halted _, _ => []

theorem filter_isDiagnosis_step (p : Processor) :
    p.step.log.filter Event.isDiagnosis = p.diagnoses := by
  have ht := p.transition
  unfold diagnoses
  generalize p.step = o at ht ⊢
  cases ht with
  | halted mode | polled mode | answered mode | unknown mode | refused mode =>
    simp only [mode]
    rfl
  | @executed ins q mode =>
    have silent : (announcement ins).filter Event.isDiagnosis = [] := by
      cases ins <;> rfl
    simp only [mode]
    rw [List.filter_cons_of_pos rfl, silent]

end Processor

namespace Machine

theorem filter_isDiagnosis_logged (os : List Operation) (m : Machine) :
    (logged os m).filter Event.isDiagnosis = (attempts os m).flatMap Processor.diagnoses := by
  rw [← Event.filter_filter_ofStep _ Event.ofStep_of_isDiagnosis, filter_ofStep_logged,
    List.filter_flatMap]
  simp only [Processor.filter_isDiagnosis_step]

/-- A fault is known from its message, and what an instruction found from the line written of it. So
the lines of a log give back all instructions and faults in order, whatever is done to a machine. -/
theorem diagnoses_reread :
    (∀ fault, Fault.ofMessage? fault.message = some fault) ∧
    (∀ fault other : Fault, fault.message = other.message ↔ fault = other) ∧
    (∀ (word : UInt16) (v : Vector UInt8 16) (i pc : UInt16),
      Event.ofLine? (Event.executing word v i pc).line = some (.executing word v i pc)) ∧
    (∀ (word word' : UInt16) (v v' : Vector UInt8 16) (i i' pc pc' : UInt16),
      (Event.executing word v i pc).line = (Event.executing word' v' i' pc').line ↔
        word = word' ∧ v = v' ∧ i = i' ∧ pc = pc') ∧
    (∀ p : Processor, (Event.lines .trace p.step.log).filterMap Event.ofLine? = p.diagnoses) ∧
    ∀ (os : List Operation) (m : Machine),
      (Event.lines .trace (logged os m)).filterMap Event.ofLine? =
        (attempts os m).flatMap Processor.diagnoses := by
  refine ⟨Fault.ofMessage?_message, fun _ _ ↦ Fault.message_inj, ?_,
    fun _ _ _ _ _ _ _ _ ↦ Event.line_executing_inj, ?_, ?_⟩
  · intro word v i pc
    exact Event.ofLine?_line _
  · intro p
    rw [Event.lines_trace, Event.filterMap_ofLine?, p.filter_isDiagnosis_step]
  · intro os m
    rw [Event.lines_trace, Event.filterMap_ofLine?, filter_isDiagnosis_logged]

end Machine

end Chip8
