import Chip8.Proofs.Processor.Run

namespace Chip8

/-- Events that nothing but a step writes. -/
def Event.OfStep : Event → Prop
  | .executing .. | .awaitingKey _ | .keyStored .. | .halting _ => True
  | .backlogDropped _ | .loaded _ | .restarted | .registers .. | .register .. | .timers .. => False

instance : DecidablePred Event.OfStep
  | .executing .. | .awaitingKey _ | .keyStored .. | .halting _ => .isTrue trivial
  | .backlogDropped _ | .loaded _ | .restarted | .registers .. | .register .. | .timers .. =>
    .isFalse not_false

namespace Processor

variable {p : Processor} {e : Event}

theorem ofStep_of_mem_announcement {ins : Instruction} (h : e ∈ announcement ins) : e.OfStep := by
  cases ins with
  | awaitKey x =>
    obtain rfl := List.mem_singleton.mp h
    trivial
  | _ => cases h

theorem ofStep_of_mem_step (h : e ∈ p.step.log) : e.OfStep := by
  have ht := p.transition
  generalize p.step = o at ht h
  cases ht with
  | halted | polled => cases h
  | answered =>
    obtain rfl := List.mem_singleton.mp h
    trivial
  | unknown | refused =>
    rw [List.mem_cons, List.mem_singleton] at h
    obtain rfl | rfl := h <;> trivial
  | executed =>
    obtain rfl | h := List.mem_cons.mp h
    · trivial
    · exact ofStep_of_mem_announcement h

theorem ofStep_of_mem_run {n : Nat} (h : e ∈ (p.run n).log) : e.OfStep := by
  induction n generalizing p with
  | zero => cases h
  | succ n ih =>
    have first (h : e ∈ p.step.log) : e.OfStep := ofStep_of_mem_step h
    rw [run_succ] at h
    generalize p.step = o at h first
    match o, h, first with
    | ⟨_, .error _, _⟩, h, first => exact first h
    | ⟨_, .ok (), _⟩, h, first =>
      obtain h | h := List.mem_append.mp h
      · exact first h
      · exact ih h

end Processor

end Chip8
