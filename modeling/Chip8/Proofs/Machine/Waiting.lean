import Chip8.Proofs.Machine.Nesting
import Chip8.Proofs.Machine.Restart
import Chip8.Proofs.Processor.Waiting

namespace Chip8.Machine

def Operation.Attends : Operation → Prop
  | .tick _ | .press _ | .release _ | .setKeys _ | .takeFrame | .status => True
  | .step | .advance _ | .load _ | .loadFrom _ | .reset => False

variable {m : Machine} {o : Operation} {os : List Operation} {p : Processor} {x : Fin 16}

theorem processor_step (m : Machine) : m.step.state.processor = m.processor.step.state :=
  rfl

theorem matches_apply (h : p.Matches m.processor) (attends : o.Attends) :
    p.Matches (o.apply m).processor := by
  rw [processor_apply]
  refine h.driven ?_
  cases o with
  | tick | press | release | setKeys | takeFrame => exact List.forall_mem_singleton.mpr trivial
  | status => exact List.forall_mem_nil _
  | _ => exact attends.elim

theorem matches_driven_of_released (h : p.Matches m.processor) (mode : p.mode = .awaitingKey x)
    (attends : ∀ o ∈ os, o = .step ∨ o.Attends)
    (released : ∀ n, (n, .step) ∈ trace os m → n.processor.keypad.mask = 0) :
    p.Matches (m.driven os).processor := by
  induction os generalizing m with
  | nil => exact h
  | cons o os ih =>
    rw [List.forall_mem_cons] at attends
    refine ih ?_ attends.2 fun n hn ↦ released n (List.mem_cons_of_mem _ hn)
    obtain rfl | attends := attends.1
    · exact h.step mode (released m List.mem_cons_self)
    · exact matches_apply h attends

theorem state_apply_of_attends (h : o = .step ∨ o.Attends) :
    o.apply m = { m with processor := (o.apply m).processor } := by
  obtain rfl | attends := h
  · rfl
  cases o with
  | tick | press | release | setKeys | takeFrame | status => rfl
  | _ => exact attends.elim

theorem state_driven_of_attends (attends : ∀ o ∈ os, o = .step ∨ o.Attends) :
    m.driven os = { m with processor := (m.driven os).processor } := by
  induction os generalizing m with
  | nil => rfl
  | cons o os ih =>
    rw [List.forall_mem_cons] at attends
    calc
      m.driven (o :: os) = { o.apply m with processor := (m.driven (o :: os)).processor } :=
        ih attends.2
      _ = { m with processor := (m.driven (o :: os)).processor } := by
        rw [state_apply_of_attends attends.1]

/-- An instruction that awaits a key does nothing else, and what comes of the processor is a
handshake, for as long as no step finds a key held. -/
theorem handshake_of_awaitKey (mode : p.mode = .running)
    (fetched : p.word.toNat = 0xF00A + 0x100 * x) :
    p.step = ⟨p.waiting x, .ok (), [.executing p.word p.v p.i p.pc, .awaitingKey x]⟩ ∧
      (∀ os : List Processor.Operation, (∀ o ∈ os, o = .step ∨ o.Attends) →
        (∀ q, (q, .step) ∈ Processor.trace os (p.waiting x) → q.keypad.mask = 0) →
        p.Handshake x ((p.waiting x).driven os)) ∧
      ∀ m : Machine, m.processor = p → ∀ os : List Operation,
        (∀ o ∈ os, o = .step ∨ o.Attends) →
        (∀ n, (n, .step) ∈ trace os m.step.state → n.processor.keypad.mask = 0) →
        m.step.state.driven os =
            { m with processor := (m.step.state.driven os).processor } ∧
          p.Handshake x (m.step.state.driven os).processor := by
  have begun := Processor.step_of_awaitKey mode fetched
  refine ⟨begun, fun os attends released ↦ ?_, ?_⟩
  · exact ((Processor.Matches.refl _).driven_of_released rfl attends released).handshake
  · rintro m rfl os attends released
    have start : (m.processor.waiting x).Matches m.step.state.processor := by
      rw [processor_step, begun]
      exact .refl _
    exact ⟨state_driven_of_attends attends,
      (matches_driven_of_released start rfl attends released).handshake⟩

def attentive : Machine :=
  newborn.driven [.load #[0xF5, 0x0A]]

theorem handshake_of_awaitKey_attentive :
    let q :=
      (attentive.step.state.driven [.step, .tick .second, .setKeys 0x220, .takeFrame]).processor
    attentive.processor.Handshake 5 q ∧ q.step.log = [.keyStored 5 5] := by
  intro q
  have built : Machine.new .standard (Seed.key 0) = .ok newborn := rfl
  have fetched : attentive.processor.word.toNat = 0xF00A + 0x100 * (5 : Fin 16) :=
    (Reachable.new built).word_load (by decide)
  obtain ⟨begun, -, handshake⟩ := handshake_of_awaitKey rfl fetched
  have waiting : attentive.step.state.processor = attentive.processor.waiting 5 := by
    rw [processor_step, begun]
  have released : (attentive.processor.waiting 5).keypad = .released := rfl
  have handshake : attentive.processor.Handshake 5 q := by
    refine (handshake attentive rfl _ ?_ fun n hn ↦ ?_).2
    · simp [Operation.Attends]
    · simp only [trace, List.mem_cons, Prod.mk.injEq, and_true, reduceCtorEq, and_false, or_false,
        List.not_mem_nil] at hn
      rw [hn, waiting, released]
      rfl
  have held (m : Machine) :
      (m.driven [.step, .tick .second, .setKeys 0x220, .takeFrame]).processor.keypad = ⟨0x220⟩ :=
    rfl
  have lowest : q.keypad.firstHeld = some 5 := by
    rw [held attentive.step.state]
    decide
  exact ⟨handshake, congrArg Outcome.log (Processor.step_of_held handshake.kept.mode lowest)⟩

end Chip8.Machine
