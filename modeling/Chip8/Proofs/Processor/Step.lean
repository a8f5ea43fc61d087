import Chip8.Proofs.Instruction.Form
import Chip8.Processor.Step

namespace Chip8.Processor

variable {p : Processor}

def word (p : Processor) : UInt16 :=
  p.memory.readWord p.pc

/-- One case for each way in which a step can go. -/
inductive Transition (p : Processor) : Outcome Processor (Except Fault Unit) → Prop
  | halted {f : Fault} (mode : p.mode = .halted f) : Transition p ⟨p, .error f, []⟩
  | polled {x : Fin 16} (mode : p.mode = .awaitingKey x) (released : p.keypad.firstHeld = none) :
      Transition p ⟨p, .ok (), []⟩
  | answered {x key : Fin 16} (mode : p.mode = .awaitingKey x)
      (held : p.keypad.firstHeld = some key) :
      Transition p ⟨{ p.set x (.ofNat key) with
        keypad := p.keypad.release (.ofNat key), mode := .running }, .ok (), [.keyStored key x]⟩
  | unknown (mode : p.mode = .running) (decoded : Instruction.decode? p.word = none) :
      Transition p ⟨p.advance.halt (.unknownOpcode p.word p.pc),
        .error (.unknownOpcode p.word p.pc),
        [.executing p.word p.v p.i p.pc, .halting (.unknownOpcode p.word p.pc)]⟩
  | refused {ins : Instruction} {e : StackError} (mode : p.mode = .running)
      (decoded : Instruction.decode? p.word = some ins)
      (executed : p.advance.execute ins = .error e) :
      Transition p ⟨p.advance.halt (e.fault p.advance.instructionAddress),
        .error (e.fault p.advance.instructionAddress),
        [.executing p.word p.v p.i p.pc, .halting (e.fault p.advance.instructionAddress)]⟩
  | executed {ins : Instruction} {q : Processor} (mode : p.mode = .running)
      (decoded : Instruction.decode? p.word = some ins)
      (executed : p.advance.execute ins = .ok q) :
      Transition p ⟨q, .ok (), .executing p.word p.v p.i p.pc :: announcement ins⟩

theorem transition (p : Processor) : p.Transition p.step := by
  cases mode : p.mode with
  | halted f =>
    simp only [step, mode]
    exact .halted mode
  | awaitingKey x =>
    simp only [step, mode]
    cases held : p.keypad.firstHeld with
    | none => exact .polled mode held
    | some key => exact .answered mode held
  | running =>
    simp only [step, mode, perform]
    cases decoded : Instruction.decode? (p.memory.readWord p.pc) with
    | none => exact .unknown mode decoded
    | some ins =>
      cases executed : p.advance.execute ins with
      | error e =>
        simp only [executed]
        exact .refused mode decoded executed
      | ok q =>
        simp only [executed]
        exact .executed mode decoded executed

theorem step_of_running (mode : p.mode = .running) :
    p.step = match p.advance.perform p.word p.pc with
      | .error f =>
        ⟨p.advance.halt f, .error f, [.executing p.word p.v p.i p.pc, .halting f]⟩
      | .ok (q, events) => ⟨q, .ok (), .executing p.word p.v p.i p.pc :: events⟩ := by
  simp only [step, mode]
  rfl

theorem answer_step_of_refused {ins : Instruction} {e : StackError} (mode : p.mode = .running)
    (decoded : Instruction.decode? p.word = some ins)
    (refused : p.advance.execute ins = .error e) :
    p.step.answer = .error (e.fault p.advance.instructionAddress) := by
  simp only [step_of_running mode, perform, decoded, refused]

theorem perform_of_form {ins : Instruction} {q : Processor} {w address : UInt16}
    (form : ins.Form w.toNat) (executed : p.execute ins = .ok q) :
    p.perform w address = .ok (q, announcement ins) := by
  simp only [perform, Instruction.decode?_eq_some_iff.mpr form, executed]

/-- Two processors with the same word before them step alike, as far as `f` and `g` can tell, if
they execute the instruction alike. -/
theorem step_map_eq {q : Processor} {f g : Processor → Processor} (mode : p.mode = .running)
    (mode' : q.mode = .running) (word : q.word = p.word) (v : q.v = p.v) (i : q.i = p.i)
    (pc : q.pc = p.pc) (halted : ∀ fault, g (q.advance.halt fault) = f (p.advance.halt fault))
    (executed : ∀ ins, Instruction.decode? p.word = some ins →
      (q.advance.execute ins).map g = (p.advance.execute ins).map f) :
    q.step.map g = p.step.map f := by
  have address : q.advance.instructionAddress = p.advance.instructionAddress := by
    simp only [advance, instructionAddress, pc]
  rw [step_of_running mode, step_of_running mode', word, v, i, pc]
  unfold perform
  cases decoded : Instruction.decode? p.word with
  | none => simp only [Outcome.map, halted]
  | some ins =>
    have executed := executed ins decoded
    cases hp : p.advance.execute ins with
    | error e =>
      cases hq : q.advance.execute ins with
      | error e' =>
        rw [hp, hq] at executed
        obtain rfl := Except.error.inj executed
        simp only [hp, hq, Outcome.map, halted, address]
      | ok u => simp [hp, hq, Except.map] at executed
    | ok r =>
      cases hq : q.advance.execute ins with
      | error e => simp [hp, hq, Except.map] at executed
      | ok u =>
        rw [hp, hq] at executed
        simp only [hp, hq, Outcome.map, Except.ok.inj executed]

theorem execute_ret_eq_ok_iff {q : Processor} :
    p.execute .ret = .ok q ↔
      ∃ pc stack, p.stack.pop = .ok (pc, stack) ∧ { p with pc, stack } = q := by
  cases h : p.stack.pop with
  | error e => simp [execute, h, Except.map]
  | ok r =>
    obtain ⟨pc, stack⟩ := r
    simp only [execute, h, Except.map, Except.ok.injEq, Prod.mk.injEq]
    constructor
    · intro e
      exact ⟨pc, stack, ⟨rfl, rfl⟩, e⟩
    · intro h
      obtain ⟨_, _, ⟨rfl, rfl⟩, e⟩ := h
      exact e

theorem execute_call_eq_ok_iff {q : Processor} {nnn : Fin 4096} :
    p.execute (.call nnn) = .ok q ↔
      ∃ stack, p.stack.push p.pc = .ok stack ∧ { p with pc := .ofNat nnn, stack } = q := by
  cases h : p.stack.push p.pc <;> simp [execute, h, Except.map]

theorem execute_eq_error_iff {ins : Instruction} {e : StackError} :
    p.execute ins = .error e ↔
      ins = .ret ∧ p.stack.depth = 0 ∧ e = .underflow ∨
        ∃ nnn, ins = .call nnn ∧ p.stack.depth = 16 ∧ e = .overflow := by
  cases ins with
  | ret =>
    have h := CallStack.pop_eq_error_iff (s := p.stack) (e := e)
    cases hp : p.stack.pop <;> simp_all [execute, Except.map]
  | call nnn =>
    have h := CallStack.push_eq_error_iff (s := p.stack) (a := p.pc) (e := e)
    cases hp : p.stack.push p.pc <;> simp_all [execute, Except.map]
  | _ => simp [execute]

end Chip8.Processor
