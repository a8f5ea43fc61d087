import Chip8.Proofs.Processor.Step

namespace Chip8.Processor

/-- The processors on which the steps of a run are made, in order. -/
def stepped : Nat → Processor → List Processor
  | 0, _ => []
  | n + 1, p =>
    p :: match p.step.answer with
      | .ok () => stepped n p.step.state
      | .error _ => []

def steps : Nat → Processor → Processor
  | 0, p => p
  | n + 1, p => steps n p.step.state

/-- The next step fetches `ins` and carries it out. -/
def Executes (p : Processor) (ins : Instruction) : Prop :=
  p.mode = .running ∧ ins.Form p.word.toNat ∧ p.step.answer = .ok ()

structure Spares (ins : Instruction) (p q : Processor) : Prop where
  stack : ins ≠ .ret → (∀ nnn, ins ≠ .call nnn) → q.stack = p.stack
  screen : ins ≠ .clear → (∀ x y n, ins ≠ .draw x y n) → q.screen = p.screen
  clock : q.timers.clock = p.timers.clock
  random : (∀ x kk, ins ≠ .random x kk) → q.random = p.random

structure Idles (p q : Processor) : Prop where
  stack : q.stack = p.stack
  screen : q.screen = p.screen
  timers : q.timers = p.timers
  random : q.random = p.random

variable {p q : Processor} {n : Nat} {ins : Instruction}

theorem spares_execute (e : p.execute ins = .ok q) : Spares ins p q := by
  cases ins with
  | ret =>
    obtain ⟨_, _, _, rfl⟩ := execute_ret_eq_ok_iff.mp e
    exact ⟨fun h ↦ absurd rfl h, fun _ _ ↦ rfl, rfl, fun _ ↦ rfl⟩
  | call nnn =>
    obtain ⟨_, _, rfl⟩ := execute_call_eq_ok_iff.mp e
    exact ⟨fun _ h ↦ absurd rfl (h nnn), fun _ _ ↦ rfl, rfl, fun _ ↦ rfl⟩
  | clear =>
    cases e
    exact ⟨fun _ _ ↦ rfl, fun h ↦ absurd rfl h, rfl, fun _ ↦ rfl⟩
  | draw x y n =>
    cases e
    exact ⟨fun _ _ ↦ rfl, fun _ h ↦ absurd rfl (h x y n), rfl, fun _ ↦ rfl⟩
  | random x kk =>
    cases e
    exact ⟨fun _ _ ↦ rfl, fun _ _ ↦ rfl, rfl, fun h ↦ absurd rfl (h x kk)⟩
  | skipEqByte | skipNeByte | skipEq | skipNe | skipHeld | skipReleased =>
    rw [← Except.ok.inj e, skipIf]
    split <;> exact ⟨fun _ _ ↦ rfl, fun _ _ ↦ rfl, rfl, fun _ ↦ rfl⟩
  | restore x =>
    rw [← Except.ok.inj e]
    exact ⟨fun _ _ ↦ rfl, fun _ _ ↦ rfl, rfl, fun _ ↦ rfl⟩
  | _ =>
    cases e
    exact ⟨fun _ _ ↦ rfl, fun _ _ ↦ rfl, rfl, fun _ ↦ rfl⟩

theorem keypad_mode_execute (e : p.execute ins = .ok q) :
    q.keypad = p.keypad ∧ ((∀ x, ins ≠ .awaitKey x) → q.mode = p.mode) := by
  cases ins with
  | awaitKey x =>
    cases e
    exact ⟨rfl, fun h ↦ absurd rfl (h x)⟩
  | ret =>
    obtain ⟨_, _, _, rfl⟩ := execute_ret_eq_ok_iff.mp e
    exact ⟨rfl, fun _ ↦ rfl⟩
  | call nnn =>
    obtain ⟨_, _, rfl⟩ := execute_call_eq_ok_iff.mp e
    exact ⟨rfl, fun _ ↦ rfl⟩
  | skipEqByte | skipNeByte | skipEq | skipNe | skipHeld | skipReleased =>
    rw [← Except.ok.inj e, skipIf]
    split <;> exact ⟨rfl, fun _ ↦ rfl⟩
  | restore x =>
    rw [← Except.ok.inj e]
    exact ⟨rfl, fun _ ↦ rfl⟩
  | _ =>
    cases e
    exact ⟨rfl, fun _ ↦ rfl⟩

theorem executes_of_execute (mode : p.mode = .running)
    (decoded : Instruction.decode? p.word = some ins)
    (executed : p.advance.execute ins = .ok q) : p.Executes ins ∧ p.step.state = q := by
  have ht := p.transition
  have form := Instruction.decode?_eq_some_iff.mp decoded
  simp only [Executes, mode, form, true_and]
  generalize p.step = o at ht ⊢
  cases ht with
  | halted m | polled m | answered m => simp [mode] at m
  | unknown _ decoded' => simp [decoded] at decoded'
  | refused _ decoded' executed' =>
    obtain rfl := Option.some.inj (decoded.symm.trans decoded')
    simp [executed] at executed'
  | executed _ decoded' executed' =>
    obtain rfl := Option.some.inj (decoded.symm.trans decoded')
    exact ⟨rfl, Except.ok.inj (executed'.symm.trans executed)⟩

theorem Executes.execute_eq (h : p.Executes ins) : p.advance.execute ins = .ok p.step.state := by
  obtain ⟨mode, form, answer⟩ := h
  have decoded := Instruction.decode?_eq_some_iff.mpr form
  have ht := p.transition
  generalize p.step = o at ht answer ⊢
  cases ht with
  | halted m | polled m | answered m => simp [mode] at m
  | unknown | refused => cases answer
  | executed _ decoded' executed =>
    obtain rfl := Option.some.inj (decoded.symm.trans decoded')
    exact executed

theorem Executes.spares (h : p.Executes ins) : Spares ins p p.step.state := by
  obtain ⟨stack, screen, clock, random⟩ := spares_execute h.execute_eq
  exact ⟨stack, screen, clock, random⟩

theorem executes_or_idles (p : Processor) : (∃ ins, p.Executes ins) ∨ Idles p p.step.state := by
  have ht := p.transition
  cases ho : p.step with
  | mk q answer log =>
    rw [ho] at ht
    cases ht with
    | executed mode decoded executed =>
      exact .inl ⟨_, (executes_of_execute mode decoded executed).1⟩
    | _ => exact .inr ⟨rfl, rfl, rfl, rfl⟩

theorem clock_step (p : Processor) : p.step.state.timers.clock = p.timers.clock := by
  obtain ⟨ins, executes⟩ | idles := p.executes_or_idles
  · exact executes.spares.clock
  · exact congrArg Timers.clock idles.timers

theorem clock_steps (n : Nat) (p : Processor) : (p.steps n).timers.clock = p.timers.clock := by
  induction n generalizing p with
  | zero => rfl
  | succ n ih => exact (ih p.step.state).trans p.clock_step

theorem run_succ_of_ok (ok : p.step.answer = .ok ()) :
    (p.run (n + 1)).state = (p.step.state.run n).state ∧
      (p.run (n + 1)).answer =
        ⟨(p.step.state.run n).answer.steps + 1, (p.step.state.run n).answer.fault?⟩ := by
  rw [run_succ]
  match p.step, ok with
  | ⟨_, .ok (), _⟩, _ => exact ⟨rfl, rfl⟩

theorem run_succ_of_error {f : Fault} (error : p.step.answer = .error f) :
    (p.run (n + 1)).state = p.step.state ∧ (p.run (n + 1)).answer = ⟨0, some f⟩ := by
  rw [run_succ]
  match p.step, error with
  | ⟨_, .error _, _⟩, rfl => exact ⟨rfl, rfl⟩

theorem state_run (n : Nat) (p : Processor) :
    (p.run n).state = steps (p.stepped n).length p := by
  induction n generalizing p with
  | zero => rfl
  | succ n ih =>
    cases h : p.step.answer with
    | error f =>
      rw [(run_succ_of_error h).1]
      simp only [stepped, h]
      rfl
    | ok u =>
      rw [(run_succ_of_ok h).1, ih]
      simp only [stepped, h]
      rfl

theorem fault?_run_eq_none_iff :
    (p.run n).answer.fault? = none ↔ ∀ k < n, (p.steps k).step.answer = .ok () := by
  induction n generalizing p with
  | zero => simp [run_zero]
  | succ n ih =>
    cases h : p.step.answer with
    | error f =>
      rw [(run_succ_of_error h).2]
      have first : ¬ (p.steps 0).step.answer = .ok () := by simp [steps, h]
      constructor
      · intro cut
        cases cut
      · intro ok
        exact absurd (ok 0 (Nat.succ_pos n)) first
    | ok u =>
      rw [(run_succ_of_ok h).2, ih]
      constructor
      · intro ok k hk
        cases k with
        | zero => exact h
        | succ k => exact ok k (Nat.lt_of_succ_lt_succ hk)
      · intro ok k hk
        exact ok (k + 1) (Nat.succ_lt_succ hk)

theorem length_stepped (fine : (p.run n).answer.fault? = none) : (p.stepped n).length = n := by
  induction n generalizing p with
  | zero => rfl
  | succ n ih =>
    cases h : p.step.answer with
    | error f =>
      rw [(run_succ_of_error h).2] at fine
      cases fine
    | ok u =>
      rw [(run_succ_of_ok h).2] at fine
      simp only [stepped, h, List.length_cons, ih fine]

theorem mode_step_of_error {f : Fault} (error : p.step.answer = .error f) :
    p.step.state.mode = .halted f := by
  have ht := p.transition
  generalize p.step = o at ht error ⊢
  cases ht with
  | halted mode =>
    cases error
    exact mode
  | unknown | refused =>
    cases error
    rfl
  | polled | answered | executed => cases error

theorem mode_run_of_fault {f : Fault} (fault : (p.run n).answer.fault? = some f) :
    (p.run n).state.mode = .halted f := by
  induction n generalizing p with
  | zero => cases fault
  | succ n ih =>
    cases h : p.step.answer with
    | error g =>
      obtain ⟨state, answer⟩ := run_succ_of_error (n := n) h
      rw [answer] at fault
      cases fault
      rw [state]
      exact mode_step_of_error h
    | ok u =>
      obtain ⟨state, answer⟩ := run_succ_of_ok (n := n) h
      rw [answer] at fault
      rw [state]
      exact ih fault

end Chip8.Processor
