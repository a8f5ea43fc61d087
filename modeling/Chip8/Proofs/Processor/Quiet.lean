import Chip8.Proofs.Processor.Run

namespace Chip8.Processor

def untimed (p : Processor) : Processor :=
  { p with timers := .new 0 }

def ReadsDelay (p : Processor) : Prop :=
  p.mode = .running ∧ ∃ x : Fin 16, (Instruction.getDelay x).Form p.word.toNat

variable {p q r : Processor} {n k : Nat}

theorem readsDelay_untimed_iff : p.untimed.ReadsDelay ↔ p.ReadsDelay :=
  Iff.rfl

theorem readsDelay_iff_of_untimed_eq (h : p.untimed = q.untimed) :
    p.ReadsDelay ↔ q.ReadsDelay := by
  rw [← readsDelay_untimed_iff, h, readsDelay_untimed_iff]

theorem untimed_skipIf (condition : Bool) :
    (p.untimed.skipIf condition).untimed = (p.skipIf condition).untimed := by
  cases condition <;> rfl

theorem execute_untimed {ins : Instruction} (h : ∀ x, ins ≠ .getDelay x) :
    (p.untimed.execute ins).map untimed = (p.execute ins).map untimed := by
  cases ins with
  | ret =>
    have hs : p.untimed.stack = p.stack := rfl
    simp only [execute, hs]
    cases p.stack.pop <;> rfl
  | call nnn =>
    have hs : p.untimed.stack = p.stack := rfl
    have hpc : p.untimed.pc = p.pc := rfl
    simp only [execute, hs, hpc]
    cases p.stack.push p.pc <;> rfl
  | skipEqByte | skipNeByte | skipEq | skipNe | skipHeld | skipReleased =>
    exact congrArg Except.ok (untimed_skipIf _)
  | getDelay x => exact absurd rfl (h x)
  | _ => rfl

theorem step_untimed (quiet : ¬ p.ReadsDelay) :
    p.untimed.step.map untimed = p.step.map untimed := by
  cases mode : p.mode with
  | halted f =>
    have mode' : p.untimed.mode = .halted f := mode
    simp only [step, mode, mode']
    rfl
  | awaitingKey x =>
    have mode' : p.untimed.mode = .awaitingKey x := mode
    have held : p.untimed.keypad.firstHeld = p.keypad.firstHeld := rfl
    simp only [step, mode, mode', held]
    cases p.keypad.firstHeld <;> rfl
  | running =>
    refine step_map_eq mode mode rfl rfl rfl rfl (fun _ ↦ rfl) fun ins decoded ↦ ?_
    refine execute_untimed (p := p.advance) fun x hx ↦ quiet ⟨mode, x, ?_⟩
    rw [← Instruction.decode?_eq_some_iff, decoded, hx]

theorem step_congr (h : p.untimed = q.untimed) (quiet : ¬ p.ReadsDelay) :
    p.step.map untimed = q.step.map untimed := by
  have quiet' : ¬ q.ReadsDelay := by rwa [← readsDelay_iff_of_untimed_eq h]
  rw [← step_untimed quiet, h, step_untimed quiet']

/-- A run of `n` steps none of which fails or reads the delay timer. -/
inductive QuietRun : Nat → Processor → Processor → Prop
  | zero (p : Processor) : QuietRun 0 p p
  | cons {n : Nat} {p q : Processor} (quiet : ¬ p.ReadsDelay) (ok : p.step.answer = .ok ())
      (rest : QuietRun n p.step.state q) : QuietRun (n + 1) p q

theorem QuietRun.trans (h : QuietRun n p q) (h' : QuietRun k q r) : QuietRun (n + k) p r := by
  induction h with
  | zero => simpa only [Nat.zero_add] using h'
  | cons quiet ok _ ih => simpa only [Nat.add_right_comm] using QuietRun.cons quiet ok (ih h')

theorem QuietRun.split (h : QuietRun (n + k) p r) : ∃ q, QuietRun n p q ∧ QuietRun k q r := by
  induction n generalizing p with
  | zero => exact ⟨p, .zero p, by simpa only [Nat.zero_add] using h⟩
  | succ n ih =>
    rw [Nat.add_right_comm] at h
    cases h with
    | cons quiet ok rest =>
      obtain ⟨q, hq, hr⟩ := ih rest
      exact ⟨q, .cons quiet ok hq, hr⟩

theorem QuietRun.congr {p' : Processor} (h : QuietRun n p q) (hp : p.untimed = p'.untimed) :
    ∃ q', QuietRun n p' q' ∧ q.untimed = q'.untimed := by
  induction h generalizing p' with
  | zero p => exact ⟨p', .zero p', hp⟩
  | cons quiet ok _ ih =>
    have hs := step_congr hp quiet
    simp only [Outcome.map, Outcome.mk.injEq] at hs
    obtain ⟨state, answer, -⟩ := hs
    obtain ⟨q', hq, he⟩ := ih state
    rw [readsDelay_iff_of_untimed_eq hp] at quiet
    exact ⟨q', .cons quiet (answer.symm.trans ok) hq, he⟩

theorem QuietRun.clock (h : QuietRun n p q) : q.timers.clock = p.timers.clock := by
  induction h with
  | zero => rfl
  | cons _ _ _ ih => exact ih.trans (clock_step _)

theorem quietRun_of_run (fine : (p.run n).answer.fault? = none)
    (quiet : ∀ q ∈ p.stepped n, ¬ q.ReadsDelay) : QuietRun n p (p.run n).state := by
  induction n generalizing p with
  | zero => exact .zero p
  | succ n ih =>
    cases h : p.step.answer with
    | error f =>
      rw [(run_succ_of_error h).2] at fine
      cases fine
    | ok u =>
      obtain ⟨state, answer⟩ := run_succ_of_ok (n := n) h
      rw [answer] at fine
      simp only [stepped, h, List.forall_mem_cons] at quiet
      rw [state]
      exact .cons quiet.1 h (ih fine quiet.2)

theorem QuietRun.run (h : QuietRun n p q) :
    (p.run n).state = q ∧ (p.run n).answer.fault? = none ∧ (p.stepped n).length = n ∧
      ∀ r ∈ p.stepped n, ¬ r.ReadsDelay := by
  induction h with
  | zero p => exact ⟨rfl, rfl, rfl, by simp [stepped]⟩
  | cons quiet ok _ ih =>
    obtain ⟨hs, hf, hl, hq⟩ := ih
    obtain ⟨state, answer⟩ := run_succ_of_ok ok
    refine ⟨state.trans hs, by rw [answer]; exact hf, ?_, ?_⟩
    · simp only [stepped, ok, List.length_cons, hl]
    · simp only [stepped, ok, List.forall_mem_cons]
      exact ⟨quiet, hq⟩

end Chip8.Processor
