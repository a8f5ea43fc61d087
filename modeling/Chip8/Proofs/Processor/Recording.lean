import Chip8.Proofs.Processor.Log
import Chip8.Proofs.Processor.Reachable
import Chip8.Proofs.Text.Line
import Mathlib.Data.List.Induction

namespace Chip8

namespace Event

def isKeypress : Event → Bool
  | .awaitingKey _ | .keyStored .. => true
  | _ => false

/-- Waits that are over, each for a register and ended by a key. -/
def waits (ended : List (Fin 16 × Fin 16)) : List Event :=
  ended.flatMap fun w ↦ [.awaitingKey w.1, .keyStored w.2 w.1]

theorem ofStep_iff (e : Event) :
    e.OfStep ↔ e.level = .trace ∨ e.level = .error ∨ e.isKeypress = true := by
  cases e <;> simp [OfStep, level, isKeypress]

theorem filter_filter_ofStep (kept : Event → Bool) (h : ∀ e, kept e = true → e.OfStep)
    (log : List Event) : (log.filter fun e ↦ e.OfStep).filter kept = log.filter kept := by
  rw [List.filter_filter]
  refine List.filter_congr fun e _ ↦ ?_
  cases keeps : kept e with
  | false => rfl
  | true => rw [decide_eq_true (h e keeps), Bool.true_and]

theorem getLast?_waits_ne (ended : List (Fin 16 × Fin 16)) (x : Fin 16) :
    (waits ended).getLast? ≠ some (.awaitingKey x) := by
  obtain rfl | ⟨ended, w, rfl⟩ := List.eq_nil_or_concat ended
  · simp [waits]
  · simp [waits, List.getLast?_append]

end Event

namespace Mode

def waits : Mode → List Event
  | .awaitingKey x => [.awaitingKey x]
  | .running | .halted _ => []

def failures : Mode → List Event
  | .halted f => [.halting f]
  | .running | .awaitingKey _ => []

theorem length_failures_le (mode : Mode) : mode.failures.length ≤ 1 := by
  cases mode <;> simp [failures]

theorem eq_awaitingKey_iff (mode : Mode) (ended : List (Fin 16 × Fin 16)) (x : Fin 16) :
    mode = .awaitingKey x ↔
      (Event.waits ended ++ mode.waits).getLast? = some (.awaitingKey x) := by
  cases mode with
  | awaitingKey y => simp [waits]
  | running | halted =>
    rw [waits, List.append_nil]
    exact iff_of_false nofun (Event.getLast?_waits_ne ended x)

end Mode

namespace Processor

def Operation.log (p : Processor) : Operation → List Event
  | .step => p.step.log
  | _ => []

def Operation.attempts (p : Processor) : Operation → List Processor
  | .step => [p]
  | _ => []

def logged (os : List Operation) (p : Processor) : List Event :=
  (trace os p).flatMap fun c ↦ c.2.log c.1

def attempts (os : List Operation) (p : Processor) : List Processor :=
  (trace os p).flatMap fun c ↦ c.2.attempts c.1

/-- `log` retells the steps that were made on `ps` one after another and that have led to `mode`. -/
structure Retells (log : List Event) (ps : List Processor) (mode : Mode) : Prop where
  complete : Event.lines .trace log = log.map Event.line
  steps : (log.filter fun e ↦ e.OfStep) = ps.flatMap fun p ↦ p.step.log
  traced : (log.filter fun e ↦ e.level = .trace) =
    (ps.filter fun p ↦ p.mode = .running).map fun p ↦ .executing p.word p.v p.i p.pc
  begun : ∀ p ∈ ps, (p.step.log.filter fun e ↦ e.level = .trace) =
    if p.mode = .running then [.executing p.word p.v p.i p.pc] else []
  faulted : ∀ p ∈ ps, p.mode = .running → ∀ f, p.step.answer = .error f →
    p.step.log = [.executing p.word p.v p.i p.pc, .halting f]
  failures : (log.filter fun e ↦ e.level = .error) = mode.failures
  last : ∀ before f after, log = before ++ .halting f :: after →
    ∀ e ∈ after, e.level ≠ .trace ∧ e.level ≠ .error ∧ e.isKeypress = false
  waits : ∃ ended, log.filter Event.isKeypress = Event.waits ended ++ mode.waits
  awaiting_iff : ∀ x, mode = .awaitingKey x ↔
    (log.filter Event.isKeypress).getLast? = some (.awaitingKey x)

/-- All that a step can write, and the mode in which it leaves the processor. -/
inductive Passage (p : Processor) : List Event → Mode → Prop
  | idle (mode : p.mode ≠ .running) : Passage p [] p.mode
  | answered {x : Fin 16} (mode : p.mode = .awaitingKey x) (key : Fin 16) :
    Passage p [.keyStored key x] .running
  | executed (mode : p.mode = .running) : Passage p [.executing p.word p.v p.i p.pc] .running
  | awaited (mode : p.mode = .running) (x : Fin 16) :
    Passage p [.executing p.word p.v p.i p.pc, .awaitingKey x] (.awaitingKey x)
  | faulted (mode : p.mode = .running) (f : Fault) :
    Passage p [.executing p.word p.v p.i p.pc, .halting f] (.halted f)

structure LeadsTo (log : List Event) (mode : Mode) : Prop where
  fails : ∃ before, log = before ++ mode.failures ∧ ∀ e ∈ before, e.level ≠ .error
  waits : ∃ ended, log.filter Event.isKeypress = Event.waits ended ++ mode.waits

variable {p : Processor} {o : Operation} {os : List Operation} {ps : List Processor}
  {ins : Instruction} {mode : Mode} {log written : List Event} {f : Fault}

theorem announcement_eq_nil (other : ∀ x, ins ≠ .awaitKey x) : announcement ins = [] := by
  cases ins with
  | awaitKey x => exact absurd rfl (other x)
  | _ => rfl

theorem passage_step (p : Processor) : p.Passage p.step.log p.step.state.mode := by
  have ht := p.transition
  generalize p.step = o at ht ⊢
  cases ht with
  | halted mode | polled mode => exact .idle (by simp [mode])
  | @answered x key mode => exact .answered mode key
  | unknown mode | refused mode => exact .faulted mode _
  | @executed ins q mode decoded executed =>
    by_cases awaits : ∃ x, ins = .awaitKey x
    · obtain ⟨x, rfl⟩ := awaits
      cases executed
      exact .awaited mode x
    · have other : ∀ x, ins ≠ .awaitKey x := fun x same ↦ awaits ⟨x, same⟩
      have running : q.mode = .running := ((keypad_mode_execute executed).2 other).trans mode
      rw [announcement_eq_nil other, running]
      exact .executed mode

theorem Passage.traced (h : p.Passage written mode) :
    (written.filter fun e ↦ e.level = .trace) =
      if p.mode = .running then [.executing p.word p.v p.i p.pc] else [] := by
  cases h with
  | idle mode => rw [if_neg mode, List.filter_nil]
  | answered mode => simp [mode, Event.level]
  | executed mode | awaited mode | faulted mode => simp [mode, Event.level]

theorem traced_steps (ps : List Processor) :
    ((ps.flatMap fun p ↦ p.step.log).filter fun e ↦ e.level = .trace) =
      (ps.filter fun p ↦ p.mode = .running).map fun p ↦ .executing p.word p.v p.i p.pc := by
  induction ps with
  | nil => rfl
  | cons p ps ih =>
    rw [List.flatMap_cons, List.filter_append, p.passage_step.traced, ih]
    by_cases mode : p.mode = .running <;> simp [mode]

theorem log_step_of_error (mode : p.mode = .running) (error : p.step.answer = .error f) :
    p.step.log = [.executing p.word p.v p.i p.pc, .halting f] := by
  have ht := p.transition
  generalize p.step = o at ht error ⊢
  cases ht with
  | halted halted => simp [mode] at halted
  | unknown | refused =>
    cases error
    rfl
  | polled | answered | executed => cases error

theorem Passage.fails (h : p.Passage written mode) :
    (written = [] ∧ mode = p.mode) ∨
      p.mode.failures = [] ∧ ∃ before, written = before ++ mode.failures ∧
        ∀ e ∈ before, e.level ≠ .error := by
  cases h with
  | idle => exact .inl ⟨rfl, rfl⟩
  | @answered x mode key =>
    exact .inr ⟨by rw [mode]; rfl, [.keyStored key x], rfl, by simp [Event.level]⟩
  | executed mode =>
    exact .inr ⟨by rw [mode]; rfl, [.executing p.word p.v p.i p.pc], rfl, by simp [Event.level]⟩
  | awaited mode x =>
    exact .inr ⟨by rw [mode]; rfl, [.executing p.word p.v p.i p.pc, .awaitingKey x], rfl,
      by simp [Event.level]⟩
  | faulted mode f =>
    exact .inr ⟨by rw [mode]; rfl, [.executing p.word p.v p.i p.pc], rfl, by simp [Event.level]⟩

theorem Passage.waits (h : p.Passage written mode) :
    ∃ ended, p.mode.waits ++ written.filter Event.isKeypress = Event.waits ended ++ mode.waits := by
  cases h with
  | idle => exact ⟨[], by rw [List.filter_nil, List.append_nil]; rfl⟩
  | @answered x mode key => exact ⟨[(x, key)], by rw [mode]; rfl⟩
  | executed mode | awaited mode | faulted mode => exact ⟨[], by rw [mode]; rfl⟩

theorem LeadsTo.passage (h : LeadsTo log p.mode) (passage : p.Passage written mode) :
    LeadsTo (log ++ written) mode := by
  constructor
  case fails =>
    obtain ⟨before, fails, fine⟩ := h.fails
    obtain ⟨rfl, rfl⟩ | ⟨none, before', written, fine'⟩ := passage.fails
    · exact ⟨before, by rw [List.append_nil, fails], fine⟩
    · rw [none, List.append_nil] at fails
      refine ⟨before ++ before', by rw [fails, written, List.append_assoc], ?_⟩
      rw [List.forall_mem_append]
      exact ⟨fine, fine'⟩
  case waits =>
    obtain ⟨ended, waits⟩ := h.waits
    obtain ⟨ended', waits'⟩ := passage.waits
    refine ⟨ended ++ ended', ?_⟩
    calc
      (log ++ written).filter Event.isKeypress =
          Event.waits ended ++ (p.mode.waits ++ written.filter Event.isKeypress) := by
        rw [List.filter_append, waits, List.append_assoc]
      _ = Event.waits (ended ++ ended') ++ mode.waits := by
        rw [waits', Event.waits, Event.waits, Event.waits, List.flatMap_append,
          List.append_assoc]

theorem mode_apply (step : o ≠ .step) (reset : o ≠ .reset) : (o.apply p).mode = p.mode := by
  cases o with
  | step => exact absurd rfl step
  | reset => exact absurd rfl reset
  | load rom =>
    simp only [Operation.apply, load]
    cases p.memory.load rom <;> rfl
  | _ => rfl

theorem trace_append (os os' : List Operation) (p : Processor) :
    trace (os ++ os') p = trace os p ++ trace os' (p.driven os) := by
  induction os generalizing p with
  | nil => rfl
  | cons o os ih => exact congrArg ((p, o) :: ·) (ih (o.apply p))

theorem attempts_append (os os' : List Operation) (p : Processor) :
    attempts (os ++ os') p = attempts os p ++ attempts os' (p.driven os) := by
  rw [attempts, trace_append, List.flatMap_append]
  rfl

theorem attempts_replicate_step (n : Nat) (p : Processor) :
    attempts (List.replicate (p.stepped n).length .step) p = p.stepped n := by
  induction n generalizing p with
  | zero => rfl
  | succ n ih =>
    rw [stepped, List.length_cons, List.replicate_succ, attempts, trace, List.flatMap_cons]
    refine congrArg (p :: ·) ?_
    cases p.step.answer with
    | error => rfl
    | ok => exact ih p.step.state

theorem log_eq_flatMap_attempts (p : Processor) (o : Operation) :
    o.log p = (o.attempts p).flatMap fun p ↦ p.step.log := by
  cases o with
  | step => exact (List.flatMap_singleton ..).symm
  | _ => rfl

theorem logged_eq_flatMap_attempts (os : List Operation) (p : Processor) :
    logged os p = (attempts os p).flatMap fun p ↦ p.step.log := by
  simp only [logged, attempts, List.flatMap_assoc, log_eq_flatMap_attempts]

theorem log_run (n : Nat) (p : Processor) :
    (p.run n).log = (p.stepped n).flatMap fun q ↦ q.step.log := by
  induction n generalizing p with
  | zero => rfl
  | succ n ih =>
    simp only [run_succ, stepped, List.flatMap_cons]
    generalize p.step = o
    obtain ⟨q, answer, log⟩ := o
    cases answer with
    | error => simp
    | ok => simp [ih]

theorem leadsTo_driven (running : p.mode = .running) (stays : .reset ∉ os) :
    LeadsTo ((attempts os p).flatMap fun p ↦ p.step.log) (p.driven os).mode := by
  induction os using List.reverseRecOn with
  | nil =>
    rw [driven, List.foldl_nil, running]
    exact ⟨⟨[], rfl, List.forall_mem_nil _⟩, [], rfl⟩
  | append_singleton os o ih =>
    simp only [List.mem_append, List.mem_singleton, not_or] at stays
    have attempts_concat : attempts (os ++ [o]) p = attempts os p ++ o.attempts (p.driven os) := by
      rw [attempts_append]
      exact congrArg (attempts os p ++ ·) (List.append_nil _)
    rw [attempts_concat, driven_concat, List.flatMap_append, ← log_eq_flatMap_attempts]
    by_cases step : o = .step
    · subst step
      exact (ih stays.1).passage (passage_step _)
    · rw [mode_apply step (Ne.symm stays.2)]
      have silent : o.log (p.driven os) = [] := by
        cases o with
        | step => exact absurd rfl step
        | _ => rfl
      rw [silent, List.append_nil]
      exact ih stays.1

theorem LeadsTo.last {before after : List Event}
    (h : LeadsTo (before ++ .halting f :: after) mode) : after = [] := by
  obtain ⟨done, fails, fine⟩ := h.fails
  have short := mode.length_failures_le
  -- the fault is what `mode` tells of, for it is not among what was written before
  obtain ⟨rest, same⟩ : ∃ rest, mode.failures = rest ++ .halting f :: after := by
    obtain ⟨rest, rfl, same⟩ | ⟨rest, -, same⟩ := List.append_eq_append_iff.mp fails
    · cases rest with
      | nil => exact ⟨[], same.symm⟩
      | cons e rest =>
        obtain ⟨rfl, -⟩ := List.cons.inj same
        exact absurd rfl (fine (.halting f) (by simp))
    · exact ⟨rest, same⟩
  rw [same, List.length_append, List.length_cons] at short
  exact List.eq_nil_of_length_eq_zero (by omega)

theorem LeadsTo.failures (h : LeadsTo log mode) :
    (log.filter fun e ↦ e.level = .error) = mode.failures := by
  obtain ⟨before, rfl, fine⟩ := h.fails
  have none : (before.filter fun e ↦ e.level = .error) = [] :=
    List.filter_eq_nil_iff.mpr fun e he ↦ by simpa using fine e he
  rw [List.filter_append, none, List.nil_append]
  cases mode <;> rfl

theorem LeadsTo.retells (h : LeadsTo (ps.flatMap fun p ↦ p.step.log) mode)
    (steps : (log.filter fun e ↦ e.OfStep) = ps.flatMap fun p ↦ p.step.log) :
    Retells log ps mode := by
  have kept (kept : Event → Bool) (ofStep : ∀ e, kept e = true → e.OfStep) :
      log.filter kept = (ps.flatMap fun p ↦ p.step.log).filter kept := by
    rw [← steps, Event.filter_filter_ofStep kept ofStep]
  have traced := kept (fun e ↦ e.level = .trace) fun e he ↦
    e.ofStep_iff.mpr (.inl (of_decide_eq_true he))
  have failures := kept (fun e ↦ e.level = .error) fun e he ↦
    e.ofStep_iff.mpr (.inr (.inl (of_decide_eq_true he)))
  have keypresses := kept Event.isKeypress fun e he ↦ e.ofStep_iff.mpr (.inr (.inr he))
  obtain ⟨ended, waits⟩ := h.waits
  constructor
  case complete => exact Event.lines_trace log
  case steps => exact steps
  case traced => rw [traced, traced_steps]
  case begun => exact fun p _ ↦ p.passage_step.traced
  case faulted => exact fun p _ mode f ↦ log_step_of_error mode
  case failures => rw [failures, h.failures]
  case last =>
    rintro before f after rfl e he
    have halting : ((Event.halting f :: after).filter fun e ↦ e.OfStep) =
        .halting f :: after.filter fun e ↦ e.OfStep := rfl
    rw [List.filter_append, halting] at steps
    rw [← steps] at h
    have silent := List.filter_eq_nil_iff.mp h.last e he
    rw [decide_eq_true_eq, e.ofStep_iff] at silent
    simpa using silent
  case waits => exact ⟨ended, keypresses.trans waits⟩
  case awaiting_iff =>
    intro x
    rw [keypresses, waits]
    exact mode.eq_awaitingKey_iff ended x

theorem filter_ofStep_steps (ps : List Processor) :
    ((ps.flatMap fun p ↦ p.step.log).filter fun e ↦ e.OfStep) =
      ps.flatMap fun p ↦ p.step.log := by
  refine List.filter_eq_self.mpr fun e he ↦ ?_
  obtain ⟨p, -, he⟩ := List.mem_flatMap.mp he
  exact decide_eq_true (ofStep_of_mem_step he)

theorem retells_of_running (running : p.mode = .running) (stays : .reset ∉ os) :
    Retells (logged os p) (attempts os p) (p.driven os).mode := by
  refine (leadsTo_driven running stays).retells ?_
  rw [logged_eq_flatMap_attempts, filter_ofStep_steps]

end Processor

end Chip8
