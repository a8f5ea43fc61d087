import Chip8.Proofs.Machine.Latching
import Chip8.Proofs.Machine.Waiting
import Chip8.Proofs.Processor.Recording
import Chip8.Proofs.Text.Diagnosis

namespace Chip8.Machine

def Operation.attempts (m : Machine) : Operation → List Processor
  | .step => [m.processor]
  | .advance elapsed => m.processor.stepped (m.due elapsed)
  | _ => []

def logged (os : List Operation) (m : Machine) : List Event :=
  (trace os m).flatMap fun c ↦ c.2.log c.1

/-- The processors on which a step is made while `os` is done to `m`. -/
def attempts (os : List Operation) (m : Machine) : List Processor :=
  (trace os m).flatMap fun c ↦ c.2.attempts c.1

variable {m : Machine} {o : Operation} {os : List Operation}

theorem attempts_parts (m : Machine) (o : Operation) :
    Processor.attempts (o.parts m) m.processor = o.attempts m := by
  cases o with
  | loadFrom source =>
    simp only [Operation.parts]
    cases source.contents <;> rfl
  | advance elapsed =>
    rw [Operation.parts, Processor.attempts_append, Processor.attempts_replicate_step,
      Operation.attempts]
    cases (m.processor.run (m.due elapsed)).answer.fault? <;> exact List.append_nil _
  | _ => rfl

theorem attempts_eq (os : List Operation) (m : Machine) :
    attempts os m = Processor.attempts (parts os m) m.processor := by
  induction os generalizing m with
  | nil => rfl
  | cons o os ih =>
    rw [parts, Processor.attempts_append, attempts_parts, ← processor_apply, ← ih]
    rfl

theorem filter_ofStep_eq_nil {log : List Event} (h : ∀ e ∈ log, ¬ e.OfStep) :
    (log.filter fun e ↦ e.OfStep) = [] :=
  List.filter_eq_nil_iff.mpr fun e he ↦ by simpa using h e he

theorem filter_ofStep_load (m : Machine) (rom : Array UInt8) :
    ((m.load rom).log.filter fun e ↦ e.OfStep) = [] := by
  simp only [load]
  split <;> rfl

theorem filter_ofStep_log (m : Machine) (o : Operation) :
    ((o.log m).filter fun e ↦ e.OfStep) = (o.attempts m).flatMap fun p ↦ p.step.log := by
  cases o with
  | load rom => exact m.filter_ofStep_load rom
  | loadFrom source =>
    simp only [Operation.log, loadFrom]
    cases source.contents with
    | error => rfl
    | ok rom => exact m.filter_ofStep_load rom
  | reset =>
    simp only [Operation.log, reset]
    split <;> rfl
  | step =>
    rw [Operation.attempts, ← Processor.filter_ofStep_steps, List.flatMap_singleton]
    rfl
  | advance elapsed =>
    rw [Operation.log, log_advance, List.filter_append, Processor.log_run,
      Processor.filter_ofStep_steps,
      filter_ofStep_eq_nil fun e ↦ not_ofStep_of_mem_backlogEvents]
    rfl
  | status => exact filter_ofStep_eq_nil fun e ↦ not_ofStep_of_mem_status
  | tick | press | release | setKeys | takeFrame => rfl

theorem filter_ofStep_logged (os : List Operation) (m : Machine) :
    ((logged os m).filter fun e ↦ e.OfStep) = (attempts os m).flatMap fun p ↦ p.step.log := by
  simp only [logged, attempts, List.filter_flatMap, List.flatMap_assoc, filter_ofStep_log]

theorem retells_of_running (running : m.processor.mode = .running)
    (stays : ∀ o ∈ os, ¬ o.Restarts) :
    Processor.Retells (logged os m) (attempts os m) (m.driven os).processor.mode := by
  have steps := filter_ofStep_logged os m
  rw [processor_driven]
  rw [attempts_eq] at steps ⊢
  exact (Processor.leadsTo_driven running (reset_notMem_parts stays)).retells steps

theorem mode_driven_of_start {settings : Settings} {entropy : ChaCha.Key} {fresh : Machine}
    (built : Machine.new settings entropy = .ok fresh) {past : List Operation}
    (start : past = [] ∨ ∃ done o, past = done ++ [o] ∧ o.Restarts) :
    (fresh.driven past).processor.mode = .running := by
  obtain rfl | ⟨done, o, rfl, restarts⟩ := start
  · rw [eq_of_new built]
    rfl
  · obtain ⟨memory, rom, started⟩ := exists_apply_eq_of_restarts (m := fresh.driven done) restarts
    rw [driven_concat, started]
    rfl

/-- From one start to the next the log retells every step that is made, whether a host uses a
processor alone or the machine that it belongs to. The line of an instruction tells its word and the
registers that it found. -/
theorem retells_driven (settings : Settings) (entropy : ChaCha.Key) :
    (∀ past recent, (past = [] ∨ ∃ done, past = done ++ [.reset]) → .reset ∉ recent →
      let p := (Processor.new settings entropy).driven past
      Processor.Retells (Processor.logged recent p) (Processor.attempts recent p)
        (p.driven recent).mode) ∧
    (∀ fresh, Machine.new settings entropy = .ok fresh → ∀ past recent,
      (past = [] ∨ ∃ done o, past = done ++ [o] ∧ o.Restarts) → (∀ o ∈ recent, ¬ o.Restarts) →
      let m := fresh.driven past
      Processor.Retells (logged recent m) (attempts recent m)
        (m.driven recent).processor.mode) ∧
    (∀ f : Fault, (Event.halting f).line = "ERROR halting: " ++ f.message) ∧
    (∀ x : Fin 16,
      (Event.awaitingKey x).line = "DEBUG awaiting keypress for v" ++ Hex.padded 1 x) ∧
    (∀ key x : Fin 16, (Event.keyStored key x).line =
      "DEBUG key " ++ Hex.padded 1 key ++ " pressed; stored in v" ++ Hex.padded 1 x) ∧
    ∀ word v i pc, (Event.executing word v i pc).line =
        "TRACE " ++ Hex.padded 4 word.toNat ++ " v[" ++
          ", ".intercalate (v.toList.map fun b ↦ Hex.padded 2 b.toNat) ++ "] i" ++
          Hex.padded 4 i.toNat ++ " pc" ++ Hex.padded 4 pc.toNat ∧
      Event.ofLine? (Event.executing word v i pc).line = some (.executing word v i pc) := by
  refine ⟨?_, ?_, Event.line_halting, Event.line_awaitingKey, Event.line_keyStored,
    fun word v i pc ↦ ⟨Event.line_executing word v i pc, Event.ofLine?_line _⟩⟩
  · intro past recent start stays
    refine Processor.retells_of_running ?_ stays
    obtain rfl | ⟨done, rfl⟩ := start
    · rfl
    · rw [Processor.driven_concat]
      rfl
  · intro fresh built past recent start stays
    exact retells_of_running (mode_driven_of_start built start) stays

theorem retells_driven_lost :
    ((logged [.step, .status, .advance .second] (newborn.driven [.load #[0x00, 0xEE]])).filter
        fun e ↦ e.level = .error) = [.halting (.stackUnderflow 0x200)] ∧
      ((logged [.step, .setKeys 0] attentive).filter Event.isKeypress).getLast? =
        some (.awaitingKey 5) ∧
      let p := (Processor.new .standard (Seed.key 0)).driven [.step, .reset]
      Processor.Retells (Processor.logged [.press 3, .step] p)
        (Processor.attempts [.press 3, .step] p) (p.driven [.press 3, .step]).mode := by
  have built : Machine.new .standard (Seed.key 0) = .ok newborn := rfl
  have begun (rom : Array UInt8) : newborn.driven [.load rom] = (newborn.load rom).state := rfl
  have starts (rom : Array UInt8) : ∃ done o, [Operation.load rom] = done ++ [o] ∧ o.Restarts :=
    ⟨[], _, rfl, trivial⟩
  have stepped (m : Machine) (os : List Operation) : m.driven (.step :: os) =
      (Operation.step.apply m).driven os := rfl
  obtain ⟨alone, inside, -⟩ := retells_driven .standard (Seed.key 0)
  refine ⟨?_, ?_, ?_⟩
  · have retells := inside newborn built [.load #[0x00, 0xEE]] [.step, .status, .advance .second]
      (.inr (starts _)) (by simp [Operation.Restarts])
    have reachable : lost.Reachable := ((Reachable.new built).apply (.load _)).apply .step
    have stays : ∀ o ∈ [Operation.status, .advance .second], ¬ o.Restarts := by
      simp [Operation.Restarts]
    have halted := (latched_driven reachable mode_lost stays).mode
    have failures := retells.failures
    -- unfolded by hand, for otherwise the load would be carried out to compare the two machines
    rw [lost] at halted
    rwa [stepped, begun, halted] at failures
  · have retells := inside newborn built [.load #[0xF5, 0x0A]] [.step, .setKeys 0]
      (.inr (starts _)) (by simp [Operation.Restarts])
    have fetched : attentive.processor.word.toNat = 0xF00A + 0x100 * (5 : Fin 16) :=
      (Reachable.new built).word_load (by decide)
    have running : attentive.processor.mode = .running := rfl
    rw [attentive] at fetched running
    have waiting := Processor.step_of_awaitKey running fetched
    have mode (m : Machine) (waits : m.processor.step.state.mode = .awaitingKey 5) :
        (m.driven [.step, .setKeys 0]).processor.mode = .awaitingKey 5 := waits
    refine (retells.awaiting_iff 5).mp (mode _ ?_)
    rw [waiting]
    rfl
  · exact alone [.step, .reset] [.press 3, .step] (.inr ⟨[.step], rfl⟩) (by simp)

end Chip8.Machine
