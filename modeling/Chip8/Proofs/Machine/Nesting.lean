import Chip8.Proofs.Machine.Reachable
import Chip8.Proofs.Processor.Effect
import Chip8.Proofs.Processor.Nesting

namespace Chip8.Machine

variable {m : Machine} {o : Operation} {os : List Operation} {p : Processor}

theorem reset_mem_parts_iff : .reset ∈ o.parts m ↔ o.Restarts := by
  cases o with
  | loadFrom source =>
    simp only [Operation.parts, Operation.Restarts]
    cases source.contents <;> simp
  | advance elapsed =>
    simp only [Operation.parts, Operation.Restarts, List.mem_append, List.mem_replicate]
    cases (m.processor.run (m.due elapsed)).answer.fault? <;> simp
  | _ => simp [Operation.parts, Operation.Restarts]

theorem reset_notMem_parts (stays : ∀ o ∈ os, ¬ o.Restarts) : .reset ∉ parts os m := by
  induction os generalizing m with
  | nil => simp [parts]
  | cons o os ih =>
    rw [List.forall_mem_cons] at stays
    rw [parts, List.mem_append, not_or, reset_mem_parts_iff]
    exact ⟨stays.1, ih stays.2⟩

/-- Once a call is made, the frames up to its own stay until a return pops that frame, and this
return goes to just behind the call. -/
theorem nested_of_call (mode : p.mode = .running) {nnn : Fin 4096}
    (fetched : p.word.toNat = 0x2000 + nnn) (room : p.stack.depth < 16) :
    p.step.state.stack.toList = p.stack.toList ++ [.ofNat ((p.pc.toNat + 2) % 4096)] ∧
      (∀ os, .reset ∉ os → p.Nested os) ∧
      ∀ m : Machine, m.processor = p → ∀ os, (∀ o ∈ os, ¬ o.Restarts) →
        (m.step.state.driven os).processor = p.step.state.driven (parts os m.step.state) ∧
          ∀ done, done <+: parts os m.step.state → p.Nested done := by
  have call := Processor.executes_call mode fetched room
  refine ⟨?_, fun os ↦ Processor.nested_of_executes call, ?_⟩
  · have back : p.advance.pc = .ofNat ((p.pc.toNat + 2) % 4096) := by
      rw [← p.toNat_pc_advance, UInt16.ofNat_toNat]
    rw [Processor.toList_step_of_call call, back]
  · rintro m rfl os stays
    refine ⟨processor_driven m.step.state os, fun done h ↦ ?_⟩
    have stays : .reset ∉ done := fun h' ↦ reset_notMem_parts stays (h.subset h')
    exact Processor.nested_of_executes call stays

theorem Reachable.word_load (h : m.Reachable) {rom : Array UInt8}
    (small : rom.size ≤ Rom.capacity) : (m.load rom).state.processor.word.toNat =
      256 * (rom.getD 0 0).toNat + (rom.getD 1 0).toNat := by
  have reachable : (m.load rom).state.Reachable := h.apply (.load rom)
  rw [← Processor.snapshot_word reachable.processor.bounded.pc_lt, processor_load]
  exact Processor.word_apply_load small rfl

/-- The machine whose program calls a routine that returns at once. -/
def caller : Machine :=
  (Operation.load #[0x22, 0x04, 0x12, 0x02, 0x00, 0xEE]).apply
    { processor := .new .standard (Seed.key 0), clock := { frequency := 500 } }

theorem executes_call_caller : caller.processor.Executes (.call 0x204) := by
  have built : Machine.new .standard (Seed.key 0) =
      .ok { processor := .new .standard (Seed.key 0), clock := { frequency := 500 } } := rfl
  exact Processor.executes_call rfl ((Reachable.new built).word_load (by decide)) (by decide)

theorem executes_ret_caller : caller.processor.step.state.Executes .ret := by
  have small : (#[0x22, 0x04, 0x12, 0x02, 0x00, 0xEE] : Array UInt8).size ≤ Rom.capacity := by
    decide
  obtain ⟨q, loaded⟩ := (Processor.new .standard (Seed.key 0)).reset.exists_load_eq small
  have same : caller.processor = q := by
    simp only [caller, Operation.apply, processor_load, Processor.driven, List.foldl,
      Processor.Operation.apply, loaded]
  have call := executes_call_caller
  rw [same] at call ⊢
  obtain ⟨stack, pushed, state⟩ := Processor.execute_call_eq_ok_iff.mp call.execute_eq
  have saved := Processor.toList_step_of_call call
  have memory : q.step.state.memory = q.memory := by rw [← state]; rfl
  have pc : q.step.state.pc.toNat = 0x204 := by rw [← state]; rfl
  refine Processor.executes_ret ?_ ?_ ?_
  · rw [← state]
    exact call.1
  · rw [Processor.word, Memory.toNat_readWord_eq, memory, pc,
      Processor.value_of_load loaded (by decide) (by decide),
      Processor.value_of_load loaded (by decide) (by decide)]
    rfl
  · rw [← CallStack.length_toList, saved, List.length_append, List.length_singleton]
    exact Nat.succ_pos _

theorem nested_of_call_caller :
    caller.processor.step.state.stack.toList = [0x202] ∧
      (caller.processor.step.state.Executes .ret ∧
        caller.processor.step.state.step.state.stack.depth = 0 ∧
        caller.processor.step.state.step.state.pc.toNat = 0x202) ∧
      ∀ done, done <+: parts [.advance .second] caller.step.state →
        caller.processor.Nested done := by
  obtain ⟨saved, nested, nested'⟩ := nested_of_call rfl executes_call_caller.2.1 (by decide)
  have back := (nested [.step] (by simp)).returned_step executes_call_caller executes_ret_caller
  have empty : caller.processor.stack.depth = 0 := rfl
  have start : caller.processor.pc.toNat = 0x200 := rfl
  rw [empty, start] at back
  refine ⟨saved, ⟨executes_ret_caller, back⟩, (nested' caller rfl _ ?_).2⟩
  intro o ho
  obtain rfl := List.mem_singleton.mp ho
  exact not_false

end Chip8.Machine
