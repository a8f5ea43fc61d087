import Chip8.Proofs.Processor.Reachable
import Mathlib.Data.List.Induction

namespace Chip8.Processor

/-- All that a step can do to the stack. -/
inductive Shift (p q : Processor) : Prop
  | returned (ret : p.Executes .ret) (popped : p.stack.toList = q.stack.toList ++ [q.pc])
  | called {nnn : Fin 4096} (call : p.Executes (.call nnn))
      (pushed : q.stack.toList = p.stack.toList ++ [p.advance.pc])
  | level (same : q.stack = p.stack)

/-- What a call at `p` promises of the processor to which `os` leads once the call is made. -/
structure Nested (p : Processor) (os : List Operation) : Prop where
  kept : (∀ done, done <+: os → p.stack.depth < (p.step.state.driven done).stack.depth) →
    p.step.state.stack.toList <+: (p.step.state.driven os).stack.toList
  near : (p.step.state.driven os).step.state.stack.depth ≤
      (p.step.state.driven os).stack.depth + 1 ∧
    (p.step.state.driven os).stack.depth ≤ (p.step.state.driven os).step.state.stack.depth + 1
  /-- The first time that the stack is as high as before the call, it has just come back from
  there. -/
  returned : (∀ done, done <+: os → done ≠ os →
      (p.step.state.driven done).stack.depth ≠ p.stack.depth) →
    (p.step.state.driven os).stack.depth = p.stack.depth →
    ∃ done, os = done ++ [.step] ∧ (p.step.state.driven done).Executes .ret ∧
      (p.step.state.driven os).pc.toNat = (p.pc.toNat + 2) % 4096

variable {p q : Processor} {ins : Instruction} {saved : List UInt16} {back : UInt16}
  {os : List Operation}

theorem toList_of_executes_ret (ret : p.Executes .ret) :
    p.stack.toList = p.step.state.stack.toList ++ [p.step.state.pc] := by
  obtain ⟨pc, stack, popped, state⟩ := execute_ret_eq_ok_iff.mp ret.execute_eq
  rw [← state]
  exact CallStack.toList_of_pop popped

theorem toList_step_of_call {nnn : Fin 4096} (call : p.Executes (.call nnn)) :
    p.step.state.stack.toList = p.stack.toList ++ [p.advance.pc] := by
  obtain ⟨stack, pushed, state⟩ := execute_call_eq_ok_iff.mp call.execute_eq
  rw [← state]
  exact CallStack.toList_of_push pushed

theorem Executes.shift (h : p.Executes ins) : p.Shift p.step.state := by
  cases ins with
  | ret => exact .returned h (toList_of_executes_ret h)
  | call nnn => exact .called h (toList_step_of_call h)
  | _ => exact .level (h.spares.stack (by simp) (by simp))

theorem shift_step (p : Processor) : p.Shift p.step.state := by
  obtain ⟨ins, executes⟩ | idles := p.executes_or_idles
  · exact executes.shift
  · exact .level idles.stack

theorem stack_apply {o : Operation} (step : o ≠ .step) (reset : o ≠ .reset) :
    (o.apply p).stack = p.stack := by
  cases o with
  | step => exact absurd rfl step
  | reset => exact absurd rfl reset
  | load rom =>
    simp only [Operation.apply, load]
    cases p.memory.load rom <;> rfl
  | _ => rfl

theorem Shift.near (h : p.Shift q) :
    q.stack.depth ≤ p.stack.depth + 1 ∧ p.stack.depth ≤ q.stack.depth + 1 := by
  simp only [← CallStack.length_toList]
  cases h with
  | returned _ popped =>
    rw [popped, List.length_append, List.length_singleton]
    omega
  | called _ pushed =>
    rw [pushed, List.length_append, List.length_singleton]
    omega
  | level same =>
    rw [same]
    omega

theorem Shift.kept (h : p.Shift q) (inside : saved ++ [back] <+: p.stack.toList)
    (apart : q.stack.depth ≠ saved.length) : saved ++ [back] <+: q.stack.toList := by
  cases h with
  | returned _ popped =>
    -- the frame that is popped lies above `back`, or the stack would be down to `saved`
    rw [popped] at inside
    have high := inside.length_le
    simp only [List.length_append, List.length_singleton, CallStack.length_toList] at high
    refine List.prefix_of_prefix_length_le inside (List.prefix_append _ _) ?_
    simp only [List.length_append, List.length_singleton, CallStack.length_toList]
    omega
  | called _ pushed =>
    rw [pushed]
    exact inside.trans (List.prefix_append _ _)
  | level same => rwa [same]

theorem Shift.returns (h : p.Shift q) (inside : saved ++ [back] <+: p.stack.toList)
    (down : q.stack.depth = saved.length) : p.Executes .ret ∧ q.pc = back := by
  have high := inside.length_le
  simp only [List.length_append, List.length_singleton] at high
  rw [← CallStack.length_toList] at down
  cases h with
  | returned ret popped =>
    rw [popped] at inside
    have same : saved ++ [back] = q.stack.toList ++ [q.pc] :=
      inside.eq_of_length (by simp [down])
    exact ⟨ret, (List.append_singleton_inj.mp same).2.symm⟩
  | called _ pushed =>
    rw [pushed, List.length_append, List.length_singleton] at down
    omega
  | level same =>
    rw [same] at down
    omega

theorem prefix_driven (start : p.stack.toList = saved ++ [back]) (stays : .reset ∉ os)
    (apart : ∀ done, done <+: os → (p.driven done).stack.depth ≠ saved.length) :
    saved ++ [back] <+: (p.driven os).stack.toList := by
  induction os using List.reverseRecOn with
  | nil => exact start ▸ List.prefix_refl _
  | append_singleton os o ih =>
    simp only [List.mem_append, List.mem_singleton, not_or] at stays
    have inside := ih stays.1 fun done h ↦ apart done (h.trans (List.prefix_append _ _))
    have apart := apart (os ++ [o]) (List.prefix_refl _)
    rw [driven_concat] at apart ⊢
    by_cases step : o = .step
    · subst step
      exact (shift_step _).kept inside apart
    · rwa [stack_apply step (Ne.symm stays.2)]

theorem returns_driven (start : p.stack.toList = saved ++ [back]) (stays : .reset ∉ os)
    (apart : ∀ done, done <+: os → done ≠ os → (p.driven done).stack.depth ≠ saved.length)
    (down : (p.driven os).stack.depth = saved.length) :
    ∃ done, os = done ++ [.step] ∧ (p.driven done).Executes .ret ∧ (p.driven os).pc = back := by
  rcases List.eq_nil_or_concat os with rfl | ⟨os, o, rfl⟩
  · have length := congrArg List.length start
    have down : p.stack.depth = saved.length := down
    simp [down] at length
  · simp only [List.concat_eq_append] at stays apart down ⊢
    rw [List.mem_append, List.mem_singleton, not_or] at stays
    have apart (done) (h : done <+: os) : (p.driven done).stack.depth ≠ saved.length := by
      refine apart done (h.trans (List.prefix_append _ _)) ?_
      rintro rfl
      have long := h.length_le
      rw [List.length_append, List.length_singleton] at long
      omega
    have inside := prefix_driven start stays.1 apart
    rw [driven_concat] at down ⊢
    by_cases step : o = .step
    · subst step
      obtain ⟨ret, pc⟩ := (shift_step _).returns inside down
      exact ⟨os, rfl, ret, pc⟩
    · rw [stack_apply step (Ne.symm stays.2)] at down
      exact absurd down (apart os (List.prefix_refl _))

theorem executes_of_form (mode : p.mode = .running) (form : ins.Form p.word.toNat)
    (fine : ∀ e, p.advance.execute ins ≠ .error e) : p.Executes ins := by
  have decoded := Instruction.decode?_eq_some_iff.mpr form
  cases executed : p.advance.execute ins with
  | ok q => exact (executes_of_execute mode decoded executed).1
  | error e => exact absurd executed (fine e)

theorem executes_call (mode : p.mode = .running) {nnn : Fin 4096}
    (fetched : p.word.toNat = 0x2000 + nnn) (room : p.stack.depth < 16) :
    p.Executes (.call nnn) := by
  refine executes_of_form mode fetched fun e failed ↦ ?_
  rcases execute_eq_error_iff.mp failed with ⟨h, -⟩ | ⟨_, -, full, -⟩
  · cases h
  · exact Nat.ne_of_lt room full

theorem executes_ret (mode : p.mode = .running) (fetched : p.word.toNat = 0x00EE)
    (frames : 0 < p.stack.depth) : p.Executes .ret := by
  refine executes_of_form mode fetched fun e failed ↦ ?_
  rcases execute_eq_error_iff.mp failed with ⟨-, empty, -⟩ | ⟨_, h, -⟩
  · exact Nat.ne_of_gt frames empty
  · cases h

theorem toNat_pc_advance (p : Processor) : p.advance.pc.toNat = (p.pc.toNat + 2) % 4096 := by
  simp only [advance, Word.toNat_wrap, UInt16.toNat_add, UInt16.reduceToNat]
  omega

theorem nested_of_executes {nnn : Fin 4096} (call : p.Executes (.call nnn))
    (stays : .reset ∉ os) : p.Nested os := by
  have start := toList_step_of_call call
  refine ⟨?_, (shift_step _).near, ?_⟩
  · intro high
    rw [start]
    refine prefix_driven start stays fun done h ↦ ?_
    rw [CallStack.length_toList]
    exact Nat.ne_of_gt (high done h)
  · intro apart down
    rw [← CallStack.length_toList p.stack] at apart down
    obtain ⟨done, last, ret, pc⟩ := returns_driven start stays apart down
    exact ⟨done, last, ret, by rw [pc, toNat_pc_advance]⟩

theorem Nested.returned_step {nnn : Fin 4096} (nested : p.Nested [.step])
    (call : p.Executes (.call nnn)) (ret : p.step.state.Executes .ret) :
    p.step.state.step.state.stack.depth = p.stack.depth ∧
      p.step.state.step.state.pc.toNat = (p.pc.toNat + 2) % 4096 := by
  have pushed := congrArg List.length (toList_step_of_call call)
  have popped := congrArg List.length (toList_of_executes_ret ret)
  simp only [List.length_append, List.length_singleton, CallStack.length_toList] at pushed popped
  have down : p.step.state.step.state.stack.depth = p.stack.depth := by omega
  have first (done : List Operation) (h : done <+: [.step]) (short : done ≠ [.step]) :
      (p.step.state.driven done).stack.depth ≠ p.stack.depth := by
    have less := Nat.lt_of_le_of_ne h.length_le fun same ↦ short (h.eq_of_length same)
    obtain rfl := List.eq_nil_of_length_eq_zero (Nat.lt_one_iff.mp less)
    rw [driven, List.foldl_nil]
    omega
  obtain ⟨_, -, -, pc⟩ := nested.returned first down
  exact ⟨down, pc⟩

end Chip8.Processor
