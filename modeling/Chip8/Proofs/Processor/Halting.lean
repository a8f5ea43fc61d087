import Chip8.Proofs.Processor.Effect

namespace Chip8.Processor

inductive Refused (p : Processor) : Fault → Prop
  | unknown {opcode : UInt16} (fetched : opcode.toNat = p.snapshot.word)
      (formless : ∀ ins : Instruction, ¬ ins.Form p.snapshot.word) :
      Refused p (.unknownOpcode opcode p.pc)
  | underflow (fetched : p.snapshot.word = 0x00EE) (empty : p.stack.toList = []) :
      Refused p (.stackUnderflow p.pc)
  | overflow {nnn : Fin 4096} (fetched : p.snapshot.word = 0x2000 + nnn)
      (full : p.stack.toList.length = 16) :
      Refused p (.stackOverflow p.pc)

variable {p : Processor} {f g : Fault} {ins : Instruction}

theorem Refused.unique (h : p.Refused f) (h' : p.Refused g) : f = g := by
  cases h with
  | unknown fetched formless =>
    cases h' with
    | unknown fetched' => rw [UInt16.toNat_inj.mp (fetched.trans fetched'.symm)]
    | underflow fetched' => exact absurd fetched' (formless .ret)
    | overflow fetched' => exact absurd fetched' (formless (.call _))
  | underflow fetched empty =>
    cases h' with
    | unknown _ formless => exact absurd fetched (formless .ret)
    | underflow => rfl
    | overflow _ full => simp [empty] at full
  | overflow fetched full =>
    cases h' with
    | unknown _ formless => exact absurd fetched (formless (.call _))
    | underflow _ empty => simp [empty] at full
    | overflow => rfl

theorem instructionAddress_advance (h : p.pc.toNat < 4096) :
    p.advance.instructionAddress = p.pc := by
  rw [← UInt16.toNat_inj]
  simp only [instructionAddress, advance, Word.toNat_wrap, UInt16.toNat_sub, UInt16.toNat_add,
    UInt16.reduceToNat]
  omega

theorem refused_of_decode?_eq_none (h : p.pc.toNat < 4096)
    (decoded : Instruction.decode? p.word = none) :
    p.Refused (.unknownOpcode p.word p.pc) := by
  have fetched := snapshot_word h
  refine .unknown fetched.symm fun ins ↦ ?_
  rw [fetched]
  exact Instruction.decode?_eq_none_iff.mp decoded ins

theorem refused_of_execute_eq_error (h : p.pc.toNat < 4096) {e : StackError}
    (decoded : Instruction.decode? p.word = some ins)
    (executed : p.advance.execute ins = .error e) :
    p.Refused (e.fault p.advance.instructionAddress) := by
  have form := Instruction.decode?_eq_some_iff.mp decoded
  rw [← snapshot_word h] at form
  rw [instructionAddress_advance h]
  rcases execute_eq_error_iff.mp executed with ⟨rfl, hd, rfl⟩ | ⟨nnn, rfl, hd, rfl⟩
  · exact .underflow form (List.length_eq_zero_iff.mp ((CallStack.length_toList _).trans hd))
  · exact .overflow form ((CallStack.length_toList _).trans hd)

theorem Refused.not_fits (h : p.pc.toNat < 4096) (refused : p.Refused f)
    (decoded : Instruction.decode? p.word = some ins) : ¬ p.snapshot.Fits ins := by
  have form := Instruction.decode?_eq_some_iff.mp decoded
  have fetched := snapshot_word h
  cases refused with
  | unknown _ formless =>
    rw [fetched] at formless
    exact absurd form (formless ins)
  | underflow hw empty =>
    have hw : Instruction.ret.Form p.word.toNat := by rwa [fetched] at hw
    obtain rfl := form.unique hw
    rw [← List.length_eq_zero_iff, CallStack.length_toList] at empty
    exact fun fits ↦ Nat.ne_of_gt fits empty
  | @overflow nnn hw full =>
    have hw : (Instruction.call nnn).Form p.word.toNat := by rwa [fetched] at hw
    obtain rfl := form.unique hw
    rw [CallStack.length_toList] at full
    exact fun fits ↦ Nat.ne_of_lt fits full

theorem halt_advance (p : Processor) (f : Fault) :
    p.advance.halt f = { p with pc := .ofNat ((p.pc.toNat + 2) % 4096), mode := .halted f } := by
  have hpc : Word.wrap (p.pc + 2) = .ofNat ((p.pc.toNat + 2) % 4096) := by
    rw [← UInt16.toNat_inj, Word.toNat_wrap, UInt16.toNat_add, UInt16.toNat_ofNat']
    simp only [UInt16.reduceToNat]
    omega
  rw [halt, advance, hpc]

/-- A step of a running processor fails only where the table of opcodes, the depth of the stack or
its emptiness says so; then it moves `pc` past the word, halts, and does nothing else. -/
theorem step_error_iff (h : p.Reachable) (mode : p.mode = .running) (f : Fault) :
    (p.step.answer = .error f ↔ p.Refused f) ∧
      (p.Refused f → p.step.state =
        { p with pc := .ofNat ((p.pc.toNat + 2) % 4096), mode := .halted f }) := by
  have hpc := h.bounded.pc_lt
  rw [← halt_advance]
  have ht := p.transition
  generalize p.step = o at ht ⊢
  have fails {g : Fault} (refused : p.Refused g) :
      (Except.error g = (Except.error f : Except Fault Unit) ↔ p.Refused f) ∧
        (p.Refused f → p.advance.halt g = p.advance.halt f) := by
    refine ⟨⟨?_, fun r ↦ by rw [refused.unique r]⟩, fun r ↦ by rw [refused.unique r]⟩
    rintro ⟨⟩
    exact refused
  cases ht with
  | halted m | polled m | answered m => simp [mode] at m
  | unknown _ decoded => exact fails (refused_of_decode?_eq_none hpc decoded)
  | refused _ decoded executed => exact fails (refused_of_execute_eq_error hpc decoded executed)
  | @executed ins q _ decoded executed =>
    have fits : p.advance.snapshot.Fits ins := by
      refine fits_iff.mpr fun e he ↦ ?_
      rw [executed] at he
      cases he
    have fine : ¬ p.Refused f := fun refused ↦ refused.not_fits hpc decoded fits
    exact ⟨⟨(nomatch ·), fun r ↦ absurd r fine⟩, fun r ↦ absurd r fine⟩

def orphan : Processor :=
  (Operation.load #[0x00, 0xEE]).apply (new .standard (Seed.key 0))

theorem step_error_orphan :
    orphan.step.answer = .error (.stackUnderflow 0x200) ∧
      orphan.step.state =
        { orphan with pc := .ofNat 0x202, mode := .halted (.stackUnderflow 0x200) } := by
  have reachable : orphan.Reachable := (Reachable.new .standard (Seed.key 0)).apply _
  have refused : orphan.Refused (.stackUnderflow 0x200) :=
    .underflow (word_load .standard (Seed.key 0) (by decide)) rfl
  obtain ⟨answer, state⟩ := step_error_iff reachable rfl (.stackUnderflow 0x200)
  exact ⟨answer.mpr refused, state refused⟩

end Chip8.Processor
