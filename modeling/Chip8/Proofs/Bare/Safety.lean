import Chip8.Proofs.Bare.Simulation
import Chip8.Proofs.Bare.Step
import Chip8.Proofs.Machine.Reachable

namespace Chip8

namespace Bare

variable {p : Processor} {w : UInt16}

theorem operand_register (w : UInt16) (x : Fin 16) (h : w.toNat / 256 % 16 = x) :
    digit w 8 = .ofNat x := by
  refine digit_eq (by decide) ?_
  rw [Nat.shiftRight_eq_div_pow]
  exact h

theorem operand_second (w : UInt16) (y : Fin 16) (h : w.toNat / 16 % 16 = y) :
    digit w 4 = .ofNat y := by
  refine digit_eq (by decide) ?_
  rw [Nat.shiftRight_eq_div_pow]
  exact h

theorem operand_byte (w : UInt16) (kk : UInt8) (h : w.toNat % 256 = kk.toNat) : w.toUInt8 = kk := by
  rw [← UInt8.toNat_inj, UInt16.toNat_toUInt8, h]

theorem operand_address (w : UInt16) (nnn : Fin 4096) (h : w.toNat % 4096 = nnn) :
    mask w = .ofNat nnn := by
  rw [mask_eq_wrap, ← UInt16.toNat_inj, Word.toNat_wrap, Processor.toNat_ofNat_address, h]

theorem add_offset (value : UInt8) (nnn : Fin 4096) :
    Checked.add value.toUInt16 (.ofNat nnn) = .ok (value.toUInt16 + .ofNat nnn) := by
  have hv := value.toNat_lt
  refine Checked.add_eq ?_
  rw [UInt8.toNat_toUInt16, Processor.toNat_ofNat_address]
  omega

theorem add_index {i : UInt16} (hi : i.toNat < 4096) (value : UInt8) :
    Checked.add i value.toUInt16 = .ok (i + value.toUInt16) := by
  have hv := value.toNat_lt
  refine Checked.add_eq ?_
  rw [UInt8.toNat_toUInt16]
  omega

theorem mul_glyph (value : UInt8) :
    Checked.mul value.toUInt16 5 = .ok (value.toUInt16 * 5) := by
  have hv := value.toNat_lt
  refine Checked.mul_eq ?_
  simp only [UInt8.toNat_toUInt16, UInt16.reduceToNat]
  omega

variable {ins : Instruction}

theorem execute_bare (hi : p.i.toNat < 4096) (form : ins.Form w.toNat) :
    p.bare.execute w ins = .ok ((p.execute ins).map Processor.bare) := by
  cases ins with
  | clear =>
    simp only [execute, perform, ← Frame.pixels_blank]
    rfl
  | ret =>
    simp only [execute, perform, pop_bare, Checked.ok_bind, Processor.execute]
    cases p.stack.pop <;> rfl
  | call nnn =>
    simp only [Instruction.Form] at form
    have hpc : p.bare.pc = p.pc := rfl
    have hn := operand_address w nnn (by omega)
    simp only [execute, perform, hpc, push_bare, Checked.ok_bind, Processor.execute, hn]
    cases p.stack.push p.pc <;> rfl
  | jump nnn | setIndex nnn =>
    simp only [Instruction.Form] at form
    have hn := operand_address w nnn (by omega)
    rw [execute, hn]
    rfl
  | jumpFrom nnn =>
    simp only [Instruction.Form] at form
    have hn := operand_address w nnn (by omega)
    have first : p.bare.get 0 = .ok (p.get 0) := get_bare 0
    simp only [execute, perform, hn, first, add_offset, Checked.ok_bind, mask_eq_wrap]
    rfl
  | skipEqByte x kk | skipNeByte x kk | setByte x kk | addByte x kk =>
    simp only [Instruction.Form] at form
    have hk := kk.toNat_lt
    have hx := operand_register w x (by omega)
    have hkk := operand_byte w kk (by omega)
    simp only [execute, perform, hx, hkk, get_bare, set_bare, skipIf_bare, Checked.ok_bind,
      Checked.pure_eq]
    rfl
  | random x kk =>
    simp only [Instruction.Form] at form
    have hk := kk.toNat_lt
    have hx := operand_register w x (by omega)
    have hkk := operand_byte w kk (by omega)
    have hr : p.bare.random = p.random := rfl
    simp only [execute, perform, hx, hkk, hr, Processor.execute]
    generalize p.random.nextByte = drawn
    obtain ⟨byte, random⟩ := drawn
    have stored := set_bare (p := { p with random }) x (byte &&& kk)
    change ({ p with random : Processor }.bare.set _ _ >>= _) = _
    rw [stored]
    rfl
  | skipEq x y | skipNe x y | copy x y | or x y | and x y | xor x y | add x y | sub x y
  | subFrom x y =>
    simp only [Instruction.Form] at form
    have hx := operand_register w x (by omega)
    have hy := operand_second w y (by omega)
    simp only [execute, perform, hx, hy, get_bare, set_bare, setFlagged_bare, skipIf_bare,
      Checked.ok_bind, Checked.pure_eq]
    rfl
  | shiftRight x | shiftLeft x =>
    obtain ⟨y, form⟩ := form
    have hx := operand_register w x (by omega)
    simp only [execute, perform, hx, get_bare, setFlagged_bare, Checked.ok_bind, Checked.pure_eq]
    rfl
  | draw x y n =>
    simp only [Instruction.Form] at form
    have hx := operand_register w x (by omega)
    have hy := operand_second w y (by omega)
    have hn : (digit w 0).toNat = n := by
      rw [toNat_digit w (by decide)]
      simp only [UInt16.reduceToNat]
      omega
    have rows : n.val ≤ 15 := by omega
    simp only [execute, perform, hx, hy, hn, Checked.indices_eq rows, get_bare, mapM_read,
      draw_bare, Checked.ok_bind, Processor.execute]
    generalize p.screen.draw (p.get x) (p.get y) (p.memory.readFrom p.i n) = drawn
    obtain ⟨screen, hit⟩ := drawn
    have stored := set_bare (p := { p with screen }) Processor.vf hit.toUInt8
    change ({ p with screen : Processor }.bare.set (.ofNat Processor.vf) _ >>= _) = _
    rw [stored]
    rfl
  | skipHeld x | skipReleased x =>
    simp only [Instruction.Form] at form
    have hx := operand_register w x (by omega)
    simp only [execute, perform, hx, get_bare, isHeld_bare, skipIf_bare, Checked.ok_bind,
      Checked.pure_eq]
    rfl
  | getDelay x | setDelay x | setSound x =>
    simp only [Instruction.Form] at form
    have hx := operand_register w x (by omega)
    simp only [execute, perform, hx, get_bare, set_bare, Checked.ok_bind, Checked.pure_eq]
    rfl
  | awaitKey x =>
    simp only [Instruction.Form] at form
    have hx := operand_register w x (by omega)
    simp only [execute, perform, hx]
    rfl
  | addIndex x =>
    simp only [Instruction.Form] at form
    have hx := operand_register w x (by omega)
    have moved : Checked.add p.bare.i (p.get x).toUInt16 = .ok (p.i + (p.get x).toUInt16) :=
      add_index hi (p.get x)
    simp only [execute, perform, hx, get_bare, Checked.ok_bind, moved, mask_eq_wrap]
    rfl
  | glyph x =>
    simp only [Instruction.Form] at form
    have hx := operand_register w x (by omega)
    simp only [execute, perform, hx, get_bare, Checked.ok_bind, mul_glyph]
    rfl
  | decimal x =>
    simp only [Instruction.Form] at form
    have hx := operand_register w x (by omega)
    have third : p.i + 2 = p.i + 1 + 1 := (UInt16.add_assoc p.i 1 1).symm
    simp only [execute, perform, hx, get_bare, write_bare, Checked.ok_bind, Checked.pure_eq]
    simp only [Processor.bare, third]
    rfl
  | save x =>
    simp only [Instruction.Form] at form
    have hx := operand_register w x (by omega)
    have saved := foldlM_save (p := p) (n := x + 1) (by omega)
    simp only [execute, perform, hx, toNat_ofNat_register, saved, Checked.ok_bind, Checked.pure_eq]
    rfl
  | restore x =>
    simp only [Instruction.Form] at form
    have hx := operand_register w x (by omega)
    have restored := foldlM_restore (p := p) (n := x + 1) (by omega)
    simp only [Nat.lt_succ_iff] at restored
    simp only [execute, perform, hx, toNat_ofNat_register, restored, Checked.ok_bind,
      Checked.pure_eq]
    rfl

theorem instructionAddress_bare (p : Processor) :
    p.bare.instructionAddress = p.instructionAddress :=
  mask_eq_wrap _

theorem step_running (mode : p.mode = .running) :
    p.bare.step = match Instruction.decode? p.word with
      | none => .ok (p.advance.bare.halt (.unknownOpcode p.word p.pc))
      | some ins => p.advance.bare.execute p.word ins >>= fun
        | .error e => .ok (p.advance.bare.halt (e.fault p.advance.instructionAddress))
        | .ok b => .ok (b, .ok ()) := by
  have hm : p.bare.mode = .running := congrArg Mode.bare mode
  have fetched : p.bare.readWord p.bare.pc = .ok p.word := readWord_bare p.pc
  simp only [step, hm, fetched, Checked.ok_bind, Checked.pure_eq, advance_bare,
    instructionAddress_bare]
  cases Instruction.decode? p.word with
  | none => rfl
  | some ins => rfl

theorem step_bare (h : p.i.toNat < 4096) :
    p.bare.step = .ok (p.step.state.bare, p.step.answer) := by
  have ht := p.transition
  generalize p.step = o at ht ⊢
  cases ht with
  | halted mode =>
    have hm : p.bare.mode = .halted _ := congrArg Mode.bare mode
    simp only [step, hm]
    rfl
  | polled mode released =>
    have hm : p.bare.mode = .awaitingKey _ := congrArg Mode.bare mode
    simp only [step, hm, firstHeld_bare, released]
    rfl
  | answered mode held =>
    have hm : p.bare.mode = .awaitingKey _ := congrArg Mode.bare mode
    simp only [step, hm, firstHeld_bare, held, Option.map_some, set_bare, release_bare,
      Checked.ok_bind]
    rfl
  | unknown mode decoded =>
    rw [step_running mode, decoded]
    rfl
  | refused mode decoded executed =>
    have done := execute_bare (p := p.advance) h (Instruction.decode?_eq_some_iff.mp decoded)
    rw [executed] at done
    rw [step_running mode, decoded]
    simp only [done, Except.map, Checked.ok_bind]
    rfl
  | executed mode decoded executed =>
    have done := execute_bare (p := p.advance) h (Instruction.decode?_eq_some_iff.mp decoded)
    rw [executed] at done
    rw [step_running mode, decoded]
    simp only [done, Except.map, Checked.ok_bind]

theorem new_bare (settings : Settings) (entropy : ChaCha.Key) :
    (Processor.new settings entropy).bare = new settings entropy := by
  simp only [Processor.bare, Processor.new, new, Screen.blank, Frame.pixels_blank]
  rfl

theorem reset_bare (p : Processor) : p.reset.bare = p.bare.reset := by
  simp only [Processor.bare, Processor.reset, reset, Screen.clear, Frame.pixels_blank]
  rfl

/-- Whatever a host does to a processor, the same is done to its storage without a panic. -/
theorem operate_bare (h : p.i.toNat < 4096) (o : Processor.Operation) :
    operate o p.bare = .ok (o.apply p).bare := by
  cases o with
  | step =>
    rw [operate, step_bare h]
    rfl
  | load rom =>
    refine congrArg Except.ok ?_
    cases h : p.memory.load rom with
    | ok memory =>
      have hb : Memory.load ⟨p.bare.cells⟩ rom = .ok memory := h
      simp only [load, hb, Processor.Operation.apply, Processor.load, h]
      rfl
    | error e =>
      have hb : Memory.load ⟨p.bare.cells⟩ rom = .error e := h
      simp only [load, hb, Processor.Operation.apply, Processor.load, h]
      rfl
  | reset => exact congrArg Except.ok (reset_bare p).symm
  | press key => exact press_bare key
  | release key => exact release_bare key
  | draw x y sprite =>
    rw [operate, draw_bare]
    rfl
  | clear =>
    simp only [operate, ← Frame.pixels_blank]
    rfl
  | takeFrame =>
    obtain ⟨v, i, pc, mode, memory, stack, ⟨frame, dirty⟩, keypad, timers, random⟩ := p
    cases dirty <;> rfl
  | _ => rfl

theorem reachable_iff {b : Bare} : b.Reachable ↔ ∃ p : Processor, p.Reachable ∧ p.bare = b := by
  constructor
  · intro h
    induction h with
    | new settings entropy => exact ⟨_, .new settings entropy, new_bare settings entropy⟩
    | operate _ o ok ih =>
      obtain ⟨p, hp, rfl⟩ := ih
      rw [operate_bare hp.bounded.i_lt] at ok
      exact ⟨_, hp.apply o, Except.ok.inj ok⟩
  · intro h
    obtain ⟨p, hp, rfl⟩ := h
    induction hp with
    | new settings entropy =>
      rw [new_bare]
      exact .new settings entropy
    | apply hp o ih => exact .operate ih o (operate_bare hp.bounded.i_lt o)

/-- Storage that a host can bring about keeps its addresses to twelve bits, its stack to sixteen
frames and an awaiting register to sixteen. No step on it panics, nor does anything else. -/
theorem step_ne_panic {b : Bare}
    (h : b.Reachable ∨ ∃ m : Machine, m.Reachable ∧ m.processor.bare = b) :
    b.pc.toNat ≤ 0xFFF ∧ b.i.toNat ≤ 0xFFF ∧ b.depth ≤ 16 ∧
      (∀ k < b.depth, ∃ a, b.frames[k]? = some a ∧ a.toNat ≤ 0xFFF) ∧
      (∀ x, b.mode = .awaitingKey x → x.toNat ≤ 15) ∧
      (∀ o, ∃ c, operate o b = .ok c) ∧
      ∃ p : Processor, p.Reachable ∧ p.bare = b ∧
        b.step = .ok (p.step.state.bare, p.step.answer) := by
  obtain ⟨p, hp, rfl⟩ : ∃ p : Processor, p.Reachable ∧ p.bare = b := by
    rcases h with h | ⟨m, hm, rfl⟩
    · exact reachable_iff.mp h
    · exact ⟨m.processor, hm.processor, rfl⟩
  have hb := hp.bounded
  refine ⟨Nat.le_of_lt_succ hb.pc_lt, Nat.le_of_lt_succ hb.i_lt, p.stack.depth_le, ?_, ?_,
    fun o ↦ ⟨_, operate_bare hb.i_lt o⟩, p, hp, rfl, step_bare hb.i_lt⟩
  · intro k hk
    have hk' : k < 16 := Nat.lt_of_lt_of_le hk p.stack.depth_le
    refine ⟨p.stack.frames[k], Vector.getElem?_eq_getElem hk', ?_⟩
    have saved : p.stack.frames[k] ∈ p.stack.toList :=
      List.mem_iff_getElem.mpr ⟨k, by rwa [CallStack.length_toList], by simp [CallStack.toList]⟩
    exact Nat.le_of_lt_succ (hb.saved_lt _ saved)
  · intro x mode
    cases hm : p.mode with
    | awaitingKey y =>
      have hx : Mode.awaitingKey (.ofNat y) = .awaitingKey x := by
        rw [← mode]
        exact (congrArg Mode.bare hm).symm
      obtain rfl := Mode.awaitingKey.inj hx
      rw [toNat_ofNat_register]
      omega
    | running => simp [Processor.bare, hm, Mode.bare] at mode
    | halted f => simp [Processor.bare, hm, Mode.bare] at mode

/-- The storage of a processor whose program begins by awaiting a key, after its first step. -/
def awaiting : Bare :=
  (Processor.Operation.step.apply ((Processor.Operation.load #[0xF5, 0x0A]).apply
    (.new .standard (Seed.key 0)))).bare

theorem step_ne_panic_awaiting :
    awaiting.pc.toNat ≤ 0xFFF ∧ awaiting.i.toNat ≤ 0xFFF ∧ awaiting.depth ≤ 16 ∧
      (∀ k < awaiting.depth, ∃ a, awaiting.frames[k]? = some a ∧ a.toNat ≤ 0xFFF) ∧
      (∀ x, awaiting.mode = .awaitingKey x → x.toNat ≤ 15) ∧
      (∀ o, ∃ c, operate o awaiting = .ok c) ∧
      ∃ p : Processor, p.Reachable ∧ p.bare = awaiting ∧
        awaiting.step = .ok (p.step.state.bare, p.step.answer) :=
  step_ne_panic (.inl (reachable_iff.mpr
    ⟨_, ((Processor.Reachable.new .standard (Seed.key 0)).apply _).apply .step, rfl⟩))

end Bare

end Chip8
