import Chip8.Proofs.Processor.Run

namespace Chip8.Processor

inductive Operation
  | step
  | load (rom : Array UInt8)
  | reset
  | tick (elapsed : Duration)
  | setDelay (value : UInt8)
  | setSound (value : UInt8)
  | resetTimers
  | press (key : UInt8)
  | release (key : UInt8)
  | setKeys (mask : BitVec 16)
  | releaseKeys
  | draw (x y : UInt8) (sprite : List UInt8)
  | clear
  | takeFrame

def Operation.apply : Operation → Processor → Processor
  | .step, p => p.step.state
  | .load rom, p =>
    match p.load rom with
    | .ok q => q
    | .error _ => p
  | .reset, p => p.reset
  | .tick elapsed, p => { p with timers := p.timers.tick elapsed }
  | .setDelay value, p => { p with timers := p.timers.setDelay value }
  | .setSound value, p => { p with timers := p.timers.setSound value }
  | .resetTimers, p => { p with timers := p.timers.reset }
  | .press key, p => { p with keypad := p.keypad.press key }
  | .release key, p => { p with keypad := p.keypad.release key }
  | .setKeys mask, p => { p with keypad := ⟨mask⟩ }
  | .releaseKeys, p => { p with keypad := .released }
  | .draw x y sprite, p => { p with screen := (p.screen.draw x y sprite).1 }
  | .clear, p => { p with screen := p.screen.clear }
  | .takeFrame, p => { p with screen := p.screen.takeFrame.1 }

def driven (p : Processor) (os : List Operation) : Processor :=
  os.foldl (fun p o ↦ o.apply p) p

def trace : List Operation → Processor → List (Processor × Operation)
  | [], _ => []
  | o :: os, p => (p, o) :: trace os (o.apply p)

theorem driven_append (p : Processor) (os os' : List Operation) :
    p.driven (os ++ os') = (p.driven os).driven os' :=
  List.foldl_append

theorem driven_concat (p : Processor) (os : List Operation) (o : Operation) :
    p.driven (os ++ [o]) = o.apply (p.driven os) :=
  p.driven_append os [o]

theorem trace_concat (os : List Operation) (o : Operation) (p : Processor) :
    trace (os ++ [o]) p = trace os p ++ [(p.driven os, o)] := by
  induction os generalizing p with
  | nil => rfl
  | cons o' os ih => exact congrArg ((p, o') :: ·) (ih (o'.apply p))

theorem driven_replicate_step (n : Nat) (p : Processor) :
    p.driven (List.replicate n .step) = p.steps n := by
  induction n generalizing p with
  | zero => rfl
  | succ n ih => exact ih p.step.state

inductive Reachable : Processor → Prop
  | new (settings : Settings) (entropy : ChaCha.Key) : Reachable (.new settings entropy)
  | apply {p : Processor} (h : Reachable p) (o : Operation) : Reachable (o.apply p)

theorem Reachable.driven {p : Processor} (h : p.Reachable) (os : List Operation) :
    (p.driven os).Reachable := by
  induction os generalizing p with
  | nil => exact h
  | cons o os ih => exact ih (h.apply o)

/-- Addresses keep to twelve bits, saved ones too, and the timers' clock is within a tick. -/
structure Bounded (p : Processor) : Prop where
  pc_lt : p.pc.toNat < 4096
  i_lt : p.i.toNat < 4096
  saved_lt : ∀ a ∈ p.stack.toList, a.toNat < 4096
  phase_lt : p.timers.clock.phase < 1000000000

variable {p q : Processor} {ins : Instruction}

theorem bounded_new (settings : Settings) (entropy : ChaCha.Key) :
    (new settings entropy).Bounded where
  pc_lt := by simp [new, Memory.programStart]
  i_lt := by simp [new]
  saved_lt := by simp [new]
  phase_lt := by simp [new, Timers.new]

theorem Bounded.advance (h : p.Bounded) : p.advance.Bounded :=
  { h with pc_lt := by simp only [Processor.advance, Word.toNat_wrap]; omega }

theorem Bounded.skipIf (h : p.Bounded) (condition : Bool) : (p.skipIf condition).Bounded := by
  cases condition
  · exact h
  · exact h.advance

theorem Bounded.registers (h : p.Bounded) (v : Vector UInt8 16) : Bounded { p with v } :=
  { h with }

theorem toNat_ofNat_address (nnn : Fin 4096) : (UInt16.ofNat nnn).toNat = nnn := by
  simp only [UInt16.toNat_ofNat']
  omega

theorem toNat_glyph (value : UInt8) : (value.toUInt16 * 5).toNat = value.toNat * 5 := by
  have hv := value.toNat_lt
  simp only [UInt16.toNat_mul, UInt8.toNat_toUInt16, UInt16.reduceToNat]
  omega

theorem Bounded.execute (h : p.Bounded) (e : p.execute ins = .ok q) : q.Bounded := by
  cases ins with
  | ret =>
    obtain ⟨pc, stack, hp, rfl⟩ := execute_ret_eq_ok_iff.mp e
    have hs := CallStack.toList_of_pop hp
    exact { h with
      pc_lt := h.saved_lt pc (by simp [hs])
      saved_lt := fun a ha ↦ h.saved_lt a (by simp [hs, ha]) }
  | call nnn =>
    obtain ⟨stack, hp, rfl⟩ := execute_call_eq_ok_iff.mp e
    have hs := CallStack.toList_of_push hp
    refine { h with pc_lt := ?_, saved_lt := ?_ }
    · simp only [toNat_ofNat_address]
      exact nnn.isLt
    · intro a ha
      rw [hs, List.mem_append, List.mem_singleton] at ha
      rcases ha with ha | rfl
      · exact h.saved_lt a ha
      · exact h.pc_lt
  | jump nnn =>
    cases e
    exact { h with pc_lt := by simp only [toNat_ofNat_address]; exact nnn.isLt }
  | jumpFrom nnn =>
    cases e
    exact { h with pc_lt := by simp only [Word.toNat_wrap]; omega }
  | setIndex nnn =>
    cases e
    exact { h with i_lt := by simp only [toNat_ofNat_address]; exact nnn.isLt }
  | addIndex x =>
    cases e
    exact { h with i_lt := by simp only [Word.toNat_wrap]; omega }
  | glyph x =>
    cases e
    exact { h with i_lt := by rw [toNat_glyph]; have := (p.get x).toNat_lt; omega }
  | skipEqByte | skipNeByte | skipEq | skipNe | skipHeld | skipReleased =>
    cases e
    exact h.skipIf _
  | restore =>
    simp only [Processor.execute, Except.ok.injEq] at e
    subst e
    exact h.registers _
  | _ =>
    cases e
    exact { h with }

theorem Bounded.step (h : p.Bounded) : p.step.state.Bounded := by
  have ht := p.transition
  generalize p.step = o at ht ⊢
  cases ht with
  | halted | polled => exact h
  | answered => exact { h with }
  | unknown | refused => exact { h.advance with }
  | executed _ _ executed => exact h.advance.execute executed

theorem Bounded.apply (h : p.Bounded) (o : Operation) : (o.apply p).Bounded := by
  cases o with
  | step => exact h.step
  | load rom =>
    simp only [Operation.apply, load]
    cases p.memory.load rom with
    | error _ => exact h
    | ok memory => exact { h with }
  | reset =>
    exact {
      pc_lt := by simp [Operation.apply, reset, Memory.programStart]
      i_lt := by simp [Operation.apply, reset]
      saved_lt := by simp [Operation.apply, reset]
      phase_lt := by simp [Operation.apply, reset, Timers.reset, Oscillator.restart] }
  | tick elapsed => exact { h with phase_lt := Oscillator.phase_advance_lt _ _ }
  | resetTimers =>
    exact { h with phase_lt := by simp [Operation.apply, Timers.reset, Oscillator.restart] }
  | _ => exact { h with }

theorem Reachable.bounded (h : p.Reachable) : p.Bounded := by
  induction h with
  | new settings entropy => exact bounded_new settings entropy
  | apply _ o ih => exact ih.apply o

end Chip8.Processor
