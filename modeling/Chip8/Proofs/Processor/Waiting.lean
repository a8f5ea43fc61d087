import Chip8.Proofs.Processor.Nesting

namespace Chip8.Processor

def Operation.Attends : Operation → Prop
  | .tick _ | .press _ | .release _ | .setKeys _ | .releaseKeys | .takeFrame => True
  | .step | .load _ | .reset | .setDelay _ | .setSound _ | .resetTimers | .draw .. | .clear => False

/-- After `o` it does not matter whether `o` was done already, just before it or one operation
earlier. -/
structure Operation.Settles (o : Operation) : Prop where
  again : ∀ q, o.apply (o.apply q) = o.apply q
  earlier : ∀ o' : Operation, o'.Attends → ∀ q,
    o.apply (o'.apply (o.apply q)) = o.apply (o'.apply q)

/-- The processor `q` is `p` but for its timers, its keypad and whether its frame is still to be
taken. -/
structure Matches (p q : Processor) : Prop where
  v : q.v = p.v
  i : q.i = p.i
  pc : q.pc = p.pc
  mode : q.mode = p.mode
  memory : q.memory = p.memory
  stack : q.stack = p.stack
  screen : q.screen = p.screen ∨ q.screen = p.screen.takeFrame.1
  random : q.random = p.random

def waiting (p : Processor) (x : Fin 16) : Processor :=
  { p with pc := .ofNat ((p.pc.toNat + 2) % 4096), mode := .awaitingKey x }

def served (p : Processor) (x key : Fin 16) : Processor :=
  { p.set x (.ofNat key) with pc := .ofNat ((p.pc.toNat + 2) % 4096), mode := .running }

/-- What holds of a processor `q` that `p` has become while it waits for a key for register `x`. -/
structure Handshake (p : Processor) (x : Fin 16) (q : Processor) : Prop where
  kept : (p.waiting x).Matches q
  polled : q.keypad.mask = 0 → ∀ n, q.run n = ⟨q, ⟨n, none⟩, []⟩
  answered : q.keypad.mask ≠ 0 → ∃ (key : Fin 16) (mask : BitVec 16),
    q.keypad.mask.getLsbD key = true ∧ (∀ lower < key.val, q.keypad.mask.getLsbD lower = false) ∧
      (∀ k, mask.getLsbD k = (q.keypad.mask.getLsbD k && decide (k ≠ key))) ∧
      q.step = ⟨{ q.set x (.ofNat key) with keypad := ⟨mask⟩, mode := .running }, .ok (),
        [.keyStored key x]⟩ ∧
      (Event.keyStored key x).level = .debug ∧
      ∀ os : List Operation, (∀ o ∈ os, o.Attends) →
        (p.served x key).Matches (q.step.state.driven os) ∧
          (q.step.state.driven os).step.log.head? =
            some (.executing (p.served x key).word (p.served x key).v p.i (p.served x key).pc)
  /-- What is pressed and released again before the next step might as well not have been. -/
  unseen : ∀ os : List Operation, (∀ o ∈ os, o.Attends) →
    (∀ key, q.driven (.press key :: (os ++ [.release key])) = q.driven (os ++ [.release key]) ∧
      ((q.driven os).keypad.isHeld key = false →
        q.driven (.press key :: (os ++ [.release key])) = q.driven os)) ∧
      ∀ mask mask', q.driven (.setKeys mask :: (os ++ [.setKeys mask'])) =
        q.driven (os ++ [.setKeys mask'])

variable {p q : Processor} {x key : Fin 16} {o : Operation} {os : List Operation}

theorem Matches.refl (p : Processor) : p.Matches p :=
  ⟨rfl, rfl, rfl, rfl, rfl, rfl, .inl rfl, rfl⟩

theorem takeFrame_takeFrame (s : Screen) : s.takeFrame.1.takeFrame.1 = s.takeFrame.1 := by
  cases h : s.dirty <;> simp [Screen.takeFrame, h]

theorem Matches.apply (h : p.Matches q) (attends : o.Attends) : p.Matches (o.apply q) := by
  cases o with
  | tick | press | release | setKeys | releaseKeys => exact { h with }
  | takeFrame =>
    have screen : q.screen.takeFrame.1 = p.screen.takeFrame.1 := by
      obtain fresh | taken := h.screen
      · rw [fresh]
      · rw [taken, takeFrame_takeFrame]
    exact { h with screen := .inr screen }
  | _ => exact attends.elim

theorem Matches.driven (h : p.Matches q) (attends : ∀ o ∈ os, o.Attends) :
    p.Matches (q.driven os) := by
  induction os generalizing q with
  | nil => exact h
  | cons o os ih =>
    rw [List.forall_mem_cons] at attends
    exact ih (h.apply attends.1) attends.2

theorem step_of_released (mode : q.mode = .awaitingKey x) (released : q.keypad.mask = 0) :
    q.step = ⟨q, .ok (), []⟩ := by
  simp only [step, mode, Keypad.firstHeld_eq_none_iff.mpr released]

theorem step_of_held (mode : q.mode = .awaitingKey x) (held : q.keypad.firstHeld = some key) :
    q.step =
      ⟨{ q.set x (.ofNat key) with keypad := q.keypad.release (.ofNat key), mode := .running },
        .ok (), [.keyStored key x]⟩ := by
  simp only [step, mode, held]

theorem run_of_released (mode : q.mode = .awaitingKey x) (released : q.keypad.mask = 0) (n : Nat) :
    q.run n = ⟨q, ⟨n, none⟩, []⟩ := by
  induction n with
  | zero => rfl
  | succ n ih => simp only [run_succ, step_of_released mode released, ih, List.append_nil]

theorem Matches.step (h : p.Matches q) (mode : p.mode = .awaitingKey x)
    (released : q.keypad.mask = 0) : p.Matches q.step.state := by
  rw [step_of_released (h.mode.trans mode) released]
  exact h

theorem Matches.driven_of_released (h : p.Matches q) (mode : p.mode = .awaitingKey x)
    (attends : ∀ o ∈ os, o = .step ∨ o.Attends)
    (released : ∀ r, (r, .step) ∈ trace os q → r.keypad.mask = 0) : p.Matches (q.driven os) := by
  induction os generalizing q with
  | nil => exact h
  | cons o os ih =>
    rw [List.forall_mem_cons] at attends
    refine ih ?_ attends.2 fun r hr ↦ released r (List.mem_cons_of_mem _ hr)
    obtain rfl | attends := attends.1
    · exact h.step mode (released q List.mem_cons_self)
    · exact h.apply attends

theorem log_step_of_running (mode : q.mode = .running) :
    q.step.log.head? = some (.executing q.word q.v q.i q.pc) := by
  rw [step_of_running mode]
  cases q.advance.perform q.word q.pc <;> rfl

theorem step_of_awaitKey (mode : p.mode = .running) (fetched : p.word.toNat = 0xF00A + 0x100 * x) :
    p.step =
      ⟨p.waiting x, .ok (), [.executing p.word p.v p.i p.pc, .awaitingKey x]⟩ := by
  have decoded : Instruction.decode? p.word = some (.awaitKey x) := by
    refine Instruction.decode?_eq_some_iff.mpr ?_
    simp only [Instruction.Form]
    omega
  have past : p.advance.pc = .ofNat ((p.pc.toNat + 2) % 4096) := by
    rw [← toNat_pc_advance, UInt16.ofNat_toNat]
  simp only [step_of_running mode, perform, decoded, execute, announcement, waiting, ← past]
  rfl

theorem settles_release (key : UInt8) : (Operation.release key).Settles := by
  refine ⟨fun q ↦ ?_, fun o attends q ↦ ?_⟩
  · simp only [Operation.apply, Keypad.release_release_self]
  cases o with
  | tick | takeFrame => simp only [Operation.apply, Keypad.release_release_self]
  | press other => simp only [Operation.apply, Keypad.release_press_release]
  | release other =>
    simp only [Operation.apply, Keypad.release_comm _ other, Keypad.release_release_self]
  | setKeys | releaseKeys => rfl
  | _ => exact attends.elim

theorem settles_setKeys (mask : BitVec 16) : (Operation.setKeys mask).Settles := by
  refine ⟨fun _ ↦ rfl, fun o attends q ↦ ?_⟩
  cases o with
  | tick | takeFrame | press | release | setKeys | releaseKeys => rfl
  | _ => exact attends.elim

namespace Operation.Settles

theorem driven (h : o.Settles) (attends : ∀ o ∈ os, o.Attends) (q : Processor) :
    o.apply ((o.apply q).driven os) = o.apply (q.driven os) := by
  induction os generalizing q with
  | nil => exact h.again q
  | cons o' os ih =>
    rw [List.forall_mem_cons] at attends
    -- `rest` puts one more `o` behind `o'`, where the first one becomes needless, and removes it
    have rest := ih attends.2
    calc
      _ = o.apply ((o'.apply (o.apply q)).driven os) := rfl
      _ = o.apply ((o'.apply q).driven os) := by rw [← rest, h.earlier o' attends.1, rest]

theorem driven_cons {o' : Operation} (h : o.Settles) (undone : o.apply (o'.apply q) = o.apply q)
    (attends : ∀ o ∈ os, o.Attends) : q.driven (o' :: (os ++ [o])) = q.driven (os ++ [o]) := by
  have start : q.driven (o' :: (os ++ [o])) = (o'.apply q).driven (os ++ [o]) := rfl
  rw [start, driven_concat, driven_concat, ← h.driven attends, undone, h.driven attends]

end Operation.Settles

theorem driven_press_release (attends : ∀ o ∈ os, o.Attends) (key : UInt8) :
    q.driven (.press key :: (os ++ [.release key])) = q.driven (os ++ [.release key]) := by
  refine (settles_release key).driven_cons ?_ attends
  simp only [Operation.apply, Keypad.release_press_self]

theorem driven_release_of_not_held {key : UInt8}
    (released : (q.driven os).keypad.isHeld key = false) :
    q.driven (os ++ [.release key]) = q.driven os := by
  rw [driven_concat]
  simp only [Operation.apply, Keypad.release_eq_self released]

theorem Matches.handshake (h : (p.waiting x).Matches q) : p.Handshake x q where
  kept := h
  polled := run_of_released h.mode
  answered held := by
    obtain ⟨key, first⟩ : ∃ key, q.keypad.firstHeld = some key := by
      rw [← Option.ne_none_iff_exists']
      exact fun none ↦ held (Keypad.firstHeld_eq_none_iff.mp none)
    obtain ⟨here, lowest⟩ := Keypad.firstHeld_eq_some_iff.mp first
    have answer := step_of_held h.mode first
    refine ⟨key, (q.keypad.release (.ofNat key)).mask, here, lowest, q.keypad.getLsbD_release key,
      answer, rfl, fun os attends ↦ ?_⟩
    have stored : (p.served x key).Matches q.step.state := by
      rw [answer]
      exact { h with
        v := congrArg (·.set x (.ofNat key)) h.v
        mode := rfl }
    have later := stored.driven attends
    refine ⟨later, ?_⟩
    rw [log_step_of_running later.mode, word, later.v, later.i, later.pc, later.memory]
    rfl
  unseen os attends := by
    refine ⟨fun key ↦ ⟨driven_press_release attends key, fun released ↦ ?_⟩, fun mask mask' ↦ ?_⟩
    · rw [driven_press_release attends, driven_release_of_not_held released]
    · exact (settles_setKeys mask').driven_cons rfl attends

end Chip8.Processor
