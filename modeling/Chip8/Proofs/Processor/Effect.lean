import Chip8.Proofs.Processor.Reachable
import Chip8.Proofs.Processor.Snapshot
import Mathlib.Data.Nat.Bitwise
import Mathlib.Tactic.IntervalCases

namespace Chip8

open Function

namespace Snapshot

def Fits (s : Snapshot) : Instruction → Prop
  | .ret => 0 < s.depth
  | .call _ => s.depth < 16
  | _ => True

open scoped Classical in
/-- What an instruction makes of a snapshot whose `pc` has already moved past it. -/
def Effect (s : Snapshot) : Instruction → Snapshot → Prop
  | .clear, t => t = { s with lit := ∅, dirty := true }
  | .ret, t => t = { s with pc := s.frames (s.depth - 1), depth := s.depth - 1 }
  | .jump nnn, t => t = { s with pc := nnn }
  | .call nnn, t =>
    t = { s with pc := nnn, frames := update s.frames s.depth s.pc, depth := s.depth + 1 }
  | .skipEqByte x kk, t => t = s.skipIf (s.v x = kk.toNat)
  | .skipNeByte x kk, t => t = s.skipIf (s.v x ≠ kk.toNat)
  | .skipEq x y, t => t = s.skipIf (s.v x = s.v y)
  | .skipNe x y, t => t = s.skipIf (s.v x ≠ s.v y)
  | .setByte x kk, t => t = s.set x kk.toNat
  | .addByte x kk, t => t = s.set x ((s.v x + kk.toNat) % 256)
  | .copy x y, t => t = s.set x (s.v y)
  | .or x y, t => t = s.set x (s.v x ||| s.v y)
  | .and x y, t => t = s.set x (s.v x &&& s.v y)
  | .xor x y, t => t = s.set x (s.v x ^^^ s.v y)
  | .add x y, t => t = s.setFlagged x ((s.v x + s.v y) % 256) (256 ≤ s.v x + s.v y)
  | .sub x y, t => t = s.setFlagged x ((s.v x + 256 - s.v y) % 256) (s.v y ≤ s.v x)
  | .subFrom x y, t => t = s.setFlagged x ((s.v y + 256 - s.v x) % 256) (s.v x ≤ s.v y)
  | .shiftRight x, t => t = s.setFlagged x (s.v x / 2) (s.v x % 2 = 1)
  | .shiftLeft x, t => t = s.setFlagged x (2 * s.v x % 256) (128 ≤ s.v x)
  | .setIndex nnn, t => t = { s with i := nnn }
  | .jumpFrom nnn, t => t = { s with pc := (nnn + s.v 0) % 4096 }
  | .random x kk, t =>
    t = { s.set x (s.random.nextByte.1.toNat &&& kk.toNat) with random := s.random.nextByte.2 }
  | .draw x y n, t =>
    t = { s.set 15 (if (s.lit ∩ s.sprite (s.v x) (s.v y) n).Nonempty then 1 else 0) with
      lit := {c | c ∈ s.lit ↔ c ∉ s.sprite (s.v x) (s.v y) n}, dirty := true }
  | .skipHeld x, t => t = s.skipIf (s.v x ∈ s.held)
  | .skipReleased x, t => t = s.skipIf (s.v x ∉ s.held)
  | .getDelay x, t => t = s.set x s.delay
  | .awaitKey x, t => t = { s with mode := .awaitingKey x }
  | .setDelay x, t => t = { s with delay := s.v x }
  | .setSound x, t => t = { s with sound := s.v x }
  | .addIndex x, t => t = { s with i := (s.i + s.v x) % 4096 }
  | .glyph x, t => t = { s with i := 5 * s.v x }
  | .decimal x, t =>
    ∃ d : Nat → Nat, (∀ k, d k ≤ 9) ∧ 100 * d 0 + 10 * d 1 + d 2 = s.v x ∧
      ∃ memory, Memory.Stored s.memory memory s.i 3 d ∧ t = { s with memory }
  | .save x, t =>
    ∃ memory, Memory.Stored s.memory memory s.i (x + 1) s.v ∧
      t = { s with memory }
  | .restore x, t =>
    t = { s with v := fun k ↦ if k ≤ x then s.memory ((s.i + k) % 4096) else s.v k }

theorem Effect.unique {s t u : Snapshot} {ins : Instruction} (h : s.Effect ins t)
    (h' : s.Effect ins u) : t = u := by
  cases ins with
  | decimal x =>
    obtain ⟨d, hd, hsum, memory, hm, rfl⟩ := h
    obtain ⟨d', hd', hsum', memory', hm', rfl⟩ := h'
    have same : ∀ k < 3, d k = d' k := by
      have := hd 0
      have := hd 1
      have := hd 2
      have := hd' 0
      have := hd' 1
      have := hd' 2
      intro k hk
      interval_cases k <;> omega
    have hm'' : Memory.Stored s.memory memory s.i 3 d' :=
      ⟨fun k hk ↦ (hm.1 k hk).trans (same k hk), hm.2⟩
    rw [hm''.unique hm']
  | save x =>
    obtain ⟨memory, hm, rfl⟩ := h
    obtain ⟨memory', hm', rfl⟩ := h'
    rw [hm.unique hm']
  | _ => exact Eq.trans h (Eq.symm h')

end Snapshot

namespace Processor

variable {p q : Processor} {ins : Instruction}

theorem toNat_subtract (a b : UInt8) : (a - b).toNat = (a.toNat + 256 - b.toNat) % 256 := by
  have hb := b.toNat_lt
  rw [UInt8.toNat_sub]
  omega

theorem toNat_shiftRight_one (a : UInt8) : (a >>> 1).toNat = a.toNat / 2 := by
  rw [UInt8.toNat_shiftRight]
  simp [Nat.shiftRight_eq_div_pow]

theorem toNat_shiftLeft_one (a : UInt8) : (a <<< 1).toNat = 2 * a.toNat % 256 := by
  rw [UInt8.toNat_shiftLeft]
  simp [Nat.shiftLeft_eq, Nat.mul_comm]

theorem lowBit_eq_true_iff (a : UInt8) : (a &&& 0x01 != 0) = true ↔ a.toNat % 2 = 1 := by
  have h : (a &&& 0x01).toNat = a.toNat % 2 := by
    rw [UInt8.toNat_and]
    exact Nat.and_one_is_mod _
  have hz : (0 : UInt8).toNat = 0 := rfl
  rw [bne_iff_ne, ne_eq, ← UInt8.toNat_inj, h, hz]
  omega

theorem highBit_eq_true_iff (a : UInt8) : (a &&& 0x80 != 0) = true ↔ 128 ≤ a.toNat := by
  have h : (a &&& 0x80).toNat = (a.toNat.testBit 7).toNat * 128 := by
    rw [UInt8.toNat_and]
    exact Nat.and_two_pow a.toNat 7
  have hb : a.toNat.testBit 7 = decide (128 ≤ a.toNat) := by
    have ha := a.toNat_lt
    rw [Nat.testBit_eq_decide_div_mod_eq]
    exact decide_eq_decide.mpr (by omega)
  have hz : (0 : UInt8).toNat = 0 := rfl
  rw [bne_iff_ne, ne_eq, ← UInt8.toNat_inj, h, hz, hb]
  by_cases ha : 128 ≤ a.toNat <;> simp [ha]

theorem toNat_digits (value : UInt8) :
    (digits value).map UInt8.toNat =
      [value.toNat / 100, value.toNat / 10 % 10, value.toNat % 10] := by
  have h₀ : (value / 100).toNat = value.toNat / 100 := UInt8.toNat_div _ _
  have h₁ : (value / 10 % 10).toNat = value.toNat / 10 % 10 := by
    rw [UInt8.toNat_mod, UInt8.toNat_div]
    rfl
  have h₂ : (value % 10).toNat = value.toNat % 10 := UInt8.toNat_mod _ _
  simp only [digits, List.map_cons, List.map_nil, h₀, h₁, h₂]

theorem digits_sound (value : UInt8) (d : Nat → Nat)
    (h : ∀ k, d k = ((digits value).getD k 0).toNat) :
    (∀ k, d k ≤ 9) ∧ 100 * d 0 + 10 * d 1 + d 2 = value.toNat := by
  have hd (k : Nat) : d k = ((digits value).map UInt8.toNat).getD k 0 := by
    rw [h]
    exact (List.getD_map _ _ UInt8.toNat).symm
  have hv := value.toNat_lt
  simp only [toNat_digits] at hd
  refine ⟨fun k ↦ ?_, ?_⟩
  · rw [hd]
    match k with
    | 0 => simp only [List.getD_cons_zero]; omega
    | 1 => simp only [List.getD_cons_succ, List.getD_cons_zero]; omega
    | 2 => simp only [List.getD_cons_succ, List.getD_cons_zero]; omega
    | k + 3 => exact Nat.zero_le 9
  · simp only [hd, List.getD_cons_succ, List.getD_cons_zero]
    omega

theorem effect_execute (e : p.execute ins = .ok q) : p.snapshot.Effect ins q.snapshot := by
  cases ins with
  | clear =>
    cases e
    simp only [Snapshot.Effect, snapshot, Screen.clear, Frame.lit_blank]
  | ret =>
    obtain ⟨pc, stack, hp, rfl⟩ := execute_ret_eq_ok_iff.mp e
    obtain ⟨hpc, hf, hd⟩ := CallStack.frame_pop hp
    simp only [Snapshot.Effect, snapshot, hpc, hf, hd]
  | call nnn =>
    obtain ⟨stack, hp, rfl⟩ := execute_call_eq_ok_iff.mp e
    obtain ⟨hf, hd⟩ := CallStack.frame_push hp
    simp only [Snapshot.Effect, snapshot, hf, hd, toNat_ofNat_address]
  | jump nnn =>
    cases e
    simp only [Snapshot.Effect, snapshot, toNat_ofNat_address]
  | skipEqByte x kk =>
    cases e
    simp only [Snapshot.Effect, snapshot_v]
    exact snapshot_skipIf p (by simp [UInt8.toNat_inj])
  | skipNeByte x kk =>
    cases e
    simp only [Snapshot.Effect, snapshot_v]
    exact snapshot_skipIf p (by simp [UInt8.toNat_inj])
  | skipEq x y =>
    cases e
    simp only [Snapshot.Effect, snapshot_v]
    exact snapshot_skipIf p (by simp [UInt8.toNat_inj])
  | skipNe x y =>
    cases e
    simp only [Snapshot.Effect, snapshot_v]
    exact snapshot_skipIf p (by simp [UInt8.toNat_inj])
  | setByte x kk =>
    cases e
    exact snapshot_set p x kk
  | addByte x kk =>
    cases e
    simp only [Snapshot.Effect, snapshot_v]
    exact snapshot_set p x _
  | copy x y =>
    cases e
    simp only [Snapshot.Effect, snapshot_v]
    exact snapshot_set p x _
  | or x y =>
    cases e
    simp only [Snapshot.Effect, snapshot_v]
    exact (snapshot_set p x _).trans (by rw [UInt8.toNat_or])
  | and x y =>
    cases e
    simp only [Snapshot.Effect, snapshot_v]
    exact (snapshot_set p x _).trans (by rw [UInt8.toNat_and])
  | xor x y =>
    cases e
    simp only [Snapshot.Effect, snapshot_v]
    exact (snapshot_set p x _).trans (by rw [UInt8.toNat_xor])
  | add x y =>
    cases e
    simp only [Snapshot.Effect, snapshot_v]
    exact snapshot_setFlagged p x (UInt8.toNat_add _ _) (by simp)
  | sub x y =>
    cases e
    simp only [Snapshot.Effect, snapshot_v]
    exact snapshot_setFlagged p x (toNat_subtract _ _) (by simp [UInt8.le_iff_toNat_le])
  | subFrom x y =>
    cases e
    simp only [Snapshot.Effect, snapshot_v]
    exact snapshot_setFlagged p x (toNat_subtract _ _) (by simp [UInt8.le_iff_toNat_le])
  | shiftRight x =>
    cases e
    simp only [Snapshot.Effect, snapshot_v]
    exact snapshot_setFlagged p x (toNat_shiftRight_one _) (lowBit_eq_true_iff _)
  | shiftLeft x =>
    cases e
    simp only [Snapshot.Effect, snapshot_v]
    exact snapshot_setFlagged p x (toNat_shiftLeft_one _) (highBit_eq_true_iff _)
  | setIndex nnn =>
    cases e
    simp only [Snapshot.Effect, snapshot, toNat_ofNat_address]
  | jumpFrom nnn =>
    cases e
    have hpc : (Word.wrap (p.v[0].toUInt16 + .ofNat nnn)).toNat =
        (nnn + (p.get 0).toNat) % 4096 := by
      rw [Word.toNat_wrap, UInt16.toNat_add, toNat_ofNat_address, UInt8.toNat_toUInt16,
        Nat.mod_mod_of_dvd _ (by decide), Nat.add_comm]
      rfl
    simp only [Snapshot.Effect, snapshot, hpc]
    rfl
  | random x kk =>
    simp only [execute, Except.ok.injEq] at e
    have hs := snapshot_set p x (p.random.nextByte.1 &&& kk)
    rw [UInt8.toNat_and] at hs
    rw [← e]
    exact congrArg (fun s : Snapshot ↦ { s with random := p.random.nextByte.2 }) hs
  | draw x y n =>
    have hl : (p.memory.readFrom p.i n).length ≤ 32 := by
      rw [Memory.length_readFrom]
      omega
    have hlit := Frame.lit_draw p.screen.frame (p.get x).toNat (p.get y).toNat hl
    have hhit := Frame.draw_eq_true_iff p.screen.frame (p.get x).toNat (p.get y).toNat hl
    rw [covered_readFrom] at hlit hhit
    simp only [execute, Screen.draw, Except.ok.injEq] at e
    generalize p.screen.frame.draw (p.get x).toNat (p.get y).toNat
      (p.memory.readFrom p.i n) = drawn at e hlit hhit
    have hs := snapshot_set p vf drawn.2.toUInt8
    rw [toNat_flag hhit, ← snapshot_v, ← snapshot_v] at hs
    rw [← snapshot_v, ← snapshot_v] at hlit
    rw [← e]
    refine (congrArg (fun s : Snapshot ↦ { s with lit := drawn.1.lit, dirty := true }) hs).trans ?_
    rw [hlit]
    rfl
  | skipHeld x =>
    cases e
    simp only [Snapshot.Effect, snapshot_v]
    exact snapshot_skipIf p (by simp [snapshot, Keypad.held, Keypad.isHeld])
  | skipReleased x =>
    cases e
    simp only [Snapshot.Effect, snapshot_v]
    exact snapshot_skipIf p (by simp [snapshot, Keypad.held, Keypad.isHeld])
  | getDelay x =>
    cases e
    exact snapshot_set p x _
  | awaitKey x =>
    cases e
    rfl
  | setDelay x | setSound x =>
    cases e
    simp only [Snapshot.Effect, snapshot_v]
    rfl
  | addIndex x =>
    cases e
    have hi : (Word.wrap (p.i + (p.get x).toUInt16)).toNat =
        (p.i.toNat + (p.get x).toNat) % 4096 := by
      rw [Word.toNat_wrap, UInt16.toNat_add, UInt8.toNat_toUInt16,
        Nat.mod_mod_of_dvd _ (by decide)]
    simp only [Snapshot.Effect, snapshot_v]
    exact congrArg (fun i ↦ { p.snapshot with i }) hi
  | glyph x =>
    cases e
    have hi : ((p.get x).toUInt16 * 5).toNat = 5 * (p.get x).toNat := by
      rw [toNat_glyph, Nat.mul_comm]
    simp only [Snapshot.Effect, snapshot_v]
    exact congrArg (fun i ↦ { p.snapshot with i }) hi
  | decimal x =>
    cases e
    have hm := Memory.stored_writeFrom p.memory p.i (digits (p.get x)) (by simp [digits])
    obtain ⟨hle, hsum⟩ := digits_sound (p.get x) _ fun _ ↦ rfl
    rw [← snapshot_v] at hsum
    exact ⟨_, hle, hsum, _, hm, rfl⟩
  | save x =>
    cases e
    have hl : (p.v.toList.take (x + 1)).length = x + 1 := by
      rw [List.length_take, Vector.length_toList]
      omega
    have hm := Memory.stored_writeFrom p.memory p.i (p.v.toList.take (x + 1)) (by omega)
    rw [hl] at hm
    refine ⟨_, ⟨?_, hm.2⟩, rfl⟩
    intro k hk
    refine (hm.1 k hk).trans ?_
    have hk' : k < 16 := by omega
    simp [List.getD, hk, hk', snapshot]
  | restore x =>
    simp only [execute, Except.ok.injEq] at e
    rw [← e]
    refine congrArg (fun v ↦ { p.snapshot with v }) (funext fun k ↦ ?_)
    by_cases hk : k < 16
    · have hle : (⟨k, hk⟩ : Fin 16) ≤ x ↔ k ≤ x := Iff.rfl
      simp only [hk, Vector.getElem?_ofFn, dite_true, Option.getD_some, hle]
      rw [apply_ite UInt8.toNat, Memory.toNat_read, Memory.toNat_add_mod, ← snapshot_v]
      rfl
    · have hx : ¬ k ≤ x := by omega
      simp [hk, hx, snapshot]

theorem snapshot_word (h : p.pc.toNat < 4096) : p.snapshot.word = p.word.toNat := by
  rw [word, Memory.toNat_readWord_eq, Nat.mod_eq_of_lt h]
  rfl

theorem fits_iff : p.snapshot.Fits ins ↔ ∀ e, p.execute ins ≠ .error e := by
  have hd := p.stack.depth_le
  simp only [ne_eq, execute_eq_error_iff]
  cases ins with
  | ret =>
    simp [Snapshot.Fits, snapshot, Nat.pos_iff_ne_zero]
  | call nnn =>
    simp only [Snapshot.Fits, snapshot, reduceCtorEq, false_and, false_or]
    constructor
    · intro h e refused
      obtain ⟨_, _, hf, _⟩ := refused
      exact Nat.ne_of_lt h hf
    · intro h
      exact Nat.lt_of_le_of_ne hd fun hf ↦ h .overflow ⟨nnn, rfl, hf, rfl⟩
  | _ => simp [Snapshot.Fits]

theorem exists_step_eq (h : p.pc.toNat < 4096) (mode : p.mode = .running)
    (form : ins.Form p.snapshot.word) (fits : p.snapshot.Fits ins) :
    ∃ q, p.advance.execute ins = .ok q ∧
      p.step = ⟨q, .ok (), .executing p.word p.v p.i p.pc :: announcement ins⟩ := by
  rw [snapshot_word h] at form
  have decodes := Instruction.decode?_eq_some_iff.mpr form
  have ht := p.transition
  generalize p.step = o at ht ⊢
  cases ht with
  | halted m | polled m | answered m => simp [mode] at m
  | unknown _ decoded => simp [decodes] at decoded
  | refused _ decoded executed =>
    obtain rfl := Option.some.inj (decodes.symm.trans decoded)
    have fits : p.advance.snapshot.Fits ins := by rwa [snapshot_advance]
    exact absurd executed (fits_iff.mp fits _)
  | executed _ decoded executed =>
    obtain rfl := Option.some.inj (decodes.symm.trans decoded)
    exact ⟨_, executed, rfl⟩

theorem load_eq_ok_iff {rom : Array UInt8} :
    p.load rom = .ok q ↔ ∃ memory, p.memory.load rom = .ok memory ∧ { p with memory } = q := by
  cases h : p.memory.load rom <;> simp [load, h, Except.map]

theorem exists_load_eq (p : Processor) {rom : Array UInt8} (h : rom.size ≤ Rom.capacity) :
    ∃ q, p.load rom = .ok q := by
  obtain ⟨memory, loaded⟩ := p.memory.exists_load_eq h
  exact ⟨_, load_eq_ok_iff.mpr ⟨memory, loaded, rfl⟩⟩

theorem value_of_load {rom : Array UInt8} (h : p.load rom = .ok q) {a : Nat}
    (program : 512 ≤ a) (inside : a < 4096) :
    q.memory.value a = (rom.getD (a - 512) 0).toNat := by
  obtain ⟨memory, loaded, rfl⟩ := load_eq_ok_iff.mp h
  exact (Memory.value_load loaded a inside).trans (if_neg (Nat.not_lt.mpr program))

theorem word_of_load {rom : Array UInt8} (h : p.load rom = .ok q)
    (hpc : p.pc = Memory.programStart) :
    q.snapshot.word = 256 * (rom.getD 0 0).toNat + (rom.getD 1 0).toNat := by
  have start : q.pc.toNat = 512 := by
    obtain ⟨_, _, rfl⟩ := load_eq_ok_iff.mp h
    rw [hpc]
    rfl
  have word : q.snapshot.word =
    256 * q.memory.value q.pc.toNat + q.memory.value ((q.pc.toNat + 1) % 4096) := rfl
  rw [word, start, value_of_load h (by decide) (by decide),
    value_of_load h (by decide) (by decide)]

theorem word_apply_load {rom : Array UInt8} (h : rom.size ≤ Rom.capacity)
    (hpc : p.pc = Memory.programStart) :
    ((Operation.load rom).apply p).snapshot.word =
      256 * (rom.getD 0 0).toNat + (rom.getD 1 0).toNat := by
  obtain ⟨q, hq⟩ := p.exists_load_eq h
  simp only [Operation.apply, hq]
  exact word_of_load hq hpc

theorem word_load (settings : Settings) (entropy : ChaCha.Key) {rom : Array UInt8}
    (h : rom.size ≤ Rom.capacity) :
    ((Operation.load rom).apply (new settings entropy)).snapshot.word =
      256 * (rom.getD 0 0).toNat + (rom.getD 1 0).toNat :=
  word_apply_load h rfl

/-- A step of a running processor executes the instruction at its `pc`, whenever there is one that
the stack has room for: no more and no less is done than `Snapshot.Effect` says. -/
theorem step_effect (h : p.Reachable) (mode : p.mode = .running)
    (form : ins.Form p.snapshot.word) (fits : p.snapshot.Fits ins) :
    p.step.answer = .ok () ∧
      ∀ q, q = p.step.state ↔ p.snapshot.advance.Effect ins q.snapshot := by
  obtain ⟨q, executed, step⟩ := exists_step_eq h.bounded.pc_lt mode form fits
  have effect := effect_execute executed
  rw [snapshot_advance] at effect
  rw [step]
  refine ⟨rfl, fun r ↦ ⟨?_, ?_⟩⟩
  · intro same
    rw [same]
    exact effect
  · intro effect'
    exact snapshot_injective (effect'.unique effect)

theorem step_effect_draw :
    ((Operation.load #[0xD0, 0x05]).apply (new .standard (Seed.key 0))).step.answer = .ok () ∧
      ∀ q, q = ((Operation.load #[0xD0, 0x05]).apply (new .standard (Seed.key 0))).step.state ↔
        ((Operation.load #[0xD0, 0x05]).apply
          (new .standard (Seed.key 0))).snapshot.advance.Effect (.draw 0 0 5) q.snapshot :=
  step_effect ((Reachable.new .standard (Seed.key 0)).apply _) rfl
    (word_load .standard (Seed.key 0) (by decide)) trivial

end Processor

end Chip8
