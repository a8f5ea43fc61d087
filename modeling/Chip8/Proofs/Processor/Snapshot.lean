import Chip8.Processor.Execute
import Chip8.Proofs.Memory.Value
import Chip8.Proofs.Screen.Lit

namespace Chip8

/-- Beyond the last register, cell or slot there are zeros; slots from `depth` on are dead. -/
structure Snapshot where
  v : Nat → Nat
  i : Nat
  pc : Nat
  mode : Mode
  memory : Nat → Nat
  frames : Nat → Nat
  depth : Nat
  lit : Set (Nat × Nat)
  dirty : Bool
  held : Set Nat
  delay : Nat
  sound : Nat
  clock : Oscillator
  random : Generator

def CallStack.frame (s : CallStack) (k : Nat) : Nat :=
  (s.frames[k]?.getD 0).toNat

def Keypad.held (k : Keypad) : Set Nat :=
  {key | k.mask.getLsbD key = true}

def Processor.snapshot (p : Processor) : Snapshot where
  v x := (p.v[x]?.getD 0).toNat
  i := p.i.toNat
  pc := p.pc.toNat
  mode := p.mode
  memory := p.memory.value
  frames := p.stack.frame
  depth := p.stack.depth
  lit := p.screen.frame.lit
  dirty := p.screen.dirty
  held := p.keypad.held
  delay := p.timers.delay.toNat
  sound := p.timers.sound.toNat
  clock := p.timers.clock
  random := p.random

theorem CallStack.ext_frame {s t : CallStack} (hf : s.frame = t.frame)
    (hd : s.depth = t.depth) : s = t := by
  obtain ⟨frames, _, _⟩ := s
  obtain ⟨frames', _, _⟩ := t
  obtain rfl : _ = _ := hd
  congr 1
  ext k hk : 1
  have hv := congrFun hf k
  simpa [frame, hk, UInt16.toNat_inj] using hv

theorem Keypad.held_injective : Function.Injective held := by
  rintro ⟨mask⟩ ⟨mask'⟩ h
  congr 1
  refine BitVec.eq_of_getLsbD_eq fun key hk ↦ ?_
  rw [Bool.eq_iff_iff]
  exact Set.ext_iff.mp h key

theorem Processor.snapshot_injective : Function.Injective snapshot := by
  intro p q h
  simp only [snapshot, Snapshot.mk.injEq] at h
  obtain ⟨hv, hi, hpc, hmode, hmemory, hframes, hdepth, hlit, hdirty, hheld, hdelay, hsound,
    hclock, hrandom⟩ := h
  have v : p.v = q.v := by
    ext x hx : 1
    have hv := congrFun hv x
    simpa [hx, UInt8.toNat_inj] using hv
  rw [UInt16.toNat_inj] at hi hpc
  rw [UInt8.toNat_inj] at hdelay hsound
  obtain ⟨_, _, _, _, _, _, ⟨_, _⟩, _, ⟨_, _, _⟩, _⟩ := p
  obtain ⟨_, _, _, _, _, _, ⟨_, _⟩, _, ⟨_, _, _⟩, _⟩ := q
  simp only at v hi hpc hmode hmemory hframes hdepth hlit hdirty hheld hdelay hsound hclock hrandom
  rw [v, hi, hpc, hmode, Memory.value_injective hmemory, CallStack.ext_frame hframes hdepth,
    Frame.lit_injective hlit, hdirty, Keypad.held_injective hheld, hdelay, hsound, hclock, hrandom]

namespace Snapshot

def word (s : Snapshot) : Nat :=
  256 * s.memory s.pc + s.memory ((s.pc + 1) % 4096)

def advance (s : Snapshot) : Snapshot :=
  { s with pc := (s.pc + 2) % 4096 }

open scoped Classical in
noncomputable def skipIf (s : Snapshot) (condition : Prop) : Snapshot :=
  if condition then s.advance else s

def set (s : Snapshot) (x n : Nat) : Snapshot :=
  { s with v := Function.update s.v x n }

open scoped Classical in
/-- First the flag and then register `x`. -/
noncomputable def setFlagged (s : Snapshot) (x n : Nat) (flag : Prop) : Snapshot :=
  (s.set 15 (if flag then 1 else 0)).set x n

/-- The pixels that a sprite of `n` bytes covers at column `x` and row `y`. -/
def sprite (s : Snapshot) (x y n : Nat) : Set (Nat × Nat) :=
  {c | ∃ k < n, ∃ j < 8, c = ((x + j) % 64, (y + k) % 32) ∧
    (s.memory ((s.i + k) % 4096)).testBit (7 - j) = true}

end Snapshot

theorem CallStack.frame_push {s t : CallStack} {a : UInt16} (h : s.push a = .ok t) :
    t.frame = Function.update s.frame s.depth a.toNat ∧ t.depth = s.depth + 1 := by
  simp only [push] at h
  split at h
  case isFalse => cases h
  case isTrue hd =>
    cases h
    refine ⟨?_, rfl⟩
    funext k
    by_cases hk : k = s.depth
    · subst hk
      simp [frame, hd]
    · rw [Function.update_of_ne hk]
      simp [frame, Ne.symm hk]

theorem CallStack.frame_pop {s t : CallStack} {a : UInt16} (h : s.pop = .ok (a, t)) :
    a.toNat = s.frame (s.depth - 1) ∧ t.frame = s.frame ∧ t.depth = s.depth - 1 := by
  match s with
  | ⟨_, 0, _⟩ => cases h
  | ⟨frames, depth + 1, hd⟩ =>
    cases h
    refine ⟨?_, rfl, rfl⟩
    have hd : depth < 16 := hd
    simp [frame, hd]

namespace Processor

variable (p : Processor)

theorem snapshot_advance : p.advance.snapshot = p.snapshot.advance := by
  have hpc : (Word.wrap (p.pc + 2)).toNat = (p.pc.toNat + 2) % 4096 := by
    simp only [Word.toNat_wrap, UInt16.toNat_add, UInt16.reduceToNat]
    omega
  exact congrArg (fun pc ↦ { p.snapshot with pc }) hpc

theorem snapshot_skipIf {condition : Bool} {P : Prop} (h : condition = true ↔ P) :
    (p.skipIf condition).snapshot = p.snapshot.skipIf P := by
  cases condition
  · have hP : ¬ P := fun hP ↦ by simpa using h.mpr hP
    simp [skipIf, Snapshot.skipIf, hP]
  · have hP : P := h.mp rfl
    simp [skipIf, Snapshot.skipIf, hP, snapshot_advance]

@[simp] theorem snapshot_v (x : Fin 16) : p.snapshot.v x = (p.get x).toNat := by
  simp [snapshot, get]

theorem snapshot_set (x : Fin 16) (value : UInt8) :
    (p.set x value).snapshot = p.snapshot.set x value.toNat := by
  have hv : (p.set x value).snapshot.v = Function.update p.snapshot.v x value.toNat := by
    funext y
    by_cases hy : y = x
    · subst hy
      simp [snapshot, set]
    · rw [Function.update_of_ne hy]
      simp [snapshot, set, Ne.symm hy]
  exact congrArg (fun v ↦ { p.snapshot with v }) hv

open scoped Classical in
theorem toNat_flag {flag : Bool} {P : Prop} (h : flag = true ↔ P) :
    flag.toUInt8.toNat = if P then 1 else 0 := by
  cases flag
  · rw [if_neg (fun hP ↦ by simpa using h.mpr hP)]
    rfl
  · rw [if_pos (h.mp rfl)]
    rfl

theorem snapshot_setFlagged (x : Fin 16) {value : UInt8} {n : Nat} {flag : Bool} {P : Prop}
    (hn : value.toNat = n) (h : flag = true ↔ P) :
    (p.setFlagged x value flag).snapshot = p.snapshot.setFlagged x n P := by
  rw [setFlagged, snapshot_set, snapshot_set, hn, toNat_flag h]
  rfl

theorem covered_readFrom (x y n : Nat) :
    Frame.covered x y (p.memory.readFrom p.i n) = p.snapshot.sprite x y n := by
  ext c
  simp only [Frame.covered, Snapshot.sprite, Set.mem_ofPred_eq, Memory.toNat_getElem_readFrom,
    Memory.length_readFrom, exists_prop]
  rfl

end Processor

end Chip8
