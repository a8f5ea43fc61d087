import Chip8.Proofs.Bare.Drawing

namespace Chip8

def Mode.bare : Mode → Bare.Mode
  | .running => .running
  | .awaitingKey x => .awaitingKey (.ofNat x)
  | .halted fault => .halted fault

def Processor.bare (p : Processor) : Bare where
  v := p.v
  i := p.i
  pc := p.pc
  mode := p.mode.bare
  cells := p.memory.cells
  frames := p.stack.frames
  depth := p.stack.depth
  pixels := p.screen.frame.pixels
  dirty := p.screen.dirty
  keys := p.keypad.mask
  timers := p.timers
  random := p.random

namespace Bare

variable {p q : Processor} {w : UInt16} {x : Fin 16}

theorem mask_eq_wrap (w : UInt16) : mask w = Word.wrap w := by
  rw [← UInt16.toNat_inj, Word.toNat_wrap, mask, UInt16.toNat_and]
  exact Nat.and_two_pow_sub_one_eq_mod w.toNat 12

theorem toNat_digit (w : UInt16) {shift : UInt16} (h : shift.toNat < 16) :
    (digit w shift).toNat = w.toNat >>> shift.toNat % 16 := by
  have hm : (0xF : UInt8).toNat = 2 ^ 4 - 1 := rfl
  rw [digit, UInt8.toNat_and, hm, Nat.and_two_pow_sub_one_eq_mod, UInt16.toNat_toUInt8,
    UInt16.toNat_shiftRight, Nat.mod_eq_of_lt h]
  exact Nat.mod_mod_of_dvd _ (by decide)

theorem toNat_ofNat_register (x : Fin 16) : (UInt8.ofNat x).toNat = x := by
  simp only [UInt8.toNat_ofNat']
  omega

theorem digit_eq {shift : UInt16} (hs : shift.toNat < 16)
    (h : w.toNat >>> shift.toNat % 16 = x) : digit w shift = .ofNat x := by
  rw [← UInt8.toNat_inj, toNat_digit w hs, toNat_ofNat_register, h]

theorem register_mod (x : Fin 16) : x.val % 256 = x :=
  Nat.mod_eq_of_lt (by omega)

theorem get_bare (x : Fin 16) : p.bare.get (.ofNat x) = .ok (p.get x) := by
  have hx : (UInt8.ofNat x).toNat < 16 := by rw [toNat_ofNat_register]; exact x.isLt
  rw [get, Checked.get_eq _ hx]
  simp [Processor.get, Processor.bare, register_mod]

theorem set_bare (x : Fin 16) (value : UInt8) :
    p.bare.set (.ofNat x) value = .ok (p.set x value).bare := by
  have hx : (UInt8.ofNat x).toNat < 16 := by rw [toNat_ofNat_register]; exact x.isLt
  simp only [set, Checked.set_eq _ hx, Checked.ok_bind, Checked.pure_eq]
  simp [Processor.set, Processor.bare, register_mod]

theorem setFlagged_bare (x : Fin 16) (value : UInt8) (flag : Bool) :
    p.bare.setFlagged (.ofNat x) value flag = .ok (p.setFlagged x value flag).bare := by
  have flagged := set_bare (p := p) Processor.vf flag.toUInt8
  rw [setFlagged]
  change (p.bare.set (.ofNat Processor.vf) _ >>= _) = _
  rw [flagged, Checked.ok_bind, set_bare]
  rfl

theorem advance_bare (p : Processor) : p.bare.advance = p.advance.bare := by
  rw [advance, mask_eq_wrap]
  rfl

theorem skipIf_bare (condition : Bool) : p.bare.skipIf condition = (p.skipIf condition).bare := by
  cases condition
  · rfl
  · exact advance_bare p

theorem read_bare (a : UInt16) : p.bare.read a = .ok (p.memory.read a) := by
  have ha : (Word.wrap a).toNat < 4096 := by rw [Word.toNat_wrap]; omega
  rw [read, mask_eq_wrap, Checked.get_eq _ ha]
  simp [Memory.read, Processor.bare]

theorem write_bare (a : UInt16) (value : UInt8) :
    p.bare.write a value = .ok { p with memory := p.memory.write a value : Processor }.bare := by
  have ha : (Word.wrap a).toNat < 4096 := by rw [Word.toNat_wrap]; omega
  simp only [write, mask_eq_wrap, Checked.set_eq _ ha, Checked.ok_bind, Checked.pure_eq]
  simp [Memory.write, Processor.bare]

theorem shiftLeft_or (high low : UInt8) :
    high.toUInt16 <<< 8 ||| low.toUInt16 = high.toUInt16 * 256 + low.toUInt16 := by
  have hh := high.toNat_lt
  have hl := low.toNat_lt
  have hs : (high.toUInt16 <<< 8).toNat = high.toNat <<< 8 := by
    rw [UInt16.toNat_shiftLeft]
    simp [Nat.shiftLeft_eq]
    omega
  rw [← UInt16.toNat_inj, UInt16.toNat_or, hs, UInt8.toNat_toUInt16,
    ← Nat.shiftLeft_add_eq_or_of_lt hl]
  simp only [Nat.shiftLeft_eq, UInt16.toNat_add, UInt16.toNat_mul, UInt8.toNat_toUInt16,
    UInt16.reduceToNat]
  omega

theorem readWord_bare (a : UInt16) : p.bare.readWord a = .ok (p.memory.readWord a) := by
  simp only [readWord, read_bare, Checked.ok_bind, Checked.pure_eq, shiftLeft_or,
    Memory.readWord]

theorem push_bare (a : UInt16) :
    p.bare.push a =
      .ok ((p.stack.push a).map fun stack ↦ { p with stack : Processor }.bare) := by
  have hd : p.bare.depth = p.stack.depth := rfl
  have hle := p.stack.depth_le
  rw [push, CallStack.push, hd]
  by_cases h : p.stack.depth < 16
  · have hne : p.stack.depth ≠ 16 := Nat.ne_of_lt h
    simp only [if_neg hne, dif_pos h, Checked.set_eq _ h, Checked.succ_eq h, Checked.ok_bind,
      Checked.pure_eq]
    rfl
  · have he : p.stack.depth = 16 := by omega
    rw [if_pos he, dif_neg h]
    rfl

theorem pop_bare :
    p.bare.pop =
      .ok (p.stack.pop.map fun (a, stack) ↦ (a, { p with stack : Processor }.bare)) := by
  obtain ⟨v, i, pc, mode, memory, ⟨frames, depth, hle⟩, screen, keypad, timers, random⟩ := p
  cases depth with
  | zero => rfl
  | succ depth =>
    have hd : depth < 16 := hle
    have hs : depth.succ - 1 = depth := rfl
    simp only [pop, Processor.bare, Nat.succ_ne_zero, if_false,
      Checked.pred_eq (Nat.succ_pos depth), Checked.ok_bind, hs, Checked.get_eq _ hd,
      Checked.pure_eq]
    rfl

theorem and_twoPow_ne_zero (keys : BitVec 16) {k : Nat} (hk : k < 16) :
    (keys &&& BitVec.twoPow 16 k != 0) = keys.getLsbD k := by
  rw [BitVec.and_twoPow]
  by_cases h : keys.getLsbD k = true
  · rw [if_pos h, h, bne_iff_ne]
    intro hz
    have hb := congrArg (·.getLsbD k) hz
    simp [hk] at hb
  · rw [if_neg h]
    rw [Bool.not_eq_true] at h
    rw [h]
    rfl

theorem isHeld_bare (key : UInt8) : p.bare.isHeld key = .ok (p.keypad.isHeld key) := by
  rw [isHeld, Keypad.isHeld]
  by_cases h : key.toNat < 16
  · simp only [if_pos h, Checked.bit_eq h, Checked.ok_bind, Checked.pure_eq]
    rw [and_twoPow_ne_zero _ h]
    rfl
  · rw [if_neg h, BitVec.getLsbD_of_ge _ _ (Nat.le_of_not_lt h)]
    rfl

theorem twoPow_eq_zero {k : Nat} (h : ¬ k < 16) : BitVec.twoPow 16 k = 0#16 :=
  BitVec.eq_of_getLsbD_eq fun j hj ↦ by
    rw [BitVec.getLsbD_twoPow, BitVec.getLsbD_zero]
    simp only [Bool.and_eq_false_iff, decide_eq_false_iff_not]
    omega

theorem press_bare (key : UInt8) :
    p.bare.press key = .ok { p with keypad := p.keypad.press key : Processor }.bare := by
  rw [press]
  by_cases h : key.toNat < 16
  · simp only [if_pos h, Checked.bit_eq h, Checked.ok_bind, Checked.pure_eq]
    rfl
  · have hk : p.keypad.press key = p.keypad := by
      simp [Keypad.press, twoPow_eq_zero h]
    rw [if_neg h, hk]
    rfl

theorem release_bare (key : UInt8) :
    p.bare.release key = .ok { p with keypad := p.keypad.release key : Processor }.bare := by
  rw [release]
  by_cases h : key.toNat < 16
  · simp only [if_pos h, Checked.bit_eq h, Checked.ok_bind, Checked.pure_eq]
    rfl
  · have hk : p.keypad.release key = p.keypad := by
      rw [Keypad.release, twoPow_eq_zero h, BitVec.not_zero, BitVec.and_allOnes]
    rw [if_neg h, hk]
    rfl

theorem firstHeld_bare :
    p.bare.firstHeld = p.keypad.firstHeld.map fun key : Fin 16 ↦ UInt8.ofNat key.val := by
  have range : List.range 16 = (List.finRange 16).map Fin.val := by decide
  have hk : p.bare.keys = p.keypad.mask := rfl
  rw [firstHeld, hk, Keypad.firstHeld]
  by_cases h : p.keypad.mask = 0
  · have none : (List.finRange 16).find? (fun key : Fin 16 ↦ p.keypad.mask.getLsbD key) = none := by
      rw [h]
      decide
    rw [if_pos h, none]
    rfl
  · rw [if_neg h, range, List.find?_map, Option.map_map]
    rfl

theorem draw_bare (x y : UInt8) (sprite : List UInt8) :
    p.bare.draw x y sprite =
      .ok ({ p with screen := (p.screen.draw x y sprite).1 : Processor }.bare,
        (p.screen.draw x y sprite).2) := by
  have hd := p.screen.frame.drawRows_pixels x.toNat y.toNat sprite false
  rw [Bool.false_or] at hd
  rw [draw]
  change (drawRows x.toNat y.toNat (p.screen.frame.pixels, false) sprite >>= _) = _
  rw [hd, Checked.ok_bind]
  rfl

theorem add_ofNat_succ (a : UInt16) (k : Nat) : a + .ofNat (k + 1) = a + 1 + .ofNat k := by
  rw [UInt16.ofNat_add, UInt16.add_assoc, UInt16.add_comm 1]
  rfl

theorem add_ofNat_zero (a : UInt16) : a + .ofNat 0 = a :=
  UInt16.add_zero a

theorem map_read (m : Memory) (a : UInt16) (n : Nat) :
    (List.range n).map (fun k ↦ m.read (a + .ofNat k)) = m.readFrom a n := by
  induction n generalizing a with
  | zero => rfl
  | succ n ih =>
    rw [List.range_succ_eq_map, List.map_cons, List.map_map, Memory.readFrom, ← ih (a + 1),
      add_ofNat_zero]
    congr 1
    exact List.map_congr_left fun k _ ↦ congrArg m.read (add_ofNat_succ a k)

theorem mapM_read (n : Nat) :
    (List.range n).mapM (fun k ↦ p.bare.read (p.bare.i + .ofNat k)) =
      .ok (p.memory.readFrom p.i n) := by
  rw [← map_read]
  generalize List.range n = l
  induction l with
  | nil => rfl
  | cons k l ih =>
    rw [List.mapM_cons, read_bare, Checked.ok_bind, ih]
    rfl

theorem writeFrom_append (m : Memory) (a : UInt16) (l : List UInt8) (value : UInt8) :
    m.writeFrom a (l ++ [value]) = (m.writeFrom a l).write (a + .ofNat l.length) value := by
  induction l generalizing m a with
  | nil =>
    rw [List.length_nil, add_ofNat_zero]
    rfl
  | cons x l ih =>
    rw [List.cons_append, Memory.writeFrom, ih, Memory.writeFrom, List.length_cons,
      add_ofNat_succ]

theorem foldlM_save {n : Nat} (hn : n ≤ 16) :
    (List.range n).foldlM save p.bare =
      .ok { p with memory := p.memory.writeFrom p.i (p.v.toList.take n) : Processor }.bare := by
  induction n with
  | zero => rfl
  | succ n ih =>
    have taken : p.v.toList.take (n + 1) = p.v.toList.take n ++ [p.v[n]] := by
      rw [List.take_add_one, List.getElem?_eq_getElem (by rwa [Vector.length_toList])]
      rfl
    have length : (p.v.toList.take n).length = n := by
      rw [List.length_take, Vector.length_toList]
      omega
    rw [List.range_succ, List.foldlM_append, ih (by omega), Checked.ok_bind, taken,
      writeFrom_append, length]
    generalize p.memory.writeFrom p.i (p.v.toList.take n) = memory
    have value := get_bare (p := { p with memory }) ⟨n, hn⟩
    have stored := write_bare (p := { p with memory }) (p.i + .ofNat n) p.v[n]
    simp only [List.foldlM_cons, List.foldlM_nil, save]
    rw [value, Checked.ok_bind]
    change ({ p with memory : Processor }.bare.write (p.i + .ofNat n) p.v[n] >>= pure) = _
    rw [stored]
    rfl

theorem foldlM_restore {n : Nat} (hn : n ≤ 16) :
    (List.range n).foldlM restore p.bare =
      .ok { p with v := .ofFn fun k ↦
        if k.val < n then p.memory.read (p.i + .ofNat k) else p.get k : Processor }.bare := by
  induction n with
  | zero =>
    have same : Vector.ofFn p.get = p.v := by
      ext k hk
      simp [Processor.get]
    simp only [Nat.not_lt_zero, if_false, same]
    rfl
  | succ n ih =>
    rw [List.range_succ, List.foldlM_append, ih (by omega), Checked.ok_bind]
    generalize hv : (Vector.ofFn fun k : Fin 16 ↦
      if k.val < n then p.memory.read (p.i + .ofNat k) else p.get k) = v
    have next : v.set n (p.memory.read (p.i + .ofNat n)) = Vector.ofFn fun k : Fin 16 ↦
        if k.val < n + 1 then p.memory.read (p.i + .ofNat k) else p.get k := by
      subst hv
      ext k hk : 1
      rw [Vector.getElem_set, Vector.getElem_ofFn, Vector.getElem_ofFn]
      by_cases h : n = k
      · simp [h]
      · have hlt : k < n + 1 ↔ k < n := by omega
        simp only [h, if_false, hlt]
    have value := read_bare (p := { p with v }) (p.i + .ofNat n)
    have stored := set_bare (p := { p with v }) ⟨n, hn⟩ (p.memory.read (p.i + .ofNat n))
    simp only [List.foldlM_cons, List.foldlM_nil, restore]
    change (({ p with v : Processor }.bare.read (p.i + .ofNat n) >>= _) >>= pure) = _
    rw [value, Checked.ok_bind, stored, ← next]
    rfl

end Bare

end Chip8
