namespace Chip8

/-- Bit `k` of the mask tells whether key `k` is held. -/
structure Keypad where
  mask : BitVec 16
deriving DecidableEq

namespace Keypad

def released : Keypad :=
  ⟨0⟩

/-- There is no key past `0xF`, and pressing or releasing one does nothing. -/
def press (k : Keypad) (key : UInt8) : Keypad :=
  ⟨k.mask ||| BitVec.twoPow 16 key.toNat⟩

def release (k : Keypad) (key : UInt8) : Keypad :=
  ⟨k.mask &&& ~~~BitVec.twoPow 16 key.toNat⟩

def isHeld (k : Keypad) (key : UInt8) : Bool :=
  k.mask.getLsbD key.toNat

def firstHeld (k : Keypad) : Option (Fin 16) :=
  (List.finRange 16).find? fun key ↦ k.mask.getLsbD key

theorem isHeld_press (k : Keypad) (a b : UInt8) :
    (k.press a).isHeld b = (k.isHeld b || b.toNat < 16 && a = b) := by
  simp only [isHeld, press, BitVec.getLsbD_or, BitVec.getLsbD_twoPow, ← UInt8.toNat_inj]
  by_cases h : a.toNat = b.toNat <;> simp [h]

theorem isHeld_release (k : Keypad) (a b : UInt8) :
    (k.release a).isHeld b = (k.isHeld b && a != b) := by
  simp only [isHeld, release, BitVec.getLsbD_and, BitVec.getLsbD_not, BitVec.getLsbD_twoPow]
  by_cases h : b.toNat < 16 <;> by_cases e : a = b <;> simp_all [← UInt8.toNat_inj]

theorem toNat_ofNat_key (key : Fin 16) : (UInt8.ofNat key).toNat = key :=
  UInt8.toNat_ofNat_of_lt' (Nat.lt_of_lt_of_le key.isLt (by decide))

theorem eq_of_isHeld_eq {k l : Keypad} (h : ∀ key, k.isHeld key = l.isHeld key) : k = l := by
  suffices mask : k.mask = l.mask by
    rw [← mk.injEq k.mask l.mask] at mask
    exact mask
  refine BitVec.eq_of_getLsbD_eq fun key hk ↦ ?_
  have held := h (.ofNat key)
  rwa [isHeld, isHeld, toNat_ofNat_key ⟨key, hk⟩] at held

theorem release_eq_self {k : Keypad} {a : UInt8} (released : k.isHeld a = false) :
    k.release a = k := by
  refine eq_of_isHeld_eq fun key ↦ ?_
  rw [isHeld_release]
  by_cases h : a = key
  · rw [← h, released, Bool.false_and]
  · simp [h]

theorem release_comm (k : Keypad) (a b : UInt8) :
    (k.release a).release b = (k.release b).release a := by
  refine eq_of_isHeld_eq fun key ↦ ?_
  simp only [isHeld_release, Bool.and_right_comm]

theorem release_release_self (k : Keypad) (a : UInt8) : (k.release a).release a = k.release a := by
  refine eq_of_isHeld_eq fun key ↦ ?_
  simp only [isHeld_release, Bool.and_assoc, Bool.and_self]

theorem release_press_self (k : Keypad) (a : UInt8) : (k.press a).release a = k.release a := by
  refine eq_of_isHeld_eq fun key ↦ ?_
  simp only [isHeld_release, isHeld_press]
  by_cases h : a = key <;> simp [h]

theorem release_press_release (k : Keypad) (a b : UInt8) :
    ((k.release b).press a).release b = (k.press a).release b := by
  refine eq_of_isHeld_eq fun key ↦ ?_
  simp only [isHeld_release, isHeld_press]
  cases b != key <;> simp

theorem getLsbD_release (k : Keypad) (key : Fin 16) (n : Nat) :
    (k.release (.ofNat key)).mask.getLsbD n = (k.mask.getLsbD n && decide (n ≠ key)) := by
  rw [release, toNat_ofNat_key, BitVec.getLsbD_and, BitVec.getLsbD_not, BitVec.getLsbD_twoPow]
  by_cases inside : n < 16
  · by_cases same : n = key <;> simp [inside, same, eq_comm]
  · rw [BitVec.getLsbD_of_ge _ _ (Nat.not_lt.mp inside), Bool.false_and, Bool.false_and]

theorem firstHeld_eq_none_iff {k : Keypad} : k.firstHeld = none ↔ k.mask = 0 := by
  rw [firstHeld, List.find?_eq_none]
  constructor
  · intro released
    refine BitVec.eq_of_getLsbD_eq fun key hk ↦ ?_
    simpa using released ⟨key, hk⟩ (List.mem_finRange _)
  · intro released key _
    simp [released]

theorem firstHeld_eq_some_iff {k : Keypad} {key : Fin 16} :
    k.firstHeld = some key ↔
      k.mask.getLsbD key = true ∧ ∀ lower < key.val, k.mask.getLsbD lower = false := by
  rw [firstHeld, List.find?_eq_some_iff_getElem]
  constructor
  · rintro ⟨held, i, _, rfl, released⟩
    refine ⟨held, fun lower h ↦ ?_⟩
    simpa using released lower (by simpa using h)
  · rintro ⟨held, released⟩
    refine ⟨held, key, by simp, by simp, fun lower h ↦ ?_⟩
    simpa using released lower h

end Keypad

end Chip8
