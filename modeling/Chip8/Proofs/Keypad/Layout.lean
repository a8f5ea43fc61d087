import Chip8.Keypad.Keyboard

namespace Chip8

namespace Keyboard

def pad : List (List Nat) :=
  [[0x1, 0x2, 0x3, 0xC],
   [0x4, 0x5, 0x6, 0xD],
   [0x7, 0x8, 0x9, 0xE],
   [0xA, 0x0, 0xB, 0xF]]

def board : List (List Char) :=
  [['1', '2', '3', '4'],
   ['q', 'w', 'e', 'r'],
   ['a', 's', 'd', 'f'],
   ['z', 'x', 'c', 'v']]

/-- Each key of the keypad with the character at the same place on the keyboard. -/
def places : List (Nat × Char) :=
  pad.flatten.zip board.flatten

def Stands (code : Int) (key : Fin 16) : Prop :=
  ∃ c, (key.val, c) ∈ places ∧ code = c.toNat

def Holds (codes : List Int) (key : Nat) : Prop :=
  ∃ code ∈ codes, ∃ k : Fin 16, Stands code k ∧ k.val = key

variable {code other : Int} {key k : Fin 16} {n : Nat} {codes : List Int}

theorem layout_eq : layout = places.map fun (key, c) ↦ (c, .ofNat key) := by
  decide

theorem exists_stands (key : Fin 16) : ∃ code, Stands code key := by
  have here : ∃ e ∈ places, e.1 = key.val := by
    revert key
    decide
  obtain ⟨⟨_, c⟩, mem, rfl⟩ := here
  exact ⟨c.toNat, c, mem, rfl⟩

theorem Stands.code_unique (h : Stands code key) (h' : Stands other key) : other = code := by
  have once : ∀ e ∈ places, ∀ e' ∈ places, e.1 = e'.1 → e.2 = e'.2 := by decide
  obtain ⟨c, mem, rfl⟩ := h
  obtain ⟨d, mem', rfl⟩ := h'
  exact congrArg (fun c ↦ (c.toNat : Int)) (once _ mem' _ mem rfl)

theorem Stands.key_unique (h : Stands code key) (h' : Stands code k) : k = key := by
  have once : ∀ e ∈ places, ∀ e' ∈ places, e.2.toNat = e'.2.toNat → e.1 = e'.1 := by decide
  obtain ⟨c, mem, rfl⟩ := h
  obtain ⟨d, mem', same⟩ := h'
  exact Fin.ext (once _ mem' _ mem (Int.ofNat.inj same).symm)

theorem stands_of_key? {value : UInt8} (h : key? code = some value) :
    ∃ key : Fin 16, Stands code key ∧ .ofNat key = value := by
  rw [key?, layout_eq, List.find?_map, Option.map_map, Option.map_eq_some_iff] at h
  obtain ⟨⟨key, c⟩, found, rfl⟩ := h
  have inside : ∀ e ∈ places, e.1 < 16 := by decide
  have mem := List.mem_of_find?_eq_some found
  have same := List.find?_some found
  exact ⟨⟨key, inside _ mem⟩, ⟨c, mem, by simpa using same⟩, rfl⟩

theorem Stands.key?_eq (h : Stands code key) : key? code = some (.ofNat key) := by
  have found : key? code ≠ none := by
    obtain ⟨c, mem, rfl⟩ := h
    rw [key?, layout_eq, List.find?_map, Option.map_map, ne_eq, Option.map_eq_none_iff,
      List.find?_eq_none]
    intro none
    exact none _ mem (by simp)
  obtain ⟨value, found⟩ := Option.ne_none_iff_exists'.mp found
  obtain ⟨k, stands, rfl⟩ := stands_of_key? found
  rw [found, h.key_unique stands]

theorem isHeld_foldl_press (keys : List UInt8) (start : Keypad) (value : UInt8) :
    (keys.foldl Keypad.press start).isHeld value = true ↔
      start.isHeld value = true ∨ value.toNat < 16 ∧ value ∈ keys := by
  induction keys generalizing start with
  | nil => simp
  | cons pressed keys ih =>
    rw [List.foldl_cons, ih, Keypad.isHeld_press, List.mem_cons, eq_comm (a := value)]
    simp only [Bool.or_eq_true, Bool.and_eq_true, decide_eq_true_eq, or_assoc, and_or_left]

theorem isHeld_keypad {value : UInt8} :
    (keypad codes).isHeld value = true ↔ Holds codes value.toNat := by
  have released : Keypad.released.isHeld value = false := by simp [Keypad.isHeld, Keypad.released]
  rw [keypad, isHeld_foldl_press, released, List.mem_filterMap]
  constructor
  · intro h
    rcases h with h | ⟨_, code, mem, found⟩
    · cases h
    · obtain ⟨key, stands, rfl⟩ := stands_of_key? found
      exact ⟨code, mem, key, stands, (Keypad.toNat_ofNat_key key).symm⟩
  · intro held
    obtain ⟨code, mem, key, stands, same⟩ := held
    have same : value = .ofNat key := by rw [same, UInt8.ofNat_toNat]
    subst same
    refine .inr ⟨?_, code, mem, stands.key?_eq⟩
    rw [Keypad.toNat_ofNat_key]
    exact key.isLt

theorem Holds.lt (h : Holds codes n) : n < 16 := by
  obtain ⟨_, _, key, _, rfl⟩ := h
  exact key.isLt

theorem getLsbD_keypad : (keypad codes).mask.getLsbD n = true ↔ Holds codes n := by
  rcases Nat.lt_or_ge n 16 with inside | beyond
  · have held := @isHeld_keypad codes (.ofNat n)
    rwa [Keypad.isHeld, Keypad.toNat_ofNat_key ⟨n, inside⟩] at held
  · rw [BitVec.getLsbD_of_ge _ _ beyond]
    exact iff_of_false Bool.false_ne_true fun held ↦ absurd held.lt (Nat.not_lt.mpr beyond)

theorem Stands.holds_iff (h : Stands code key) : Holds codes key ↔ code ∈ codes := by
  constructor
  · intro held
    obtain ⟨other, mem, k, stands, same⟩ := held
    obtain rfl := Fin.ext same
    rwa [← h.code_unique stands]
  · intro mem
    exact ⟨code, mem, key, h, rfl⟩

theorem keypad_congr {codes' : List Int}
    (same : ∀ code key, Stands code key → (code ∈ codes' ↔ code ∈ codes)) :
    keypad codes' = keypad codes := by
  refine Keypad.eq_of_isHeld_eq fun value ↦ ?_
  rw [Bool.eq_iff_iff, isHeld_keypad, isHeld_keypad]
  refine exists_congr fun code ↦ and_congr_left fun stood ↦ ?_
  obtain ⟨key, stands, -⟩ := stood
  exact same code key stands

theorem mask_keypad_append (codes codes' : List Int) :
    (keypad (codes ++ codes')).mask = (keypad codes).mask ||| (keypad codes').mask := by
  refine BitVec.eq_of_getLsbD_eq fun n _ ↦ ?_
  rw [Bool.eq_iff_iff, BitVec.getLsbD_or, Bool.or_eq_true, getLsbD_keypad, getLsbD_keypad,
    getLsbD_keypad]
  simp only [Holds, List.mem_append, or_and_right, exists_or]

end Keyboard

end Chip8
