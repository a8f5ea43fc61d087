import Chip8.Screen.Basic

namespace Chip8.Frame

/-- How often a sprite at column `x` and row `y` toggles the pixel at column `a` and row `b`. -/
def toggles (x y a b : Nat) : List UInt8 → Nat
  | [] => 0
  | pixels :: sprite =>
    (y % 32 = b % 32 && (strip x pixels).getMsbD (a % 64)).toNat + toggles x (y + 1) a b sprite

theorem pixel_draw (f : Frame) (x y a b : Nat) (sprite : List UInt8) :
    (f.draw x y sprite).1.pixel a b = (f.pixel a b ^^ toggles x y a b sprite % 2 = 1) := by
  induction sprite generalizing f y with
  | nil => simp [toggles]
  | cons pixels sprite ih =>
    rw [draw_cons, ih, pixel_toggle, toggles, Bool.xor_assoc]
    congr 1
    cases (y % 32 = b % 32 && (strip x pixels).getMsbD (a % 64))
    · simp
    · simp only [Bool.true_xor, Bool.toNat_true, ← decide_not, decide_eq_decide]
      omega

theorem pixel_mod (f : Frame) (a b : Nat) : f.pixel a (b % 32) = f.pixel a b := by
  simp [pixel, row]

theorem row_and_eq_zero_iff (f : Frame) (y : Nat) (bits : BitVec 64) :
    f.row y &&& bits = 0 ↔
      ∀ a < 64, ∀ b < 32, (f.pixel a b && (y % 32 = b % 32 && bits.getMsbD (a % 64))) = false := by
  constructor
  · intro h a ha b hb
    by_cases hy : y % 32 = b % 32
    · have hp := congrArg (·.getMsbD a) h
      rw [← pixel_mod, ← hy, pixel_mod]
      simpa [pixel, Nat.mod_eq_of_lt ha] using hp
    · simp [hy]
  · intro h
    apply BitVec.eq_of_getMsbD_eq
    intro a ha
    have hp := h a ha (y % 32) (Nat.mod_lt _ (by decide))
    rw [pixel_mod, pixel, Nat.mod_mod, Nat.mod_eq_of_lt ha] at hp
    simpa using hp

theorem toggled_le_one_iff (lit toggled : Bool) (n : Nat) :
    (lit && toggled) = false ∧ (lit ^^ toggled).toNat + n ≤ 1 ↔
      lit.toNat + (toggled.toNat + n) ≤ 1 := by
  cases lit
  · simp
  · cases toggled
    · simp
    · have twice : ¬ 1 + (1 + n) ≤ 1 := by omega
      exact iff_of_false (fun h ↦ Bool.noConfusion h.1) twice

theorem draw_eq_false_iff (f : Frame) (x y : Nat) (sprite : List UInt8) :
    (f.draw x y sprite).2 = false ↔
      ∀ a < 64, ∀ b < 32, (f.pixel a b).toNat + toggles x y a b sprite ≤ 1 := by
  induction sprite generalizing f y with
  | nil => simp [toggles, Bool.toNat_le]
  | cons pixels sprite ih =>
    rw [draw_cons, Bool.or_eq_false_iff, ih, bne_eq_false_iff_eq, row_and_eq_zero_iff]
    simp only [pixel_toggle, toggles, ← toggled_le_one_iff]
    constructor
    · intro h a ha b hb
      obtain ⟨hit, later⟩ := h
      exact ⟨hit a ha b hb, later a ha b hb⟩
    · intro h
      exact ⟨fun a ha b hb ↦ (h a ha b hb).1, fun a ha b hb ↦ (h a ha b hb).2⟩

theorem toggles_eq_zero {x y a b : Nat} {sprite : List UInt8}
    (h : ∀ k < sprite.length, (y + k) % 32 ≠ b % 32) : toggles x y a b sprite = 0 := by
  induction sprite generalizing y with
  | nil => rfl
  | cons pixels sprite ih =>
    have hy := h 0 (by simp)
    rw [toggles, ih]
    · simp_all
    · intro k hk
      have hk' := h (k + 1) (by simpa using hk)
      omega

theorem toggles_le_one (x y a b : Nat) {sprite : List UInt8} (h : sprite.length ≤ 32) :
    toggles x y a b sprite ≤ 1 := by
  induction sprite generalizing y with
  | nil => simp [toggles]
  | cons pixels sprite ih =>
    rw [List.length_cons] at h
    by_cases hy : y % 32 = b % 32
    · rw [toggles, toggles_eq_zero (fun k hk ↦ by omega)]
      exact Bool.toNat_le _
    · simpa [toggles, hy] using ih (y + 1) (by omega)

theorem toggles_pos_iff {x y a b : Nat} {sprite : List UInt8} :
    0 < toggles x y a b sprite ↔
      ∃ k, ∃ h : k < sprite.length,
        (y + k) % 32 = b % 32 ∧ (strip x sprite[k]).getMsbD (a % 64) = true := by
  induction sprite generalizing y with
  | nil => simp [toggles]
  | cons pixels sprite ih =>
    rw [toggles, Nat.add_pos_iff_pos_or_pos, ih]
    constructor
    · intro h
      rcases h with h | ⟨k, hk, hy, hs⟩
      · rw [Nat.pos_iff_ne_zero, ne_eq, Bool.toNat_eq_zero, Bool.not_eq_false] at h
        exact ⟨0, by simp, by simpa using h⟩
      · exact ⟨k + 1, by simpa using hk, by omega, hs⟩
    · intro h
      obtain ⟨k, hk, hy, hs⟩ := h
      cases k with
      | zero => exact .inl (by simp_all)
      | succ k => exact .inr ⟨k, by simpa using hk, by omega, hs⟩

theorem getMsbD_strip_eq_true_iff {x a : Nat} {pixels : UInt8} (ha : a < 64) :
    (strip x pixels).getMsbD a = true ↔
      ∃ j < 8, a = (x + j) % 64 ∧ pixels.toNat.testBit (7 - j) = true := by
  rw [getMsbD_strip x a pixels ha, BitVec.getMsbD_eq_getLsbD]
  simp only [Bool.and_eq_true, decide_eq_true_eq]
  constructor
  · intro h
    obtain ⟨hj, hb⟩ := h
    exact ⟨(a + 64 - x % 64) % 64, hj, by omega, hb⟩
  · intro h
    obtain ⟨j, hj, rfl, hb⟩ := h
    have e : ((x + j) % 64 + 64 - x % 64) % 64 = j := by omega
    rw [e]
    exact ⟨hj, hb⟩

end Chip8.Frame
