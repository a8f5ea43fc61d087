import Chip8.Proofs.Bare.Basic
import Chip8.Proofs.Screen.Drawing
import Mathlib.Tactic.ByContra

namespace Chip8

namespace Frame

variable (f : Frame) (x y k : Nat) (byte : UInt8)

def pixels : Bare.Pixels :=
  Vector.ofFn fun y ↦ Vector.ofFn fun x ↦ f.pixel x y

def spot (a : Nat) : BitVec 64 :=
  BitVec.twoPow 64 (63 - a)

/-- The first `k` pixels of a strip. -/
def stripTo (x : Nat) (byte : UInt8) : Nat → BitVec 64
  | 0 => 0
  | k + 1 =>
    stripTo x byte k ^^^ if byte.toNat.testBit (7 - k) then spot ((x + k) % 64) else 0

theorem getMsbD_spot {a c : Nat} (ha : a < 64) (hc : c < 64) :
    (spot c).getMsbD a = decide (a = c) := by
  rw [spot, BitVec.getMsbD_eq_getLsbD, BitVec.getLsbD_twoPow]
  simp only [ha, decide_true, Bool.true_and]
  rw [← Bool.decide_and]
  exact decide_eq_decide.mpr (by omega)

theorem getMsbD_stripTo {a : Nat} (ha : a < 64) (hk : k ≤ 8) :
    (stripTo x byte k).getMsbD a = true ↔
      ∃ j < k, a = (x + j) % 64 ∧ byte.toNat.testBit (7 - j) = true := by
  induction k with
  | zero => simp [stripTo]
  | succ k ih =>
    have hc : (x + k) % 64 < 64 := Nat.mod_lt _ (by decide)
    have ih := ih (by omega)
    rw [stripTo, BitVec.getMsbD_xor]
    by_cases hj : a = (x + k) % 64 ∧ byte.toNat.testBit (7 - k) = true
    · -- eight pixels in a row of sixty-four do not meet
      have apart : (stripTo x byte k).getMsbD a = false := by
        rw [← Bool.not_eq_true, ih]
        intro h
        obtain ⟨j, hj', rfl, _⟩ := h
        omega
      rw [apart, if_pos hj.2, getMsbD_spot ha hc]
      simp only [Bool.false_xor, decide_eq_true_eq]
      exact ⟨fun _ ↦ ⟨k, by omega, hj⟩, fun _ ↦ hj.1⟩
    · have unset : (if byte.toNat.testBit (7 - k) then spot ((x + k) % 64) else 0).getMsbD a =
          false := by
        split
        case isTrue hb =>
          rw [getMsbD_spot ha hc, decide_eq_false_iff_not]
          exact fun h ↦ hj ⟨h, hb⟩
        case isFalse => exact BitVec.getMsbD_zero
      rw [unset, Bool.xor_false, ih]
      constructor
      · intro h
        obtain ⟨j, hj', h⟩ := h
        exact ⟨j, by omega, h⟩
      · intro h
        obtain ⟨j, hj', h⟩ := h
        rcases Nat.lt_succ_iff_lt_or_eq.mp hj' with hj' | rfl
        · exact ⟨j, hj', h⟩
        · exact absurd h hj

theorem stripTo_eight : stripTo x byte 8 = strip x byte := by
  refine BitVec.eq_of_getMsbD_eq fun a ha ↦ ?_
  rw [Bool.eq_iff_iff, getMsbD_stripTo x 8 byte ha (Nat.le_refl 8), getMsbD_strip_eq_true_iff ha]

theorem getElem_pixels {a b : Nat} (ha : a < 64) (hb : b < 32) :
    f.pixels[b][a] = f.pixel a b := by
  simp [pixels]

theorem pixels_blank : blank.pixels = Bare.blank := by
  ext b hb a ha : 2
  rw [getElem_pixels blank ha hb]
  simp [blank, pixel, row, Bare.blank]

theorem pixels_toggle_spot {a b : Nat} (ha : a < 64) (hb : b < 32) :
    (f.toggle b (spot a)).pixels = f.pixels.set b (f.pixels[b].set a !f.pixel a b) := by
  ext b' hb' a' ha' : 2
  rw [getElem_pixels _ ha' hb', pixel_toggle, Nat.mod_eq_of_lt hb, Nat.mod_eq_of_lt hb',
    Nat.mod_eq_of_lt ha', getMsbD_spot ha' ha, Vector.getElem_set]
  by_cases hbb : b = b'
  · subst hbb
    rw [if_pos rfl, Vector.getElem_set]
    by_cases haa : a = a'
    · simp [haa]
    · simp [haa, Ne.symm haa, pixels]
  · simp [hbb, pixels]

theorem flip_pixels {a b : Nat} (ha : a < 64) (hb : b < 32) :
    Bare.flip f.pixels a b = .ok ((f.toggle b (spot a)).pixels, f.pixel a b) := by
  simp only [Bare.flip, Checked.get_eq _ hb, Checked.set_eq _ hb, Checked.get_eq _ ha,
    Checked.set_eq _ ha, Checked.ok_bind, Checked.pure_eq, getElem_pixels f ha hb,
    pixels_toggle_spot f ha hb]

theorem toggle_toggle (s t : BitVec 64) :
    (f.toggle y s).toggle (y % 32) t = f.toggle y (s ^^^ t) := by
  simp [toggle, row, BitVec.xor_assoc]

theorem toggle_zero : f.toggle y 0 = f := by
  obtain ⟨rows⟩ := f
  simp [toggle, row]

theorem hit_eq_true_iff (bits : BitVec 64) :
    (f.row y &&& bits != 0) = true ↔
      ∃ a < 64, f.pixel a y = true ∧ bits.getMsbD a = true := by
  rw [bne_iff_ne]
  constructor
  · intro h
    by_contra hn
    refine h (BitVec.eq_of_getMsbD_eq fun a ha ↦ ?_)
    have unlit : ((f.row y).getMsbD a && bits.getMsbD a) = false := by
      rw [← Bool.not_eq_true, Bool.and_eq_true]
      intro h
      obtain ⟨hp, hb⟩ := h
      refine hn ⟨a, ha, ?_, hb⟩
      rwa [pixel, Nat.mod_eq_of_lt ha]
    rw [BitVec.getMsbD_and, unlit]
    exact BitVec.getMsbD_zero.symm
  · intro hm h
    obtain ⟨a, ha, hp, hb⟩ := hm
    have hm := congrArg (·.getMsbD a) h
    rw [pixel, Nat.mod_eq_of_lt ha] at hp
    simp [hp, hb] at hm

theorem getMsbD_stripTo_next (hk : k < 8) :
    (stripTo x byte k).getMsbD ((x + k) % 64) = false := by
  rw [← Bool.not_eq_true, getMsbD_stripTo x k byte (Nat.mod_lt _ (by decide)) (by omega)]
  intro h
  obtain ⟨j, hj, h, _⟩ := h
  omega

theorem hit_xor_spot {s : BitVec 64} {c : Nat} (hc : c < 64) (apart : s.getMsbD c = false) :
    (f.row y &&& (s ^^^ spot c) != 0) = (f.row y &&& s != 0 || f.pixel c y) := by
  rw [Bool.eq_iff_iff, Bool.or_eq_true, hit_eq_true_iff, hit_eq_true_iff]
  simp only [BitVec.getMsbD_xor]
  constructor
  · intro h
    obtain ⟨a, ha, hp, hb⟩ := h
    by_cases hac : a = c
    · subst hac
      exact .inr hp
    · refine .inl ⟨a, ha, hp, ?_⟩
      simpa [getMsbD_spot ha hc, hac] using hb
  · intro h
    rcases h with ⟨a, ha, hp, hb⟩ | hp
    · have hac : a ≠ c := by
        rintro rfl
        simp [apart] at hb
      exact ⟨a, ha, hp, by simp [getMsbD_spot ha hc, hac, hb]⟩
    · exact ⟨c, hc, hp, by simp [getMsbD_spot hc hc, apart]⟩

theorem foldlM_drawBit (hk : k ≤ 8) (hit : Bool) :
    (List.range k).foldlM (Bare.drawBit x y byte) (f.pixels, hit) =
      .ok ((f.toggle y (stripTo x byte k)).pixels, hit || f.row y &&& stripTo x byte k != 0) := by
  induction k with
  | zero =>
    have hz : (f.row y &&& stripTo x byte 0 != 0) = false := by simp [stripTo]
    rw [hz, stripTo, toggle_zero, Bool.or_false]
    rfl
  | succ k ih =>
    have hc : (x + k) % 64 < 64 := Nat.mod_lt _ (by decide)
    have hy : y % 32 < 32 := Nat.mod_lt _ (by decide)
    have apart := getMsbD_stripTo_next x k byte hk
    rw [List.range_succ, List.foldlM_append, ih (by omega)]
    simp only [Checked.ok_bind, List.foldlM_cons, List.foldlM_nil, Bare.drawBit, stripTo]
    by_cases hb : byte.toNat.testBit (7 - k) = true
    · have old : (f.toggle y (stripTo x byte k)).pixel ((x + k) % 64) (y % 32) =
          f.pixel ((x + k) % 64) y := by
        rw [pixel_toggle, pixel_mod, Nat.mod_eq_of_lt hc, apart, Bool.and_false, Bool.xor_false]
      simp only [if_pos hb, flip_pixels _ hc hy, toggle_toggle, old, Checked.ok_bind,
        Checked.pure_eq, hit_xor_spot f y hc apart, Bool.or_assoc]
    · have same : stripTo x byte k ^^^ 0 = stripTo x byte k := BitVec.xor_zero
      simp only [if_neg hb, same, Checked.pure_eq]
      rfl

theorem drawRows_pixels (sprite : List UInt8) (hit : Bool) :
    Bare.drawRows x y (f.pixels, hit) sprite =
      .ok ((f.draw x y sprite).1.pixels, hit || (f.draw x y sprite).2) := by
  induction sprite generalizing f y hit with
  | nil =>
    rw [draw_nil, Bool.or_false]
    rfl
  | cons byte sprite ih =>
    rw [Bare.drawRows, foldlM_drawBit f x y 8 byte (Nat.le_refl 8), stripTo_eight,
      Checked.ok_bind, ih, draw_cons, Bool.or_assoc]

end Frame

end Chip8
