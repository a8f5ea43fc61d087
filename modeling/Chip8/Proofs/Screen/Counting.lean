import Chip8.Proofs.Screen.Lit
import Chip8.Screen.Basic
import Mathlib.Algebra.BigOperators.Fin
import Mathlib.Data.Fintype.BigOperators
import Mathlib.Tactic.ByContra

namespace Chip8

namespace Frame

/-- The set bits of a sprite, each as its row from the top and its place from the left. -/
def bits (sprite : List UInt8) : Finset (Fin sprite.length × Fin 8) :=
  Finset.univ.filter fun c ↦ sprite[c.1].toNat.testBit (7 - c.2) = true

def hits (x y a b : Nat) (sprite : List UInt8) : Nat :=
  ((bits sprite).filter fun c ↦ (x + c.2) % 64 = a ∧ (y + c.1) % 32 = b).card

def rowHits (x a : Nat) (pixels : UInt8) : Finset (Fin 8) :=
  Finset.univ.filter fun j ↦ pixels.toNat.testBit (7 - j) = true ∧ (x + j) % 64 = a

variable {x y a b : Nat} {pixels : UInt8} {sprite : List UInt8}

theorem mem_bits {c : Fin sprite.length × Fin 8} :
    c ∈ bits sprite ↔ sprite[c.1].toNat.testBit (7 - c.2) = true := by
  simp [bits]

theorem hits_eq_sum (x y a b : Nat) (sprite : List UInt8) :
    hits x y a b sprite =
      ∑ r : Fin sprite.length, if (y + r) % 32 = b then (rowHits x a sprite[r]).card else 0 := by
  simp only [hits, bits, rowHits, Finset.filter_filter, Finset.card_filter, Fintype.sum_prod_type]
  refine Finset.sum_congr rfl fun r _ ↦ ?_
  split
  case isTrue hy => simp only [hy, and_true]
  case isFalse hy => simp only [hy, and_false, if_false, Finset.sum_const_zero]

theorem hits_cons (x y a b : Nat) (pixels : UInt8) (sprite : List UInt8) :
    hits x y a b (pixels :: sprite) =
      (if y % 32 = b then (rowHits x a pixels).card else 0) + hits x (y + 1) a b sprite := by
  rw [hits_eq_sum, hits_eq_sum]
  refine (Fin.sum_univ_succ _).trans (congrArg₂ (· + ·) rfl ?_)
  refine Finset.sum_congr rfl fun r _ ↦ ?_
  have below : y + r.succ.val = y + 1 + r.val := by simp only [Fin.val_succ]; omega
  rw [below]
  rfl

theorem card_rowHits (x : Nat) (pixels : UInt8) (ha : a < 64) :
    (rowHits x a pixels).card = ((strip x pixels).getMsbD a).toNat := by
  have iff : (strip x pixels).getMsbD a = true ↔
      ∃ j < 8, a = (x + j) % 64 ∧ pixels.toNat.testBit (7 - j) = true :=
    getMsbD_strip_eq_true_iff ha
  cases h : (strip x pixels).getMsbD a with
  | true =>
    obtain ⟨j, hj, rfl, hb⟩ := iff.mp h
    -- Eight pixels in a row of sixty-four do not meet, so that no other bit is on this column.
    have one : rowHits x ((x + j) % 64) pixels = {⟨j, hj⟩} := by
      ext k
      simp only [rowHits, Finset.mem_filter, Finset.mem_univ, true_and, Finset.mem_singleton,
        Fin.ext_iff]
      constructor
      · intro hk
        have := k.isLt
        omega
      · intro hk
        rw [hk]
        exact ⟨hb, rfl⟩
    rw [one, Finset.card_singleton]
    rfl
  | false =>
    have none : rowHits x a pixels = ∅ := by
      rw [rowHits, Finset.filter_eq_empty_iff]
      intro j _ hj
      rw [iff.mpr ⟨j, j.isLt, hj.2.symm, hj.1⟩] at h
      cases h
    rw [none, Finset.card_empty]
    rfl

theorem toggles_eq_hits (x y : Nat) (ha : a < 64) (hb : b < 32) (sprite : List UInt8) :
    toggles x y a b sprite = hits x y a b sprite := by
  induction sprite generalizing y with
  | nil => rfl
  | cons pixels sprite ih =>
    rw [toggles, hits_cons, ih, card_rowHits x pixels ha, Nat.mod_eq_of_lt ha, Nat.mod_eq_of_lt hb]
    by_cases hy : y % 32 = b <;> simp [hy]

theorem row_and_ne_zero_iff (f : Frame) (y : Nat) (pixels : BitVec 64) :
    (f.row y &&& pixels != 0) = true ↔
      ∃ a < 64, ∃ b < 32, f.pixel a b = true ∧ (f.toggle y pixels).pixel a b = false := by
  have goes (a b : Nat) : (f.pixel a b && (y % 32 = b % 32 && pixels.getMsbD (a % 64))) = true ↔
      f.pixel a b = true ∧ (f.toggle y pixels).pixel a b = false := by
    rw [pixel_toggle]
    cases f.pixel a b <;> simp
  rw [bne_iff_ne, ne_eq, row_and_eq_zero_iff]
  push Not
  simp only [ne_eq, Bool.not_eq_false, goes]

/-- A sprite collides exactly if some pixel goes out when one of its rows is drawn after those
above it. -/
theorem draw_eq_true_iff_exists (f : Frame) (x y : Nat) (sprite : List UInt8) :
    (f.draw x y sprite).2 = true ↔
      ∃ k < sprite.length, ∃ a < 64, ∃ b < 32,
        (f.draw x y (sprite.take k)).1.pixel a b = true ∧
          (f.draw x y (sprite.take (k + 1))).1.pixel a b = false := by
  induction sprite generalizing f y with
  | nil => simp
  | cons pixels sprite ih =>
    rw [draw_cons, Bool.or_eq_true, ih, row_and_ne_zero_iff]
    constructor
    · rintro (first | ⟨k, hk, later⟩)
      · exact ⟨0, by simp, first⟩
      · exact ⟨k + 1, by simpa using hk, later⟩
    · rintro ⟨k, hk, goes⟩
      cases k with
      | zero => exact .inl goes
      | succ k => exact .inr ⟨k, by simpa using hk, goes⟩

theorem draw_eq_true_iff_hits (f : Frame) (x y : Nat) (sprite : List UInt8) :
    (f.draw x y sprite).2 = true ↔
      ∃ a < 64, ∃ b < 32, 2 ≤ (f.pixel a b).toNat + hits x y a b sprite := by
  rw [← Bool.not_eq_false, draw_eq_false_iff]
  push Not
  constructor
  · rintro ⟨a, ha, b, hb, twice⟩
    rw [toggles_eq_hits x y ha hb] at twice
    exact ⟨a, ha, b, hb, twice⟩
  · rintro ⟨a, ha, b, hb, twice⟩
    rw [← toggles_eq_hits x y ha hb] at twice
    exact ⟨a, ha, b, hb, twice⟩

theorem pixel_wrap (f : Frame) (a b : Nat) : f.pixel (a % 64) (b % 32) = f.pixel a b := by
  rw [pixel_mod, pixel, pixel, Nat.mod_mod]

theorem draw_eq_true_iff_bits (f : Frame) (x y : Nat) (short : sprite.length ≤ 32) :
    (f.draw x y sprite).2 = true ↔ ∃ c ∈ bits sprite, f.pixel (x + c.2) (y + c.1) = true := by
  rw [draw_eq_true_iff f x y short]
  constructor
  · rintro ⟨_, ⟨-, -, lit⟩, k, hk, j, hj, rfl, bit⟩
    rw [pixel_wrap] at lit
    exact ⟨(⟨k, hk⟩, ⟨j, hj⟩), mem_bits.mpr bit, lit⟩
  · rintro ⟨⟨k, j⟩, bit, lit⟩
    rw [mem_bits] at bit
    rw [← pixel_wrap] at lit
    exact ⟨_, ⟨Nat.mod_lt _ (by decide), Nat.mod_lt _ (by decide), lit⟩,
      k, k.isLt, j, j.isLt, rfl, bit⟩

end Frame

namespace Screen

open Chip8.Frame (bits hits toggles_eq_hits)

/-- A pixel is toggled once for each set bit that falls on it. The sprite collides exactly if some
pixel is met more than once, where being lit already counts as once: that is when some pixel goes
out, if only for a moment. -/
theorem draw_counts (s : Screen) (x y : UInt8) (sprite : List UInt8) :
    let s' := (s.draw x y sprite).1
    (∀ a < 64, ∀ b < 32, s'.frame.pixel a b =
        (s.frame.pixel a b ^^ decide (hits x.toNat y.toNat a b sprite % 2 = 1))) ∧
      s'.dirty = true ∧
      ((s.draw x y sprite).2 = true ↔ ∃ a < 64, ∃ b < 32,
        2 ≤ (s.frame.pixel a b).toNat + hits x.toNat y.toNat a b sprite) ∧
      ((s.draw x y sprite).2 = true ↔
        ∃ k < sprite.length, ∃ a < 64, ∃ b < 32,
          (s.draw x y (sprite.take k)).1.frame.pixel a b = true ∧
            (s.draw x y (sprite.take (k + 1))).1.frame.pixel a b = false) ∧
      (sprite.length ≤ 32 →
        ((s.draw x y sprite).2 = true ↔
          ∃ c ∈ bits sprite, s.frame.pixel (x.toNat + c.2) (y.toNat + c.1) = true)) := by
  intro s'
  refine ⟨fun a ha b hb ↦ ?_, rfl, s.frame.draw_eq_true_iff_hits _ _ sprite,
    s.frame.draw_eq_true_iff_exists _ _ sprite, s.frame.draw_eq_true_iff_bits _ _⟩
  have drawn := s.frame.pixel_draw x.toNat y.toNat a b sprite
  rwa [toggles_eq_hits _ _ ha hb] at drawn

theorem draw_counts_tall :
    (blank.draw 63 31 (List.replicate 33 0x80)).1.frame.pixel 63 31 = false ∧
      (blank.draw 63 31 (List.replicate 33 0x80)).2 = true ∧
      ((List.replicate 32 (0xFF : UInt8)).length ≤ 32 ∧
        (blank.draw 63 31 (List.replicate 32 0xFF)).2 = false) := by
  obtain ⟨pixel, -, collides, -, -⟩ := draw_counts blank 63 31 (List.replicate 33 0x80)
  obtain ⟨-, -, -, -, short⟩ := draw_counts blank 63 31 (List.replicate 32 0xFF)
  have twice : hits (63 : UInt8).toNat (31 : UInt8).toNat 63 31 (List.replicate 33 0x80) = 2 := by
    decide +kernel
  have dark (a b : Nat) : blank.frame.pixel a b = false := by
    simp [blank, Frame.blank, Frame.pixel, Frame.row]
  have small : (List.replicate 32 (0xFF : UInt8)).length ≤ 32 := by decide
  refine ⟨?_, ?_, small, ?_⟩
  · rw [pixel 63 (by decide) 31 (by decide), dark, twice]
    rfl
  · refine collides.mpr ⟨63, by decide, 31, by decide, ?_⟩
    rw [dark, twice]
    exact Nat.le_refl 2
  · rw [← Bool.not_eq_true, short small]
    rintro ⟨c, -, lit⟩
    rw [dark] at lit
    cases lit

end Screen

end Chip8
