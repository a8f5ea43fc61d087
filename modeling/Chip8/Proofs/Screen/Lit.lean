import Chip8.Proofs.Screen.Drawing
import Mathlib.Data.Set.Basic

namespace Chip8.Frame

def lit (f : Frame) : Set (Nat × Nat) :=
  {c | c.1 < 64 ∧ c.2 < 32 ∧ f.pixel c.1 c.2 = true}

/-- The pixels under the set bits of a sprite at column `x` and row `y`. -/
def covered (x y : Nat) (sprite : List UInt8) : Set (Nat × Nat) :=
  {c | ∃ k, ∃ h : k < sprite.length, ∃ j < 8,
    c = ((x + j) % 64, (y + k) % 32) ∧ sprite[k].toNat.testBit (7 - j) = true}

theorem mem_lit {f : Frame} {a b : Nat} :
    (a, b) ∈ f.lit ↔ a < 64 ∧ b < 32 ∧ f.pixel a b = true :=
  Iff.rfl

theorem lit_injective : Function.Injective lit := by
  rintro ⟨rows⟩ ⟨rows'⟩ h
  congr 1
  ext y hy : 1
  refine BitVec.eq_of_getMsbD_eq fun x hx ↦ ?_
  have hp (f : Vector (BitVec 64) 32) : (x, y) ∈ lit ⟨f⟩ ↔ f[y].getMsbD x = true := by
    simp [mem_lit, hx, hy, pixel, row, Nat.mod_eq_of_lt hx, Nat.mod_eq_of_lt hy]
  rw [Bool.eq_iff_iff, ← hp, ← hp, h]

@[simp] theorem lit_blank : blank.lit = ∅ := by
  ext ⟨a, b⟩
  simp [mem_lit, pixel, row, blank]

theorem mem_covered_iff {x y a b : Nat} {sprite : List UInt8} :
    (a, b) ∈ covered x y sprite ↔ a < 64 ∧ b < 32 ∧ 0 < toggles x y a b sprite := by
  rw [toggles_pos_iff]
  constructor
  · intro h
    obtain ⟨k, hk, j, hj, hc, hb⟩ := h
    obtain ⟨rfl, rfl⟩ := Prod.mk.inj hc
    have ha : (x + j) % 64 < 64 := Nat.mod_lt _ (by decide)
    refine ⟨ha, Nat.mod_lt _ (by decide), k, hk, (Nat.mod_mod _ _).symm, ?_⟩
    rw [Nat.mod_mod]
    exact (getMsbD_strip_eq_true_iff ha).mpr ⟨j, hj, rfl, hb⟩
  · intro h
    obtain ⟨ha, hb, k, hk, hy, hs⟩ := h
    rw [Nat.mod_eq_of_lt ha] at hs
    rw [Nat.mod_eq_of_lt hb] at hy
    obtain ⟨j, hj, rfl, hbit⟩ := (getMsbD_strip_eq_true_iff ha).mp hs
    exact ⟨k, hk, j, hj, by rw [hy], hbit⟩

variable (f : Frame) (x y : Nat) {sprite : List UInt8}

/-- A pixel is lit afterwards if it was lit or is covered, but not both. -/
theorem lit_draw (h : sprite.length ≤ 32) :
    (f.draw x y sprite).1.lit = {c | c ∈ f.lit ↔ c ∉ covered x y sprite} := by
  ext ⟨a, b⟩
  have hle := toggles_le_one x y a b h
  have hc : (a, b) ∈ {c | c ∈ f.lit ↔ c ∉ covered x y sprite} ↔
      ((a, b) ∈ f.lit ↔ (a, b) ∉ covered x y sprite) := Iff.rfl
  rw [hc, mem_lit, mem_lit, mem_covered_iff, pixel_draw]
  rcases Nat.le_one_iff_eq_zero_or_eq_one.mp hle with ht | ht
  · simp [ht]
  · simp only [ht]
    by_cases ha : a < 64 <;> by_cases hb : b < 32 <;> simp [ha, hb]

theorem draw_eq_true_iff (h : sprite.length ≤ 32) :
    (f.draw x y sprite).2 = true ↔ (f.lit ∩ covered x y sprite).Nonempty := by
  rw [← Bool.not_eq_false, draw_eq_false_iff]
  constructor
  · intro hn
    push Not at hn
    obtain ⟨a, ha, b, hb, hlt⟩ := hn
    have hle := toggles_le_one x y a b h
    refine ⟨(a, b), mem_lit.mpr ⟨ha, hb, ?_⟩, mem_covered_iff.mpr ⟨ha, hb, ?_⟩⟩
    · by_contra hp
      rw [Bool.not_eq_true] at hp
      rw [hp, Bool.toNat_false] at hlt
      omega
    · have := Bool.toNat_le (f.pixel a b)
      omega
  · intro h hall
    obtain ⟨⟨a, b⟩, hl, hc⟩ := h
    obtain ⟨ha, hb, hp⟩ := mem_lit.mp hl
    obtain ⟨_, _, ht⟩ := mem_covered_iff.mp hc
    have hle := hall a ha b hb
    rw [hp, Bool.toNat_true] at hle
    omega

end Chip8.Frame
