import Chip8.Proofs.Screen.Counting
import Mathlib.Algebra.Order.BigOperators.Group.Finset

namespace Chip8

structure Stamp where
  x : UInt8
  y : UInt8
  sprite : List UInt8

namespace Stamp

def weight (c : Stamp) : Nat :=
  (Frame.bits c.sprite).card

def toggles (c : Stamp) (a b : Nat) : Nat :=
  Frame.toggles c.x.toNat c.y.toNat a b c.sprite

end Stamp

namespace Frame

def population (f : Frame) : Nat :=
  (Finset.univ.filter fun c : Fin 64 × Fin 32 ↦ f.pixel c.1 c.2 = true).card

theorem eq_of_pixel_eq {f g : Frame} (h : ∀ a < 64, ∀ b < 32, f.pixel a b = g.pixel a b) :
    f = g := by
  apply lit_injective
  ext ⟨a, b⟩
  rw [mem_lit, mem_lit]
  constructor
  · rintro ⟨ha, hb, lit⟩
    exact ⟨ha, hb, (h a ha b hb) ▸ lit⟩
  · rintro ⟨ha, hb, lit⟩
    exact ⟨ha, hb, (h a ha b hb).symm ▸ lit⟩

theorem population_eq_sum (f : Frame) :
    f.population = ∑ c : Fin 64 × Fin 32, (f.pixel c.1 c.2).toNat := by
  rw [population, Finset.card_filter]
  refine Finset.sum_congr rfl fun c _ ↦ ?_
  cases f.pixel c.1 c.2 <;> rfl

theorem sum_toggles (x y : Nat) (sprite : List UInt8) :
    ∑ c : Fin 64 × Fin 32, toggles x y c.1 c.2 sprite = (bits sprite).card := by
  -- Each set bit falls on one pixel: count them by that pixel.
  let spot (c : Fin sprite.length × Fin 8) : Fin 64 × Fin 32 :=
    (Fin.ofNat 64 (x + c.2), Fin.ofNat 32 (y + c.1))
  rw [Finset.card_eq_sum_card_fiberwise (f := spot) (t := Finset.univ) fun c _ ↦ by simp]
  refine Finset.sum_congr rfl fun c _ ↦ ?_
  rw [toggles_eq_hits x y c.1.isLt c.2.isLt, hits]
  refine congrArg Finset.card (Finset.filter_congr fun d _ ↦ ?_)
  simp only [spot, Prod.ext_iff, Fin.ext_iff, Fin.val_ofNat]

theorem eq_zero_of_testBit {pixels : UInt8}
    (unset : ∀ j : Fin 8, pixels.toNat.testBit j = false) : pixels = 0 := by
  rw [← UInt8.toNat_inj]
  refine Nat.eq_of_testBit_eq fun i ↦ ?_
  rw [UInt8.toNat_zero, Nat.zero_testBit]
  by_cases hi : i < 8
  · exact unset ⟨i, hi⟩
  · have wide : 2 ^ 8 ≤ 2 ^ i := Nat.pow_le_pow_right (by decide) (Nat.le_of_not_lt hi)
    exact Nat.testBit_lt_two_pow (Nat.lt_of_lt_of_le pixels.toNat_lt wide)

theorem bits_eq_empty_iff {sprite : List UInt8} :
    bits sprite = ∅ ↔ ∀ pixels ∈ sprite, pixels = 0 := by
  rw [bits, Finset.filter_eq_empty_iff]
  constructor
  · intro unset pixels mem
    obtain ⟨r, hr, rfl⟩ := List.mem_iff_getElem.mp mem
    refine eq_zero_of_testBit fun j ↦ ?_
    have bit := unset (Finset.mem_univ (⟨r, hr⟩, j.rev))
    have back : 7 - j.rev.val = j.val := by
      rw [Fin.val_rev]
      omega
    rw [back, Bool.not_eq_true] at bit
    exact bit
  · intro zero c _
    simp [zero sprite[c.1] (List.getElem_mem _)]

theorem toNat_xor_odd (lit : Bool) (n : Nat) :
    (lit ^^ decide (n % 2 = 1)).toNat = (lit.toNat + n) % 2 := by
  rcases Nat.mod_two_eq_zero_or_one n with h | h <;> cases lit <;> simp [h] <;> omega

theorem toNat_pixel_draw (f : Frame) (x y a b : Nat) (sprite : List UInt8) :
    ((f.draw x y sprite).1.pixel a b).toNat =
      ((f.pixel a b).toNat + toggles x y a b sprite) % 2 := by
  rw [pixel_draw, toNat_xor_odd]

theorem draw_draw_comm (f : Frame) (x y x' y' : Nat) (sprite sprite' : List UInt8) :
    ((f.draw x y sprite).1.draw x' y' sprite').1 =
      ((f.draw x' y' sprite').1.draw x y sprite).1 := by
  refine eq_of_pixel_eq fun a _ b _ ↦ ?_
  rw [pixel_draw, pixel_draw, pixel_draw, pixel_draw, Bool.xor_assoc, Bool.xor_assoc]
  exact congrArg _ (Bool.xor_comm _ _)

theorem draw_draw_self (f : Frame) (x y : Nat) (sprite : List UInt8) :
    ((f.draw x y sprite).1.draw x y sprite).1 = f := by
  refine eq_of_pixel_eq fun a _ b _ ↦ ?_
  rw [pixel_draw, pixel_draw, Bool.xor_assoc, Bool.xor_self, Bool.xor_false]

end Frame

namespace Screen

/-- The screen after one stamp after another, and which of them collided. -/
def stamp (s : Screen) : List Stamp → Screen × List Bool
  | [] => (s, [])
  | c :: cs =>
    let (s, hit) := s.draw c.x c.y c.sprite
    let (s, hits) := s.stamp cs
    (s, hit :: hits)

def toggles (cs : List Stamp) (a b : Nat) : Nat :=
  (cs.map (·.toggles a b)).sum

variable {s : Screen} {c d : Stamp} {cs ds : List Stamp} {a b : Nat}

theorem toNat_pixel_stamp (s : Screen) (cs : List Stamp) (a b : Nat) :
    ((s.stamp cs).1.frame.pixel a b).toNat = ((s.frame.pixel a b).toNat + toggles cs a b) % 2 := by
  induction cs generalizing s with
  | nil => cases h : s.frame.pixel a b <;> simp [stamp, toggles, h]
  | cons c cs ih =>
    have first := s.frame.toNat_pixel_draw c.x.toNat c.y.toNat a b c.sprite
    have rest := ih (s.draw c.x c.y c.sprite).1
    rw [draw, first, Nat.mod_add_mod, Nat.add_assoc] at rest
    rw [toggles, List.map_cons, List.sum_cons]
    exact rest

/-- Stamps do not collide exactly if no pixel is met more than once, where being lit already counts
as once. -/
theorem forall_stamp_eq_false_iff (s : Screen) (cs : List Stamp) :
    (∀ hit ∈ (s.stamp cs).2, hit = false) ↔
      ∀ a < 64, ∀ b < 32, (s.frame.pixel a b).toNat + toggles cs a b ≤ 1 := by
  induction cs generalizing s with
  | nil => simp [stamp, toggles, Bool.toNat_le]
  | cons c cs ih =>
    have split : (∀ hit ∈ (s.stamp (c :: cs)).2, hit = false) ↔
        (s.draw c.x c.y c.sprite).2 = false ∧
          ∀ hit ∈ ((s.draw c.x c.y c.sprite).1.stamp cs).2, hit = false := List.forall_mem_cons
    have once (a b : Nat) :
        (s.frame.pixel a b).toNat + c.toggles a b ≤ 1 ∧
            ((s.frame.pixel a b).toNat + c.toggles a b) % 2 + toggles cs a b ≤ 1 ↔
          (s.frame.pixel a b).toNat + toggles (c :: cs) a b ≤ 1 := by
      rw [toggles, toggles, List.map_cons, List.sum_cons]
      omega
    rw [split, ih]
    simp only [draw, Frame.draw_eq_false_iff, Frame.toNat_pixel_draw, ← once]
    constructor
    · rintro ⟨first, rest⟩ a ha b hb
      exact ⟨first a ha b hb, rest a ha b hb⟩
    · intro all
      exact ⟨fun a ha b hb ↦ (all a ha b hb).1, fun a ha b hb ↦ (all a ha b hb).2⟩

theorem sum_toggles (cs : List Stamp) :
    ∑ c : Fin 64 × Fin 32, toggles cs c.1 c.2 = (cs.map Stamp.weight).sum := by
  induction cs with
  | nil => simp [toggles]
  | cons d cs ih =>
    have first : ∑ c : Fin 64 × Fin 32, d.toggles c.1 c.2 = d.weight := Frame.sum_toggles _ _ _
    rw [List.map_cons, List.sum_cons, ← first, ← ih, ← Finset.sum_add_distrib]
    rfl

theorem population_stamp_eq_iff (s : Screen) (cs : List Stamp) :
    (s.stamp cs).1.frame.population = s.frame.population + (cs.map Stamp.weight).sum ↔
      ∀ a < 64, ∀ b < 32, (s.frame.pixel a b).toNat + toggles cs a b ≤ 1 := by
  rw [Frame.population_eq_sum, Frame.population_eq_sum, ← sum_toggles, ← Finset.sum_add_distrib]
  -- No pixel of the new frame has more than its share, so that the sums agree if all shares do.
  have le (c : Fin 64 × Fin 32) (_ : c ∈ Finset.univ) :
      ((s.frame.pixel c.1 c.2).toNat + toggles cs c.1 c.2) % 2 ≤
        (s.frame.pixel c.1 c.2).toNat + toggles cs c.1 c.2 := Nat.mod_le _ _
  have once (n : Nat) : n % 2 = n ↔ n ≤ 1 := by omega
  simp only [toNat_pixel_stamp]
  rw [Finset.sum_eq_sum_iff_of_le le]
  simp only [Finset.mem_univ, forall_const, Prod.forall, Fin.forall_iff, once]

theorem stamp_perm (h : cs.Perm ds) (s : Screen) : (s.stamp cs).1 = (s.stamp ds).1 := by
  induction h generalizing s with
  | nil => rfl
  | cons c _ ih => exact ih (s.draw c.x c.y c.sprite).1
  | swap c d cs =>
    have frames := s.frame.draw_draw_comm d.x.toNat d.y.toNat c.x.toNat c.y.toNat d.sprite c.sprite
    exact congrArg (fun frame ↦ (stamp ⟨frame, true⟩ cs).1) frames
  | trans _ _ ih ih' => exact (ih s).trans (ih' s)

theorem frame_stamp_twice (s : Screen) (c : Stamp) : (s.stamp [c, c]).1.frame = s.frame :=
  s.frame.draw_draw_self c.x.toNat c.y.toNat c.sprite

theorem true_mem_stamp_iff (same : (s.stamp cs).1.frame = s.frame) :
    true ∈ (s.stamp cs).2 ↔ ∃ c ∈ cs, ∃ pixels ∈ c.sprite, pixels ≠ 0 := by
  have silent : true ∉ (s.stamp cs).2 ↔ ∀ hit ∈ (s.stamp cs).2, hit = false := by
    constructor
    · intro none hit mem
      cases hit with
      | false => rfl
      | true => exact absurd mem none
    · intro all mem
      cases all true mem
  have nothing : (cs.map Stamp.weight).sum = 0 ↔ ∀ c ∈ cs, ∀ pixels ∈ c.sprite, pixels = 0 := by
    simp only [List.sum_eq_zero_iff_forall_eq_nat, List.forall_mem_map, Stamp.weight,
      Finset.card_eq_zero, Frame.bits_eq_empty_iff]
  rw [← not_iff_not, silent, forall_stamp_eq_false_iff, ← population_stamp_eq_iff, same]
  push Not
  rw [← nothing]
  omega

/-- Stamps leave the same screen in any order. They do not collide exactly if every set bit has lit
a pixel for good, so that what they draw cannot go out again unnoticed. -/
theorem stamps_add_up (s : Screen) (cs : List Stamp) :
    (∀ ds, cs.Perm ds → (s.stamp ds).1 = (s.stamp cs).1) ∧
      ((∀ hit ∈ (s.stamp cs).2, hit = false) ↔
        (s.stamp cs).1.frame.population = s.frame.population + (cs.map Stamp.weight).sum) ∧
      ((s.stamp cs).1.frame = s.frame → (∃ c ∈ cs, ∃ pixels ∈ c.sprite, pixels ≠ 0) →
        true ∈ (s.stamp cs).2) ∧
      ∀ c : Stamp, (s.stamp [c, c]).1.frame = s.frame ∧
        (true ∈ (s.stamp [c, c]).2 ↔ ∃ pixels ∈ c.sprite, pixels ≠ 0) := by
  refine ⟨fun ds perm ↦ (stamp_perm perm s).symm, ?_, ?_, fun c ↦ ?_⟩
  · rw [forall_stamp_eq_false_iff, population_stamp_eq_iff]
  · intro same drawn
    exact (true_mem_stamp_iff same).mpr drawn
  · have same := s.frame_stamp_twice c
    refine ⟨same, ?_⟩
    rw [true_mem_stamp_iff same]
    simp

/-- Two stamps that meet in one pixel, the first of them drawn across the edge of the screen. -/
def crossing : List Stamp :=
  [⟨62, 30, [0x3C, 0x42]⟩, ⟨1, 31, [0xFF]⟩]

theorem stamps_add_up_crossing :
    crossing.Perm crossing.reverse ∧
      (blank.stamp crossing.reverse).1 = (blank.stamp crossing).1 ∧
      (blank.stamp (crossing ++ crossing)).1.frame = blank.frame ∧
      (∃ c ∈ crossing ++ crossing, ∃ pixels ∈ c.sprite, pixels ≠ 0) ∧
      true ∈ (blank.stamp (crossing ++ crossing)).2 := by
  have perm : crossing.Perm crossing.reverse := crossing.reverse_perm.symm
  have same : (blank.stamp (crossing ++ crossing)).1.frame = blank.frame := by decide +kernel
  have drawn : ∃ c ∈ crossing ++ crossing, ∃ pixels ∈ c.sprite, pixels ≠ 0 :=
    ⟨_, List.mem_cons_self, 0x3C, List.mem_cons_self, by decide⟩
  obtain ⟨order, -, -, -⟩ := stamps_add_up blank crossing
  obtain ⟨-, -, noticed, -⟩ := stamps_add_up blank (crossing ++ crossing)
  exact ⟨perm, order _ perm, same, drawn, noticed same drawn⟩

end Screen

end Chip8
