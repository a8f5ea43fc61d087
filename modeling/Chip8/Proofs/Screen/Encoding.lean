import Chip8.Proofs.Screen.Stamping
import Chip8.Screen.Texture

namespace Chip8

namespace Frame

/-- The frame whose pixels are lit where the first of their three bytes is full. -/
def ofTexture (bytes : List UInt8) : Frame :=
  ⟨.ofFn fun y ↦ (BitVec.ofBoolListBE (List.ofFn fun x : Fin 64 ↦
    bytes.getD (3 * (64 * y.val + x)) 0 = 255)).cast List.length_ofFn⟩

variable {f g : Frame} {x y c n : Nat}

theorem length_flatMap_range {α : Type} {row : Nat → List α} {width : Nat}
    (even : ∀ i, (row i).length = width) (n : Nat) :
    ((List.range n).flatMap row).length = width * n := by
  induction n with
  | zero => rfl
  | succ n ih =>
    rw [List.range_succ, List.flatMap_append, List.length_append, ih, List.flatMap_singleton, even,
      Nat.mul_succ]

theorem getElem?_flatMap_range {α : Type} {row : Nat → List α} {width i j : Nat}
    (even : ∀ i, (row i).length = width) (hi : i < n) (hj : j < width) :
    ((List.range n).flatMap row)[width * i + j]? = (row i)[j]? := by
  induction n with
  | zero => exact absurd hi (Nat.not_lt_zero i)
  | succ n ih =>
    have before := length_flatMap_range even n
    rw [List.range_succ, List.flatMap_append, List.flatMap_singleton]
    rcases Nat.lt_succ_iff_lt_or_eq.mp hi with hi | rfl
    · have inside : width * i + j < width * n := by
        calc
          width * i + j < width * (i + 1) := by rw [Nat.mul_succ]; omega
          _ ≤ width * n := Nat.mul_le_mul_left width hi
      rw [List.getElem?_append_left (by rwa [before]), ih hi]
    · rw [List.getElem?_append_right (by rw [before]; omega), before, Nat.add_sub_cancel_left]

theorem length_textureRow (f : Frame) (y : Nat) : (f.textureRow y).length = 192 :=
  length_flatMap_range (fun _ ↦ List.length_replicate) 64

theorem length_texture (f : Frame) : f.texture.length = 6144 :=
  length_flatMap_range f.length_textureRow 32

theorem getElem?_texture (f : Frame) (hx : x < 64) (hy : y < 32) (hc : c < 3) :
    f.texture[3 * (64 * y + x) + c]? = some (brightness (f.pixel x y)) := by
  have place : 3 * (64 * y + x) + c = 192 * y + (3 * x + c) := by omega
  rw [texture, place, getElem?_flatMap_range f.length_textureRow hy (by omega), textureRow,
    getElem?_flatMap_range (fun _ ↦ List.length_replicate) hx hc, List.getElem?_replicate,
    if_pos hc]

theorem pixel_ofTexture (bytes : List UInt8) (hx : x < 64) (hy : y < 32) :
    (ofTexture bytes).pixel x y = decide (bytes.getD (3 * (64 * y + x)) 0 = 255) := by
  simp only [pixel, row, ofTexture, Fin.getElem_fin, Fin.val_ofNat, Vector.getElem_ofFn,
    BitVec.getMsbD_cast, BitVec.getMsbD_ofBoolListBE, List.getD_eq_getElem?_getD,
    List.getElem?_ofFn, Nat.mod_eq_of_lt hx, Nat.mod_eq_of_lt hy, hx, dite_true, Option.getD_some]

theorem ofTexture_texture (f : Frame) : ofTexture f.texture = f := by
  refine eq_of_pixel_eq fun x hx y hy ↦ ?_
  have first := f.getElem?_texture hx hy (Nat.zero_lt_succ 2)
  rw [pixel_ofTexture _ hx hy, List.getD_eq_getElem?_getD, ← Nat.add_zero (3 * _), first]
  cases f.pixel x y <;> rfl

theorem texture_injective (h : g.texture = f.texture) : g = f := by
  rw [← g.ofTexture_texture, h, ofTexture_texture]

theorem brightness_ne_iff {lit lit' : Bool} :
    some (brightness lit') ≠ some (brightness lit) ↔ lit' ≠ lit := by
  cases lit <;> cases lit' <;> decide

theorem exists_place (h : n < 6144) : ∃ x < 64, ∃ y < 32, ∃ c < 3, n = 3 * (64 * y + x) + c :=
  ⟨n / 3 % 64, by omega, n / 192, by omega, n % 3, by omega, by omega⟩

theorem getElem?_texture_ne_iff (f g : Frame) (n : Nat) :
    g.texture[n]? ≠ f.texture[n]? ↔
      ∃ x < 64, ∃ y < 32, ∃ c < 3, n = 3 * (64 * y + x) + c ∧ g.pixel x y ≠ f.pixel x y := by
  constructor
  · intro differ
    rcases Nat.lt_or_ge n 6144 with h | h
    · obtain ⟨x, hx, y, hy, c, hc, rfl⟩ := exists_place h
      rw [getElem?_texture g hx hy hc, getElem?_texture f hx hy hc, brightness_ne_iff] at differ
      exact ⟨x, hx, y, hy, c, hc, rfl, differ⟩
    · refine absurd ?_ differ
      rw [List.getElem?_eq_none (by rwa [length_texture]),
        List.getElem?_eq_none (by rwa [length_texture])]
  · intro h
    obtain ⟨x, hx, y, hy, c, hc, rfl, differ⟩ := h
    rwa [getElem?_texture g hx hy hc, getElem?_texture f hx hy hc, brightness_ne_iff]

end Frame

namespace Screen

open Chip8.Frame (ofTexture hits toggles_eq_hits)

theorem pixel_draw_ne_iff (s : Screen) (x y : UInt8) (sprite : List UInt8) {a b : Nat}
    (ha : a < 64) (hb : b < 32) :
    (s.draw x y sprite).1.frame.pixel a b ≠ s.frame.pixel a b ↔
      hits x.toNat y.toNat a b sprite % 2 = 1 := by
  have drawn := s.frame.pixel_draw x.toNat y.toNat a b sprite
  rw [toggles_eq_hits _ _ ha hb] at drawn
  rw [draw, drawn]
  cases s.frame.pixel a b <;> simp

/-- Three bytes show a pixel, and all bytes together the frame. A sprite changes just the bytes of
the pixels that an odd number of its bits falls on. -/
theorem texture_faithful (s : Screen) :
    let f := s.frame
    f.texture.length = 64 * 32 * 3 ∧
      (∀ x < 64, ∀ y < 32, ∀ c < 3,
        f.texture[3 * (64 * y + x) + c]? = some (if f.pixel x y then 255 else 0)) ∧
      ofTexture f.texture = f ∧
      (∀ g : Frame, g.texture = f.texture → g = f) ∧
      ∀ (x y : UInt8) (sprite : List UInt8) (n : Nat),
        (s.draw x y sprite).1.frame.texture[n]? ≠ f.texture[n]? ↔
          ∃ a < 64, ∃ b < 32, ∃ c < 3, n = 3 * (64 * b + a) + c ∧
            hits x.toNat y.toNat a b sprite % 2 = 1 := by
  intro f
  refine ⟨f.length_texture, fun x hx y hy c hc ↦ f.getElem?_texture hx hy hc, f.ofTexture_texture,
    fun g ↦ Frame.texture_injective, fun x y sprite n ↦ ?_⟩
  rw [Frame.getElem?_texture_ne_iff]
  constructor
  · intro h
    obtain ⟨a, ha, b, hb, c, hc, place, differ⟩ := h
    exact ⟨a, ha, b, hb, c, hc, place, (s.pixel_draw_ne_iff x y sprite ha hb).mp differ⟩
  · intro h
    obtain ⟨a, ha, b, hb, c, hc, place, odd⟩ := h
    exact ⟨a, ha, b, hb, c, hc, place, (s.pixel_draw_ne_iff x y sprite ha hb).mpr odd⟩

theorem texture_faithful_corner :
    let f := (blank.draw 63 0 [0x80]).1.frame
    (63 < 64 ∧ 0 < 32 ∧ 2 < 3) ∧ f.texture[191]? = some 255 ∧
      f.texture[191]? ≠ blank.frame.texture[191]? ∧
      (ofTexture f.texture).texture = f.texture ∧ ofTexture f.texture = f := by
  intro f
  obtain ⟨-, bytes, decoded, injective, -⟩ := texture_faithful (blank.draw 63 0 [0x80]).1
  obtain ⟨-, -, -, -, changes⟩ := texture_faithful blank
  have lit : f.pixel 63 0 = true := by decide +kernel
  have last : f.texture[3 * (64 * 0 + 63) + 2]? = some 255 := by
    rw [bytes 63 (by decide) 0 (by decide) 2 (by decide), lit]
    rfl
  have once : hits (63 : UInt8).toNat (0 : UInt8).toNat 63 0 [0x80] % 2 = 1 := by decide +kernel
  have same : (ofTexture f.texture).texture = f.texture := congrArg Frame.texture decoded
  exact ⟨by decide, last, (changes 63 0 [0x80] 191).mpr ⟨63, by decide, 0, by decide, 2, by decide,
    rfl, once⟩, same, injective _ same⟩

end Screen

end Chip8
