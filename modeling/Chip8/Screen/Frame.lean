namespace Chip8

/-- The rows from top to bottom; the highest bit of a row is its leftmost pixel. -/
structure Frame where
  rows : Vector (BitVec 64) 32
deriving DecidableEq

namespace Frame

def blank : Frame :=
  ⟨Vector.replicate 32 0⟩

def row (f : Frame) (y : Nat) : BitVec 64 :=
  f.rows[Fin.ofNat 32 y]

def pixel (f : Frame) (x y : Nat) : Bool :=
  (f.row y).getMsbD (x % 64)

def strip (x : Nat) (pixels : UInt8) : BitVec 64 :=
  (pixels.toBitVec ++ 0#56).rotateRight x

def toggle (f : Frame) (y : Nat) (pixels : BitVec 64) : Frame :=
  ⟨f.rows.set (Fin.ofNat 32 y) (f.row y ^^^ pixels)⟩

/-- Draws `sprite` downwards from row `y`; tells whether a lit pixel went out at any moment. -/
def draw (f : Frame) (x y : Nat) : List UInt8 → Frame × Bool
  | [] => (f, false)
  | pixels :: sprite =>
    let hit := f.row y &&& strip x pixels != 0
    let (f, later) := (f.toggle y (strip x pixels)).draw x (y + 1) sprite
    (f, hit || later)

@[simp] theorem draw_nil (f : Frame) (x y : Nat) : f.draw x y [] = (f, false) :=
  rfl

@[simp] theorem draw_cons (f : Frame) (x y : Nat) (pixels : UInt8) (sprite : List UInt8) :
    f.draw x y (pixels :: sprite) =
      (((f.toggle y (strip x pixels)).draw x (y + 1) sprite).1,
        f.row y &&& strip x pixels != 0 ||
          ((f.toggle y (strip x pixels)).draw x (y + 1) sprite).2) :=
  rfl

theorem getMsbD_append_zero (pixels : UInt8) (j : Nat) :
    (pixels.toBitVec ++ 0#56).getMsbD j = pixels.toBitVec.getMsbD j := by
  rw [BitVec.getMsbD_append]
  split
  case isTrue h => simp [BitVec.getMsbD_of_ge _ _ h]
  case isFalse => rfl

theorem getMsbD_strip (x k : Nat) (pixels : UInt8) (hk : k < 64) :
    (strip x pixels).getMsbD k = pixels.toBitVec.getMsbD ((k + 64 - x % 64) % 64) := by
  simp only [strip, BitVec.getMsbD_rotateRight, hk, decide_true, Bool.true_and]
  split <;> rw [getMsbD_append_zero] <;> congr 1 <;> omega

theorem pixel_toggle (f : Frame) (y : Nat) (pixels : BitVec 64) (x' y' : Nat) :
    (f.toggle y pixels).pixel x' y' =
      (f.pixel x' y' ^^ (y % 32 = y' % 32 && pixels.getMsbD (x' % 64))) := by
  simp only [pixel, toggle, row, Fin.getElem_fin, Fin.val_ofNat, Vector.getElem_set]
  split <;> simp_all

end Frame

end Chip8
