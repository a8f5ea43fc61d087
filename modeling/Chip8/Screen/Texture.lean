import Chip8.Screen.Frame

namespace Chip8.Frame

def brightness (lit : Bool) : UInt8 :=
  if lit then 255 else 0

def textureRow (f : Frame) (y : Nat) : List UInt8 :=
  (List.range 64).flatMap fun x ↦ List.replicate 3 (brightness (f.pixel x y))

def texture (f : Frame) : List UInt8 :=
  (List.range 32).flatMap f.textureRow

end Chip8.Frame
