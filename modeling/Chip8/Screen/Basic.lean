import Chip8.Screen.Frame

namespace Chip8

structure Screen where
  frame : Frame
  dirty : Bool
deriving DecidableEq

namespace Screen

def blank : Screen :=
  ⟨.blank, false⟩

def clear (_ : Screen) : Screen :=
  ⟨.blank, true⟩

def draw (s : Screen) (x y : UInt8) (sprite : List UInt8) : Screen × Bool :=
  let (frame, hit) := s.frame.draw x.toNat y.toNat sprite
  (⟨frame, true⟩, hit)

def takeFrame (s : Screen) : Screen × Option Frame :=
  if s.dirty then (⟨s.frame, false⟩, some s.frame) else (s, none)

end Screen

end Chip8
