import Chip8.Keypad.Basic

namespace Chip8.Keyboard

/-- The keys by the character they type without shift, row by row. -/
def layout : List (Char × UInt8) :=
  [('1', 0x1), ('2', 0x2), ('3', 0x3), ('4', 0xC),
   ('q', 0x4), ('w', 0x5), ('e', 0x6), ('r', 0xD),
   ('a', 0x7), ('s', 0x8), ('d', 0x9), ('f', 0xE),
   ('z', 0xA), ('x', 0x0), ('c', 0xB), ('v', 0xF)]

def key? (code : Int) : Option UInt8 :=
  (layout.find? fun entry ↦ code = entry.1.toNat).map (·.2)

/-- The keypad while the keys with these codes are held; other keys count for nothing. -/
def keypad (codes : List Int) : Keypad :=
  (codes.filterMap key?).foldl Keypad.press .released

end Chip8.Keyboard
