import Chip8.Instruction.Basic
import Chip8.Word

namespace Chip8.Instruction

def arithmetic? (x y : Fin 16) : Nat → Option Instruction
  | 0x0 => some (.copy x y)
  | 0x1 => some (.or x y)
  | 0x2 => some (.and x y)
  | 0x3 => some (.xor x y)
  | 0x4 => some (.add x y)
  | 0x5 => some (.sub x y)
  | 0x6 => some (.shiftRight x)
  | 0x7 => some (.subFrom x y)
  | 0xE => some (.shiftLeft x)
  | _ => none

def keypad? (x : Fin 16) : Nat → Option Instruction
  | 0x9E => some (.skipHeld x)
  | 0xA1 => some (.skipReleased x)
  | _ => none

def transfer? (x : Fin 16) : Nat → Option Instruction
  | 0x07 => some (.getDelay x)
  | 0x0A => some (.awaitKey x)
  | 0x15 => some (.setDelay x)
  | 0x18 => some (.setSound x)
  | 0x1E => some (.addIndex x)
  | 0x29 => some (.glyph x)
  | 0x33 => some (.decimal x)
  | 0x55 => some (.save x)
  | 0x65 => some (.restore x)
  | _ => none

/-- The highest digit of a word names a family. Where a family has several members, the low digit or
the low byte names one of them. -/
def decode? (word : UInt16) : Option Instruction :=
  let x := Word.digit word 0x100
  let y := Word.digit word 0x10
  let n := Word.digit word 0x1
  let kk := Word.lowByte word
  let nnn := Word.address word
  match (Word.digit word 0x1000).val with
  | 0x0 => if word = 0x00E0 then some .clear else if word = 0x00EE then some .ret else none
  | 0x1 => some (.jump nnn)
  | 0x2 => some (.call nnn)
  | 0x3 => some (.skipEqByte x kk)
  | 0x4 => some (.skipNeByte x kk)
  | 0x5 => if n.val = 0 then some (.skipEq x y) else none
  | 0x6 => some (.setByte x kk)
  | 0x7 => some (.addByte x kk)
  | 0x8 => arithmetic? x y n
  | 0x9 => if n.val = 0 then some (.skipNe x y) else none
  | 0xA => some (.setIndex nnn)
  | 0xB => some (.jumpFrom nnn)
  | 0xC => some (.random x kk)
  | 0xD => some (.draw x y n)
  | 0xE => keypad? x kk.toNat
  | 0xF => transfer? x kk.toNat
  | _ => none

end Chip8.Instruction
