import Chip8.Instruction.Basic
import Chip8.Processor.Basic

namespace Chip8.Processor

def advance (p : Processor) : Processor :=
  { p with pc := Word.wrap (p.pc + 2) }

def instructionAddress (p : Processor) : UInt16 :=
  Word.wrap (p.pc - 2)

def skipIf (p : Processor) (condition : Bool) : Processor :=
  if condition then p.advance else p

def get (p : Processor) (x : Fin 16) : UInt8 :=
  p.v[x]

def set (p : Processor) (x : Fin 16) (value : UInt8) : Processor :=
  { p with v := p.v.set x value }

theorem get_set (p : Processor) (x y : Fin 16) (value : UInt8) :
    (p.set x value).get y = if x = y then value else p.get y := by
  simp [get, set, Vector.getElem_set, Fin.ext_iff]

def vf : Fin 16 :=
  Fin.last 15

/-- Where `x` is the flag itself, the value wins. -/
def setFlagged (p : Processor) (x : Fin 16) (value : UInt8) (flag : Bool) : Processor :=
  (p.set vf flag.toUInt8).set x value

def digits (value : UInt8) : List UInt8 :=
  [value / 100, value / 10 % 10, value % 10]

def execute (p : Processor) : Instruction → Except StackError Processor
  | .clear => .ok { p with screen := p.screen.clear }
  | .ret => p.stack.pop.map fun (pc, stack) ↦ { p with pc, stack }
  | .jump nnn => .ok { p with pc := .ofNat nnn }
  | .call nnn => (p.stack.push p.pc).map fun stack ↦ { p with pc := .ofNat nnn, stack }
  | .skipEqByte x kk => .ok (p.skipIf (p.get x == kk))
  | .skipNeByte x kk => .ok (p.skipIf (p.get x != kk))
  | .skipEq x y => .ok (p.skipIf (p.get x == p.get y))
  | .skipNe x y => .ok (p.skipIf (p.get x != p.get y))
  | .setByte x kk => .ok (p.set x kk)
  | .addByte x kk => .ok (p.set x (p.get x + kk))
  | .copy x y => .ok (p.set x (p.get y))
  | .or x y => .ok (p.set x (p.get x ||| p.get y))
  | .and x y => .ok (p.set x (p.get x &&& p.get y))
  | .xor x y => .ok (p.set x (p.get x ^^^ p.get y))
  | .add x y =>
    .ok (p.setFlagged x (p.get x + p.get y) (256 ≤ (p.get x).toNat + (p.get y).toNat))
  | .sub x y => .ok (p.setFlagged x (p.get x - p.get y) (p.get y ≤ p.get x))
  | .subFrom x y => .ok (p.setFlagged x (p.get y - p.get x) (p.get x ≤ p.get y))
  | .shiftRight x => .ok (p.setFlagged x (p.get x >>> 1) (p.get x &&& 0x01 != 0))
  | .shiftLeft x => .ok (p.setFlagged x (p.get x <<< 1) (p.get x &&& 0x80 != 0))
  | .setIndex nnn => .ok { p with i := .ofNat nnn }
  | .jumpFrom nnn => .ok { p with pc := Word.wrap (p.v[0].toUInt16 + .ofNat nnn) }
  | .random x kk =>
    let (byte, random) := p.random.nextByte
    .ok { p.set x (byte &&& kk) with random }
  | .draw x y n =>
    let (screen, hit) := p.screen.draw (p.get x) (p.get y) (p.memory.readFrom p.i n)
    .ok { p.set vf hit.toUInt8 with screen }
  | .skipHeld x => .ok (p.skipIf (p.keypad.isHeld (p.get x)))
  | .skipReleased x => .ok (p.skipIf (!p.keypad.isHeld (p.get x)))
  | .getDelay x => .ok (p.set x p.timers.delay)
  | .awaitKey x => .ok { p with mode := .awaitingKey x }
  | .setDelay x => .ok { p with timers := p.timers.setDelay (p.get x) }
  | .setSound x => .ok { p with timers := p.timers.setSound (p.get x) }
  | .addIndex x => .ok { p with i := Word.wrap (p.i + (p.get x).toUInt16) }
  | .glyph x => .ok { p with i := (p.get x).toUInt16 * 5 }
  | .decimal x => .ok { p with memory := p.memory.writeFrom p.i (digits (p.get x)) }
  | .save x => .ok { p with memory := p.memory.writeFrom p.i (p.v.toList.take (x + 1)) }
  | .restore x =>
    .ok { p with v := .ofFn fun k ↦ if k ≤ x then p.memory.read (p.i + .ofNat k) else p.get k }

end Chip8.Processor
