import Chip8.Proofs.Bare.Basic
import Chip8.Proofs.Processor.Reachable

namespace Chip8.Bare

/-- Of the instruction only its kind counts: the operands are given apart. -/
def perform (b : Bare) (x y n kk : UInt8) (nnn : UInt16) :
    Instruction → Checked (Except StackError Bare)
  | .clear => return .ok { b with pixels := blank, dirty := true }
  | .ret => do
    match ← b.pop with
    | .error e => return .error e
    | .ok (pc, b) => return .ok { b with pc }
  | .jump _ => return .ok { b with pc := nnn }
  | .call _ => do
    match ← b.push b.pc with
    | .error e => return .error e
    | .ok b => return .ok { b with pc := nnn }
  | .skipEqByte _ _ => return .ok (b.skipIf ((← b.get x) == kk))
  | .skipNeByte _ _ => return .ok (b.skipIf ((← b.get x) != kk))
  | .skipEq _ _ => return .ok (b.skipIf ((← b.get x) == (← b.get y)))
  | .skipNe _ _ => return .ok (b.skipIf ((← b.get x) != (← b.get y)))
  | .setByte _ _ => return .ok (← b.set x kk)
  | .addByte _ _ => return .ok (← b.set x ((← b.get x) + kk))
  | .copy _ _ => return .ok (← b.set x (← b.get y))
  | .or _ _ => return .ok (← b.set x ((← b.get x) ||| (← b.get y)))
  | .and _ _ => return .ok (← b.set x ((← b.get x) &&& (← b.get y)))
  | .xor _ _ => return .ok (← b.set x ((← b.get x) ^^^ (← b.get y)))
  | .add _ _ => do
    let p ← b.get x
    let q ← b.get y
    return .ok (← b.setFlagged x (p + q) (256 ≤ p.toNat + q.toNat))
  | .sub _ _ => do
    let p ← b.get x
    let q ← b.get y
    return .ok (← b.setFlagged x (p - q) (q ≤ p))
  | .subFrom _ _ => do
    let p ← b.get x
    let q ← b.get y
    return .ok (← b.setFlagged x (q - p) (p ≤ q))
  | .shiftRight _ => do
    let p ← b.get x
    return .ok (← b.setFlagged x (p >>> 1) (p &&& 0x01 != 0))
  | .shiftLeft _ => do
    let p ← b.get x
    return .ok (← b.setFlagged x (p <<< 1) (p &&& 0x80 != 0))
  | .setIndex _ => return .ok { b with i := nnn }
  | .jumpFrom _ => return .ok { b with pc := mask (← Checked.add (← b.get 0).toUInt16 nnn) }
  | .random _ _ => do
    let (byte, random) := b.random.nextByte
    return .ok (← { b with random }.set x (byte &&& kk))
  | .draw _ _ _ => do
    let rows ← Checked.indices 15 n.toNat
    let sprite ← rows.mapM fun k ↦ b.read (b.i + .ofNat k)
    let (b, hit) ← b.draw (← b.get x) (← b.get y) sprite
    return .ok (← b.set 0xF hit.toUInt8)
  | .skipHeld _ => return .ok (b.skipIf (← b.isHeld (← b.get x)))
  | .skipReleased _ => return .ok (b.skipIf !(← b.isHeld (← b.get x)))
  | .getDelay _ => return .ok (← b.set x b.timers.delay)
  | .awaitKey _ => return .ok { b with mode := .awaitingKey x }
  | .setDelay _ => return .ok { b with timers := b.timers.setDelay (← b.get x) }
  | .setSound _ => return .ok { b with timers := b.timers.setSound (← b.get x) }
  | .addIndex _ => return .ok { b with i := mask (← Checked.add b.i (← b.get x).toUInt16) }
  | .glyph _ => return .ok { b with i := ← Checked.mul (← b.get x).toUInt16 5 }
  | .decimal _ => do
    let value ← b.get x
    let b ← b.write b.i (value / 100)
    let b ← b.write (b.i + 1) (value / 10 % 10)
    return .ok (← b.write (b.i + 2) (value % 10))
  | .save _ => return .ok (← (List.range (x.toNat + 1)).foldlM save b)
  | .restore _ => return .ok (← (List.range (x.toNat + 1)).foldlM restore b)

def execute (word : UInt16) (b : Bare) (ins : Instruction) : Checked (Except StackError Bare) :=
  b.perform (digit word 8) (digit word 4) (digit word 0) word.toUInt8 (mask word) ins

def halt (b : Bare) (fault : Fault) : Bare × Except Fault Unit :=
  ({ b with mode := .halted fault }, .error fault)

def step (b : Bare) : Checked (Bare × Except Fault Unit) :=
  match b.mode with
  | .halted fault => return (b, .error fault)
  | .awaitingKey x =>
    match b.firstHeld with
    | none => return (b, .ok ())
    | some key => do
      let b ← b.set x key
      let b ← b.release key
      return ({ b with mode := .running }, .ok ())
  | .running => do
    let word ← b.readWord b.pc
    match Instruction.decode? word with
    | none => return b.advance.halt (.unknownOpcode word b.pc)
    | some ins =>
      match ← b.advance.execute word ins with
      | .error e => return b.advance.halt (e.fault b.advance.instructionAddress)
      | .ok b => return (b, .ok ())

def new (settings : Settings) (entropy : ChaCha.Key) : Bare where
  v := Vector.replicate 16 0
  i := 0
  pc := Memory.programStart
  mode := .running
  cells := Memory.blank.cells
  frames := Vector.replicate 16 0
  depth := 0
  pixels := blank
  dirty := false
  keys := 0
  timers := .new settings.timerFrequency
  random := settings.seed.elim (.ofKey entropy) .ofSeed

def reset (b : Bare) : Bare where
  v := Vector.replicate 16 0
  i := 0
  pc := Memory.programStart
  mode := .running
  cells := Memory.blank.cells
  frames := Vector.replicate 16 0
  depth := 0
  pixels := blank
  dirty := true
  keys := 0
  timers := b.timers.reset
  random := b.random

def load (b : Bare) (rom : Array UInt8) : Bare :=
  match Memory.load ⟨b.cells⟩ rom with
  | .ok memory => { b with cells := memory.cells }
  | .error _ => b

def operate : Processor.Operation → Bare → Checked Bare
  | .step, b => do return (← b.step).1
  | .load rom, b => return b.load rom
  | .reset, b => return b.reset
  | .tick elapsed, b => return { b with timers := b.timers.tick elapsed }
  | .setDelay value, b => return { b with timers := b.timers.setDelay value }
  | .setSound value, b => return { b with timers := b.timers.setSound value }
  | .resetTimers, b => return { b with timers := b.timers.reset }
  | .press key, b => b.press key
  | .release key, b => b.release key
  | .setKeys mask, b => return { b with keys := mask }
  | .releaseKeys, b => return { b with keys := 0 }
  | .draw x y sprite, b => do return (← b.draw x y sprite).1
  | .clear, b => return { b with pixels := blank, dirty := true }
  | .takeFrame, b => return { b with dirty := false }

inductive Reachable : Bare → Prop
  | new (settings : Settings) (entropy : ChaCha.Key) : Reachable (new settings entropy)
  | operate {b c : Bare} (h : Reachable b) (o : Processor.Operation)
      (ok : operate o b = .ok c) : Reachable c

end Chip8.Bare
