import Chip8.Processor.Step
import Chip8.Proofs.Bare.Checked

namespace Chip8

inductive Bare.Mode
  | running
  | awaitingKey (x : UInt8)
  | halted (fault : Fault)
deriving DecidableEq

abbrev Bare.Pixels := Vector (Vector Bool 64) 32

/-- A processor as plain storage. Registers, frames and pixels are found by numbers that nothing
keeps in bounds, and every index, every sum of addresses and every shift is checked. -/
structure Bare where
  v : Vector UInt8 16
  i : UInt16
  pc : UInt16
  mode : Bare.Mode
  cells : Vector UInt8 4096
  frames : Vector UInt16 16
  depth : Nat
  pixels : Bare.Pixels
  dirty : Bool
  keys : BitVec 16
  timers : Timers
  random : Generator

namespace Bare

def digit (w shift : UInt16) : UInt8 :=
  (w >>> shift).toUInt8 &&& 0xF

def mask (w : UInt16) : UInt16 :=
  w &&& 0x0FFF

def get (b : Bare) (x : UInt8) : Checked UInt8 :=
  Checked.get b.v x.toNat

def set (b : Bare) (x value : UInt8) : Checked Bare := do
  let v ← Checked.set b.v x.toNat value
  return { b with v }

def setFlagged (b : Bare) (x value : UInt8) (flag : Bool) : Checked Bare := do
  let b ← b.set 0xF flag.toUInt8
  b.set x value

def advance (b : Bare) : Bare :=
  { b with pc := mask (b.pc + 2) }

def instructionAddress (b : Bare) : UInt16 :=
  mask (b.pc - 2)

def skipIf (b : Bare) (condition : Bool) : Bare :=
  if condition then b.advance else b

def read (b : Bare) (address : UInt16) : Checked UInt8 :=
  Checked.get b.cells (mask address).toNat

def write (b : Bare) (address : UInt16) (value : UInt8) : Checked Bare := do
  let cells ← Checked.set b.cells (mask address).toNat value
  return { b with cells }

def save (b : Bare) (k : Nat) : Checked Bare := do
  b.write (b.i + .ofNat k) (← b.get (.ofNat k))

def restore (b : Bare) (k : Nat) : Checked Bare := do
  b.set (.ofNat k) (← b.read (b.i + .ofNat k))

def readWord (b : Bare) (address : UInt16) : Checked UInt16 := do
  let high ← b.read address
  let low ← b.read (address + 1)
  return high.toUInt16 <<< 8 ||| low.toUInt16

def push (b : Bare) (address : UInt16) : Checked (Except StackError Bare) := do
  if b.depth = 16 then
    return .error .overflow
  let frames ← Checked.set b.frames b.depth address
  let depth ← Checked.succ b.depth
  return .ok { b with frames, depth }

def pop (b : Bare) : Checked (Except StackError (UInt16 × Bare)) := do
  if b.depth = 0 then
    return .error .underflow
  let depth ← Checked.pred b.depth
  let address ← Checked.get b.frames depth
  return .ok (address, { b with depth })

def isHeld (b : Bare) (key : UInt8) : Checked Bool := do
  if key.toNat < 16 then
    let bit ← Checked.bit key
    return b.keys &&& bit != 0
  return false

def press (b : Bare) (key : UInt8) : Checked Bare := do
  if key.toNat < 16 then
    let bit ← Checked.bit key
    return { b with keys := b.keys ||| bit }
  return b

def release (b : Bare) (key : UInt8) : Checked Bare := do
  if key.toNat < 16 then
    let bit ← Checked.bit key
    return { b with keys := b.keys &&& ~~~bit }
  return b

/-- The number of zeros below the lowest one, if there is a one. -/
def firstHeld (b : Bare) : Option UInt8 :=
  if b.keys = 0 then none
  else ((List.range 16).find? b.keys.getLsbD).map .ofNat

def blank : Pixels :=
  Vector.replicate 32 (Vector.replicate 64 false)

/-- Inverts a pixel and tells what it was. -/
def flip (pixels : Pixels) (x y : Nat) : Checked (Pixels × Bool) := do
  let row ← Checked.get pixels y
  let old ← Checked.get row x
  let row ← Checked.set row x !old
  let pixels ← Checked.set pixels y row
  return (pixels, old)

def drawBit (x y : Nat) (byte : UInt8) (s : Pixels × Bool) (j : Nat) : Checked (Pixels × Bool) := do
  if byte.toNat.testBit (7 - j) then
    let (pixels, old) ← flip s.1 ((x + j) % 64) (y % 32)
    return (pixels, s.2 || old)
  return s

def drawRows (x y : Nat) (s : Pixels × Bool) : List UInt8 → Checked (Pixels × Bool)
  | [] => return s
  | byte :: sprite => do
    let s ← (List.range 8).foldlM (drawBit x y byte) s
    drawRows x (y + 1) s sprite

def draw (b : Bare) (x y : UInt8) (sprite : List UInt8) : Checked (Bare × Bool) := do
  let (pixels, hit) ← drawRows x.toNat y.toNat (b.pixels, false) sprite
  return ({ b with pixels, dirty := true }, hit)

end Bare

end Chip8
