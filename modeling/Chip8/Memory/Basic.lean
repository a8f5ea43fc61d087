import Chip8.Memory.Font
import Chip8.Memory.LoadError
import Chip8.Word

namespace Chip8

structure Memory where
  cells : Vector UInt8 4096
deriving DecidableEq

namespace Memory

def programStart : UInt16 :=
  0x200

def blank : Memory :=
  ⟨Vector.ofFn fun k ↦ if h : k.val < 80 then font[k.val] else 0⟩

def read (m : Memory) (address : UInt16) : UInt8 :=
  m.cells[Word.address address]

def write (m : Memory) (address : UInt16) (value : UInt8) : Memory :=
  ⟨m.cells.set (Word.address address) value⟩

def readWord (m : Memory) (address : UInt16) : UInt16 :=
  (m.read address).toUInt16 * 256 + (m.read (address + 1)).toUInt16

def readFrom (m : Memory) (address : UInt16) : Nat → List UInt8
  | 0 => []
  | n + 1 => m.read address :: m.readFrom (address + 1) n

def writeFrom (m : Memory) (address : UInt16) : List UInt8 → Memory
  | [] => m
  | value :: values => (m.write address value).writeFrom (address + 1) values

/-- Puts `rom` at the start of the programs and zeros behind it. -/
def load (m : Memory) (rom : Array UInt8) : Except LoadError Memory :=
  if rom.size ≤ Rom.capacity then
    .ok ⟨Vector.ofFn fun k ↦
      if k.val < programStart.toNat then m.cells[k] else rom.getD (k - programStart.toNat) 0⟩
  else .error (.tooLarge rom.size)

theorem read_write (m : Memory) (a b : UInt16) (value : UInt8) :
    (m.write a value).read b = if Word.address a = Word.address b then value else m.read b := by
  simp [read, write, Vector.getElem_set, Fin.ext_iff]

theorem exists_load_eq (m : Memory) {rom : Array UInt8} (small : rom.size ≤ 3584) :
    ∃ l, m.load rom = .ok l :=
  ⟨_, if_pos small⟩

theorem load_eq_error (m : Memory) {rom : Array UInt8} (large : 3584 < rom.size) :
    m.load rom = .error (.tooLarge rom.size) :=
  if_neg (Nat.not_le.mpr large)

theorem toNat_readWord (m : Memory) (a : UInt16) :
    (m.readWord a).toNat = 256 * (m.read a).toNat + (m.read (a + 1)).toNat := by
  have high := (m.read a).toNat_lt
  have low := (m.read (a + 1)).toNat_lt
  simp only [readWord, UInt16.toNat_add, UInt16.toNat_mul, UInt8.toNat_toUInt16,
    UInt16.reduceToNat]
  omega

end Memory

end Chip8
