namespace Chip8.ChaCha

abbrev Row := Vector UInt32 4

structure Key where
  front : Row
  back : Row
deriving DecidableEq

structure State where
  a : Row
  b : Row
  c : Row
  d : Row

abbrev Block := Vector UInt32 16

namespace Row

def add (r s : Row) : Row :=
  r.zipWith (· + ·) s

/-- The bits that differ, turned left by `n`. -/
def mix (n : UInt32) (r s : Row) : Row :=
  r.zipWith (fun x y ↦ (x ^^^ y) <<< n ||| (x ^^^ y) >>> (32 - n)) s

def shift (r : Row) : Row :=
  #v[r[1], r[2], r[3], r[0]]

end Row

namespace State

def add (s t : State) : State :=
  ⟨s.a.add t.a, s.b.add t.b, s.c.add t.c, s.d.add t.d⟩

def round (s : State) : State :=
  let a := s.a.add s.b
  let d := s.d.mix 16 a
  let c := s.c.add d
  let b := s.b.mix 12 c
  let a := a.add b
  let d := d.mix 8 a
  let c := c.add d
  let b := b.mix 7 c
  ⟨a, b, c, d⟩

/-- Brings the diagonals into the columns. -/
def skew (s : State) : State :=
  ⟨s.a, s.b.shift, s.c.shift.shift, s.d.shift.shift.shift⟩

def unskew (s : State) : State :=
  ⟨s.a, s.b.shift.shift.shift, s.c.shift.shift, s.d.shift⟩

def doubleRound (s : State) : State :=
  s.round.skew.round.unskew

def initial (key : Key) (counter : UInt64) : State where
  a := #v[0x61707865, 0x3320646e, 0x79622d32, 0x6b206574]
  b := key.front
  c := key.back
  d := #v[counter.toUInt32, (counter >>> 32).toUInt32, 0, 0]

def words (s : State) : Block :=
  s.a ++ s.b ++ s.c ++ s.d

end State

/-- Twelve rounds, with a block counter of 64 bits and no nonce. -/
def block (key : Key) (counter : UInt64) : Block :=
  let s := State.initial key counter
  (s.add (Nat.repeat State.doubleRound 6 s)).words

end Chip8.ChaCha
