import Chip8.Random.ChaCha

namespace Chip8.Seed

def next (state : UInt64) : UInt64 :=
  state * 6364136223846793005 + 11634580027462260723

def rotateRight (x n : UInt32) : UInt32 :=
  x >>> n ||| x <<< (32 - n)

/-- The high bits of the state choose how far its folded middle is turned. -/
def output (state : UInt64) : UInt32 :=
  rotateRight (((state >>> 18) ^^^ state) >>> 27).toUInt32 (state >>> 59).toUInt32

def word (seed : UInt64) (k : Nat) : UInt32 :=
  output (Nat.repeat next k seed)

def key (seed : UInt64) : ChaCha.Key where
  front := #v[word seed 1, word seed 2, word seed 3, word seed 4]
  back := #v[word seed 5, word seed 6, word seed 7, word seed 8]

end Chip8.Seed
