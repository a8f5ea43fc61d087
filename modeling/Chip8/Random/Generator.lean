import Chip8.Random.Seed

namespace Chip8

/-- `counter` is the number of the block after `block`, of which `used` words are gone. -/
structure Generator where
  key : ChaCha.Key
  counter : UInt64
  block : ChaCha.Block
  used : Nat
deriving DecidableEq

namespace Generator

def ofKey (key : ChaCha.Key) : Generator :=
  ⟨key, 0, Vector.replicate 16 0, 16⟩

def ofSeed (seed : UInt64) : Generator :=
  ofKey (Seed.key seed)

def next (g : Generator) : UInt32 × Generator :=
  if h : g.used < 16 then (g.block[g.used], { g with used := g.used + 1 })
  else
    let block := ChaCha.block g.key g.counter
    (block[0], { g with counter := g.counter + 1, block, used := 1 })

def nextByte (g : Generator) : UInt8 × Generator :=
  let (word, g) := g.next
  (word.toUInt8, g)

end Generator

end Chip8
