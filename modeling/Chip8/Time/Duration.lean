namespace Chip8

/-- At most 2^64 - 1 seconds and 999999999 nanoseconds. -/
@[ext] structure Duration where
  nanoseconds : Nat
  bounded : nanoseconds < UInt64.size * 1000000000
deriving DecidableEq

namespace Duration

def zero : Duration :=
  ⟨0, by decide⟩

def second : Duration :=
  ⟨1000000000, by decide⟩

def ofNanoseconds? (n : Nat) : Option Duration :=
  if h : n < UInt64.size * 1000000000 then some ⟨n, h⟩ else none

def ofParts (seconds : UInt64) (nanoseconds : Fin 1000000000) : Duration where
  nanoseconds := seconds.toNat * 1000000000 + nanoseconds
  bounded := by
    have := seconds.toNat_lt_size
    omega

def add? (a b : Duration) : Option Duration :=
  ofNanoseconds? (a.nanoseconds + b.nanoseconds)

theorem add?_eq_some_iff {a b c : Duration} :
    a.add? b = some c ↔ c.nanoseconds = a.nanoseconds + b.nanoseconds := by
  simp only [add?, ofNanoseconds?]
  split
  · simp [Duration.ext_iff, eq_comm]
  · have := c.bounded
    simp only [reduceCtorEq, false_iff]
    omega

end Duration

end Chip8
