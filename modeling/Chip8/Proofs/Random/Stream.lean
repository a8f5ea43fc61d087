import Chip8.Random.Generator

namespace Chip8

/-- Word `j` of the stream that consists of the blocks of a key, one behind the other. -/
def ChaCha.Key.word (key : Key) (j : Nat) : UInt32 :=
  (block key (.ofNat (j / 16)))[j % 16]

namespace Generator

structure At (key : ChaCha.Key) (j : Nat) (g : Generator) : Prop where
  key_eq : g.key = key
  counter_eq : g.counter = .ofNat ((j + 15) / 16)
  used_eq : g.used + 16 * ((j + 15) / 16) = j + 16
  block_eq : g.used < 16 → g.block = ChaCha.block key (.ofNat (j / 16))

variable {key : ChaCha.Key} {j : Nat} {g : Generator}

theorem at_zero (key : ChaCha.Key) : At key 0 (.ofKey key) where
  key_eq := rfl
  counter_eq := rfl
  used_eq := rfl
  block_eq := by simp [ofKey]

theorem At.next (h : At key j g) : g.next.1 = key.word j ∧ At key (j + 1) g.next.2 := by
  have hu := h.used_eq
  rw [Generator.next]
  split
  case isTrue left =>
    have here : g.used = j % 16 := by omega
    refine ⟨?_, h.key_eq, ?_, ?_, ?_⟩
    · simp only [ChaCha.Key.word, h.block_eq left, here]
    · have same : (j + 1 + 15) / 16 = (j + 15) / 16 := by omega
      rw [same]
      exact h.counter_eq
    · simp only
      omega
    · intro more
      have same : (j + 1) / 16 = j / 16 := by
        simp only at more
        omega
      rw [same]
      exact h.block_eq left
  case isFalse none =>
    have here : j % 16 = 0 := by omega
    have number : (j + 15) / 16 = j / 16 := by omega
    have counter : g.counter = .ofNat (j / 16) := by rw [h.counter_eq, number]
    refine ⟨?_, h.key_eq, ?_, ?_, ?_⟩
    · simp only [ChaCha.Key.word, h.key_eq, counter, here]
    · have more : (j + 1 + 15) / 16 = j / 16 + 1 := by omega
      rw [more, UInt64.ofNat_add, ← counter]
      rfl
    · simp only
      omega
    · intro more
      have same : (j + 1) / 16 = j / 16 := by omega
      rw [same, ← counter, h.key_eq]

theorem At.nextByte (h : At key j g) :
    g.nextByte.1 = (key.word j).toUInt8 ∧ At key (j + 1) g.nextByte.2 := by
  obtain ⟨word, after⟩ := h.next
  exact ⟨congrArg UInt32.toUInt8 word, after⟩

end Generator

end Chip8
