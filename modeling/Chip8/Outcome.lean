import Chip8.Event

namespace Chip8

/-- The new state, the answer, and the events in the order in which they happened. -/
structure Outcome (σ α : Type) where
  state : σ
  answer : α
  log : List Event := []

def Outcome.map {σ τ α : Type} (f : σ → τ) (o : Outcome σ α) : Outcome τ α :=
  ⟨f o.state, o.answer, o.log⟩

end Chip8
