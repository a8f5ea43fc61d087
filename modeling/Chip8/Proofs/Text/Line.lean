import Chip8.Event

namespace Chip8.Event

theorem line_eq (e : Event) : e.line = e.level.name ++ (" " ++ e.text) :=
  String.append_assoc ..

theorem line_executing (word : UInt16) (v : Vector UInt8 16) (i pc : UInt16) :
    (executing word v i pc).line =
      "TRACE " ++ Hex.padded 4 word.toNat ++ " v[" ++
        ", ".intercalate (v.toList.map fun b ↦ Hex.padded 2 b.toNat) ++ "] i" ++
        Hex.padded 4 i.toNat ++ " pc" ++ Hex.padded 4 pc.toNat := by
  have start : "TRACE " = "TRACE" ++ " " := rfl
  have text : (executing word v i pc).text =
    Hex.padded 4 word.toNat ++ " v[" ++
      ", ".intercalate (v.toList.map fun b ↦ Hex.padded 2 b.toNat) ++ "] i" ++
      Hex.padded 4 i.toNat ++ " pc" ++ Hex.padded 4 pc.toNat := rfl
  simp only [line_eq, text, start, String.append_assoc]
  rfl

theorem line_halting (f : Fault) : (halting f).line = "ERROR halting: " ++ f.message := by
  have start : "ERROR halting: " = "ERROR" ++ (" " ++ "halting: ") := rfl
  simp only [line_eq, start, String.append_assoc]
  rfl

theorem line_awaitingKey (x : Fin 16) :
    (awaitingKey x).line = "DEBUG awaiting keypress for v" ++ Hex.padded 1 x := by
  have start : "DEBUG awaiting keypress for v" = "DEBUG" ++ (" " ++ "awaiting keypress for v") :=
    rfl
  simp only [line_eq, start, String.append_assoc]
  rfl

theorem line_keyStored (key x : Fin 16) : (keyStored key x).line =
    "DEBUG key " ++ Hex.padded 1 key ++ " pressed; stored in v" ++ Hex.padded 1 x := by
  have start : "DEBUG key " = "DEBUG" ++ (" " ++ "key ") := rfl
  have text : (keyStored key x).text =
    "key " ++ Hex.padded 1 key ++ " pressed; stored in v" ++ Hex.padded 1 x := rfl
  simp only [line_eq, text, start, String.append_assoc]
  rfl

theorem line_backlogDropped (steps : Nat) :
    (backlogDropped steps).line = "DEBUG dropping " ++ toString steps ++ " steps of backlog" := by
  have start : "DEBUG dropping " = "DEBUG" ++ (" " ++ "dropping ") := rfl
  simp only [line_eq, start, String.append_assoc]
  rfl

theorem lines_trace (log : List Event) : lines .trace log = log.map line := by
  have all : ∀ e ∈ log, decide (e.level.detail ≤ Level.trace.detail) = true := by
    intro e _
    cases e.level <;> rfl
  rw [lines, List.filter_eq_self.mpr all]

end Chip8.Event
