import Chip8.Machine.Source
import Chip8.Proofs.Machine.Advance
import Chip8.Proofs.Processor.Reachable

namespace Chip8.Machine

inductive Operation
  | load (rom : Array UInt8)
  | loadFrom (source : Source)
  | reset
  | step
  | tick (elapsed : Duration)
  | advance (elapsed : Duration)
  | press (key : UInt8)
  | release (key : UInt8)
  | setKeys (mask : BitVec 16)
  | takeFrame
  | status

def Operation.apply : Operation → Machine → Machine
  | .load rom, m => (m.load rom).state
  | .loadFrom source, m => (m.loadFrom source).state
  | .reset, m => m.reset.state
  | .step, m => m.step.state
  | .tick elapsed, m => m.tick elapsed
  | .advance elapsed, m => (m.advance elapsed).state
  | .press key, m => m.press key
  | .release key, m => m.release key
  | .setKeys mask, m => m.setKeys mask
  | .takeFrame, m => m.takeFrame.1
  | .status, m => m

def Operation.Restarts : Operation → Prop
  | .load _ | .reset => True
  | .loadFrom source => ∃ rom, source.contents = .ok rom
  | _ => False

inductive Reachable : Machine → Prop
  | new {settings : Settings} {entropy : ChaCha.Key} {m : Machine}
      (h : Machine.new settings entropy = .ok m) : Reachable m
  | apply {m : Machine} (h : Reachable m) (o : Operation) : Reachable (o.apply m)

/-- What `o` does to the processor of `m`, one thing after another. -/
def Operation.parts (m : Machine) : Operation → List Processor.Operation
  | .load rom => [.reset, .load rom]
  | .loadFrom source =>
    match source.contents with
    | .error _ => []
    | .ok rom => [.reset, .load rom]
  | .reset => [.reset, .load m.rom]
  | .step => [.step]
  | .tick elapsed => [.tick elapsed]
  | .advance elapsed =>
    List.replicate (m.processor.stepped (m.due elapsed)).length .step ++
      match (m.processor.run (m.due elapsed)).answer.fault? with
      | none => [.tick elapsed]
      | some _ => []
  | .press key => [.press key]
  | .release key => [.release key]
  | .setKeys mask => [.setKeys mask]
  | .takeFrame => [.takeFrame]
  | .status => []

def driven (m : Machine) (os : List Operation) : Machine :=
  os.foldl (fun m o ↦ o.apply m) m

/-- The operations, each with the machine that it is done to. -/
def trace : List Operation → Machine → List (Machine × Operation)
  | [], _ => []
  | o :: os, m => (m, o) :: trace os (o.apply m)

def parts : List Operation → Machine → List Processor.Operation
  | [], _ => []
  | o :: os, m => o.parts m ++ parts os (o.apply m)

/-- How an operation can change a machine, its processor aside. The meter of an advance that is cut
short stays as it is. -/
inductive Turn (m : Machine) : Machine → Prop
  | restarted (processor : Processor) (rom : Array UInt8) :
    Turn m { m.restart with processor, rom }
  | advanced (elapsed : Duration) (processor : Processor) (meter : Meter)
    (metered : meter = m.meter ∨ m.meter.record? elapsed (m.due elapsed) = some meter) :
    Turn m { m with processor, clock := m.clock.advance elapsed, meter }
  | kept (processor : Processor) : Turn m { m with processor }

variable {m : Machine}

theorem driven_append (m : Machine) (os os' : List Operation) :
    m.driven (os ++ os') = (m.driven os).driven os' :=
  List.foldl_append

theorem driven_concat (m : Machine) (os : List Operation) (o : Operation) :
    m.driven (os ++ [o]) = o.apply (m.driven os) :=
  m.driven_append os [o]

theorem processor_load (m : Machine) (rom : Array UInt8) :
    (m.load rom).state.processor = m.processor.driven [.reset, .load rom] := by
  simp only [load, restart, Processor.driven, List.foldl, Processor.Operation.apply]
  cases m.processor.reset.load rom <;> rfl

theorem processor_reset (m : Machine) :
    m.reset.state.processor = m.processor.driven [.reset, .load m.rom] := by
  simp only [reset, restart, Processor.driven, List.foldl, Processor.Operation.apply]
  cases m.processor.reset.load m.rom <;> rfl

theorem processor_advance (m : Machine) (elapsed : Duration) :
    (m.advance elapsed).state.processor =
      m.processor.driven (Operation.parts m (.advance elapsed)) := by
  rw [Operation.parts, Processor.driven_append, Processor.driven_replicate_step,
    ← Processor.state_run]
  have ha := m.advanced elapsed
  generalize m.advance elapsed = o at ha ⊢
  cases ha with
  | faulted fault =>
    rw [fault]
    rfl
  | overlong fine | metered fine =>
    rw [fine]
    rfl

/-- A machine does nothing to its processor that a host could not do to a processor alone. -/
theorem processor_apply (m : Machine) (o : Operation) :
    (o.apply m).processor = m.processor.driven (o.parts m) := by
  cases o with
  | load rom => exact m.processor_load rom
  | loadFrom source =>
    simp only [Operation.apply, Operation.parts, loadFrom]
    cases source.contents with
    | error _ => rfl
    | ok rom => exact m.processor_load rom
  | reset => exact m.processor_reset
  | advance elapsed => exact m.processor_advance elapsed
  | _ => rfl

theorem processor_driven (m : Machine) (os : List Operation) :
    (m.driven os).processor = m.processor.driven (parts os m) := by
  induction os generalizing m with
  | nil => rfl
  | cons o os ih =>
    rw [parts, Processor.driven_append, ← processor_apply]
    exact ih (o.apply m)

theorem turn_load (m : Machine) (rom : Array UInt8) : m.Turn (m.load rom).state := by
  simp only [load]
  split <;> exact .restarted _ _

theorem turn_advance (m : Machine) (elapsed : Duration) : m.Turn (m.advance elapsed).state := by
  have ha := m.advanced elapsed
  generalize m.advance elapsed = o at ha ⊢
  cases ha with
  | faulted | overlong => exact .advanced elapsed _ _ (.inl rfl)
  | metered _ recorded => exact .advanced elapsed _ _ (.inr recorded)

theorem turn_apply (m : Machine) (o : Operation) : m.Turn (o.apply m) := by
  cases o with
  | load rom => exact m.turn_load rom
  | loadFrom source =>
    simp only [Operation.apply, loadFrom]
    split
    · exact .kept _
    · exact m.turn_load _
  | reset =>
    simp only [Operation.apply, reset]
    split <;> exact .restarted _ _
  | advance elapsed => exact m.turn_advance elapsed
  | _ => exact .kept _

theorem exists_apply_eq_of_restarts {o : Operation} (restarts : o.Restarts) :
    ∃ memory rom, o.apply m =
      { m.restart with processor := { m.processor.reset with memory }, rom } := by
  have loaded (rom : Array UInt8) : ∃ memory rom', (m.load rom).state =
      { m.restart with processor := { m.processor.reset with memory }, rom := rom' } := by
    simp only [load, restart, Processor.load]
    cases m.processor.reset.memory.load rom with
    | error e => exact ⟨m.processor.reset.memory, _, rfl⟩
    | ok memory => exact ⟨memory, _, rfl⟩
  cases o with
  | load rom => exact loaded rom
  | loadFrom source =>
    obtain ⟨rom, contents⟩ := restarts
    simp only [Operation.apply, loadFrom, contents]
    exact loaded rom
  | reset =>
    simp only [Operation.apply, reset, restart, Processor.load]
    cases m.processor.reset.memory.load m.rom with
    | error e => exact ⟨m.processor.reset.memory, _, rfl⟩
    | ok memory => exact ⟨memory, _, rfl⟩
  | _ => exact absurd restarts not_false

theorem eq_of_new {settings : Settings} {entropy : ChaCha.Key}
    (h : Machine.new settings entropy = .ok m) :
    m = { processor := .new settings entropy, clock := { frequency := settings.clockSpeed } } := by
  simp only [new] at h
  cases hv : settings.validate with
  | error e => simp [hv, Except.map] at h
  | ok _ =>
    rw [hv] at h
    exact (Except.ok.inj h).symm

theorem Reachable.driven (h : m.Reachable) (os : List Operation) : (m.driven os).Reachable := by
  induction os generalizing m with
  | nil => exact h
  | cons o os ih => exact ih (h.apply o)

theorem Reachable.processor (h : m.Reachable) : m.processor.Reachable := by
  induction h with
  | @new settings entropy _ h =>
    rw [eq_of_new h]
    exact .new settings entropy
  | apply _ o ih =>
    rw [processor_apply]
    exact ih.driven _

end Chip8.Machine
