import Chip8.Proofs.Machine.Reachable
import Mathlib.Data.List.Induction

namespace Chip8

def Generator.skip (g : Generator) : Nat → Generator
  | 0 => g
  | n + 1 => (g.skip n).nextByte.2

theorem Generator.skip_add (g : Generator) (n k : Nat) : g.skip (n + k) = (g.skip n).skip k := by
  induction k with
  | zero => rfl
  | succ k ih => exact congrArg (fun g ↦ g.nextByte.2) ih

namespace Processor

variable {p q r : Processor}

/-- What no operation can change in a processor, so that `q` can have come out of `p`. -/
structure Follows (p q : Processor) : Prop where
  frequency : q.timers.clock.frequency = p.timers.clock.frequency
  random : ∃ n, q.random = p.random.skip n

theorem Follows.refl (p : Processor) : p.Follows p :=
  ⟨rfl, 0, rfl⟩

theorem Follows.trans (h : p.Follows q) (h' : q.Follows r) : p.Follows r := by
  obtain ⟨n, hn⟩ := h.random
  obtain ⟨k, hk⟩ := h'.random
  refine ⟨h'.frequency.trans h.frequency, n + k, ?_⟩
  rw [hk, hn, Generator.skip_add]

theorem follows_step (p : Processor) : p.Follows p.step.state := by
  refine ⟨congrArg Oscillator.frequency p.clock_step, ?_⟩
  obtain ⟨ins, executes⟩ | idles := p.executes_or_idles
  · by_cases random : ∃ x kk, ins = .random x kk
    · obtain ⟨x, kk, rfl⟩ := random
      have state := Except.ok.inj executes.execute_eq
      exact ⟨1, state ▸ rfl⟩
    · exact ⟨0, executes.spares.random fun x kk h ↦ random ⟨x, kk, h⟩⟩
  · exact ⟨0, idles.random⟩

theorem follows_apply (p : Processor) (o : Operation) : p.Follows (o.apply p) := by
  cases o with
  | step => exact p.follows_step
  | load rom =>
    simp only [Operation.apply, load]
    cases p.memory.load rom with
    | error _ => exact .refl p
    | ok memory => exact ⟨rfl, 0, rfl⟩
  | _ => exact ⟨rfl, 0, rfl⟩

theorem follows_driven (p : Processor) (os : List Operation) : p.Follows (p.driven os) := by
  induction os generalizing p with
  | nil => exact .refl p
  | cons o os ih => exact (p.follows_apply o).trans (ih (o.apply p))

end Processor

theorem Memory.load_blank_empty : Memory.blank.load #[] = .ok .blank := by
  have small : (#[] : Array UInt8).size ≤ Rom.capacity := Nat.zero_le _
  have start : programStart.toNat = 512 := rfl
  have same : (Vector.ofFn fun k : Fin 4096 ↦ if k.val < programStart.toNat then blank.cells[k]
      else (#[] : Array UInt8).getD (k - programStart.toNat) 0) = blank.cells := by
    ext k hk : 1
    simp only [blank, Vector.getElem_ofFn, Fin.getElem_fin, start]
    split
    case isTrue => rfl
    case isFalse h =>
      have high : ¬ k < 80 := by omega
      simp [high]
  rw [load, if_pos small, same]

namespace Machine

variable {m fresh : Machine} {rom : Array UInt8}

/-- The machine is `m'`, except that it has used more random bytes. -/
def Resembles (m m' : Machine) : Prop :=
  ∃ n, m = { m' with processor.random := m'.processor.random.skip n }

def emptied (m : Machine) : Machine :=
  { m.restart with rom := #[] }

def fill (m : Machine) (memory : Memory) (rom : Array UInt8) : Machine :=
  { m with processor.memory := memory, rom }

theorem Resembles.fill {m' : Machine} (h : m.Resembles m') (memory : Memory)
    (rom : Array UInt8) : (m.fill memory rom).Resembles (m'.fill memory rom) := by
  obtain ⟨n, rfl⟩ := h
  exact ⟨n, rfl⟩

def Operation.rom? : Operation → Option (Array UInt8)
  | .load rom => some (if rom.size ≤ 3584 then rom else #[])
  | .loadFrom source =>
    source.contents.toOption.map fun rom ↦ if rom.size ≤ 3584 then rom else #[]
  | _ => none

/-- The ROM of the last load that could read one: none if that was too large. -/
def kept (os : List Operation) : Array UInt8 :=
  (os.reverse.findSome? Operation.rom?).getD #[]

theorem kept_concat (os : List Operation) (o : Operation) :
    kept (os ++ [o]) = o.rom?.getD (kept os) := by
  simp only [kept, List.reverse_append, List.reverse_singleton, List.singleton_append,
    List.findSome?_cons]
  cases o.rom? <;> rfl

theorem load_of_load_blank (m : Machine) {memory : Memory}
    (loaded : Memory.blank.load rom = .ok memory) :
    m.load rom = ⟨m.emptied.fill memory rom, .ok rom.size, [.loaded rom.size]⟩ := by
  have loaded' : m.processor.reset.memory.load rom = .ok memory := loaded
  simp only [load, restart, Processor.load, loaded', Except.map, emptied, fill]

theorem state_load_empty (m : Machine) : (m.load #[]).state = m.emptied := by
  rw [m.load_of_load_blank Memory.load_blank_empty]
  simp only [fill, emptied, restart, Processor.reset]

theorem load_of_lt_size (m : Machine) (h : 3584 < rom.size) :
    m.load rom = ⟨m.emptied, .error (.tooLarge rom.size), []⟩ := by
  have refused := m.processor.reset.memory.load_eq_error h
  simp only [load, restart, Processor.load, refused, Except.map, emptied]

theorem reset_eq_load (h : m.rom.size ≤ 3584) :
    m.reset = ⟨(m.load m.rom).state, .ok (), [.restarted]⟩ := by
  obtain ⟨memory, loaded⟩ := Memory.blank.exists_load_eq h
  have loaded' : m.processor.reset.memory.load m.rom = .ok memory := loaded
  rw [m.load_of_load_blank loaded]
  simp only [reset, restart, Processor.load, loaded', Except.map, emptied, fill]

theorem rom_apply (m : Machine) (o : Operation) : (o.apply m).rom = o.rom?.getD m.rom := by
  have rom_load (rom : Array UInt8) :
      (m.load rom).state.rom = if rom.size ≤ 3584 then rom else #[] := by
    split
    case isTrue h =>
      obtain ⟨_, loaded⟩ := Memory.blank.exists_load_eq h
      rw [m.load_of_load_blank loaded]
      rfl
    case isFalse h =>
      rw [m.load_of_lt_size (Nat.not_le.mp h)]
      rfl
  cases o with
  | load rom => exact rom_load rom
  | loadFrom source =>
    simp only [Operation.apply, Operation.rom?, loadFrom]
    cases source.contents with
    | error _ => rfl
    | ok rom => exact rom_load rom
  | reset =>
    simp only [Operation.apply, reset]
    split <;> rfl
  | advance elapsed => exact m.rom_advance elapsed
  | _ => rfl

theorem rom_driven (empty : fresh.rom = #[]) (os : List Operation) :
    (fresh.driven os).rom = kept os := by
  induction os using List.reverseRecOn with
  | nil => exact empty
  | append_singleton os o ih => rw [driven_concat, rom_apply, kept_concat, ih]

theorem size_kept_le (os : List Operation) : (kept os).size ≤ 3584 := by
  have small (rom : Array UInt8) : (if rom.size ≤ 3584 then rom else #[]).size ≤ 3584 := by
    split
    case isTrue h => exact h
    case isFalse => exact Nat.zero_le _
  induction os using List.reverseRecOn with
  | nil => exact Nat.zero_le _
  | append_singleton os o ih =>
    rw [kept_concat]
    cases o with
    | load rom => exact small rom
    | loadFrom source =>
      simp only [Operation.rom?]
      cases source.contents with
      | error _ => exact ih
      | ok rom => exact small rom
    | _ => exact ih

theorem frequency_apply (m : Machine) (o : Operation) :
    (o.apply m).clock.frequency = m.clock.frequency := by
  have turn := m.turn_apply o
  generalize o.apply m = m' at turn ⊢
  cases turn <;> rfl

theorem frequency_driven (m : Machine) (os : List Operation) :
    (m.driven os).clock.frequency = m.clock.frequency := by
  induction os using List.reverseRecOn with
  | nil => rfl
  | append_singleton os o ih => rw [driven_concat, frequency_apply, ih]

theorem emptied_resembles (fresh : Machine) (os : List Operation) :
    (fresh.driven os).emptied.Resembles fresh.emptied := by
  have follows := fresh.processor.follows_driven (parts os fresh)
  rw [← processor_driven] at follows
  obtain ⟨n, random⟩ := follows.random
  have clock := fresh.frequency_driven os
  have timers := follows.frequency
  refine ⟨n, ?_⟩
  simp only [emptied, restart, Processor.reset, Timers.reset, Oscillator.restart, Screen.clear,
    random, clock, timers]

theorem load_resembles (fresh : Machine) (os : List Operation) (h : rom.size ≤ 3584) :
    ((fresh.driven os).load rom).answer = .ok rom.size ∧
      ((fresh.driven os).load rom).state.Resembles (fresh.load rom).state := by
  obtain ⟨memory, loaded⟩ := Memory.blank.exists_load_eq h
  rw [load_of_load_blank _ loaded, load_of_load_blank _ loaded]
  exact ⟨rfl, (emptied_resembles fresh os).fill memory rom⟩

theorem reject_resembles (fresh : Machine) (os : List Operation) (h : 3584 < rom.size) :
    ((fresh.driven os).load rom).answer = .error (.tooLarge rom.size) ∧
      ((fresh.driven os).load rom).state.Resembles (fresh.load #[]).state := by
  rw [load_of_lt_size _ h, state_load_empty]
  exact ⟨rfl, emptied_resembles fresh os⟩

theorem reset_resembles (empty : fresh.rom = #[]) (os : List Operation) :
    (fresh.driven os).reset.answer = .ok () ∧
      (fresh.driven os).reset.state.Resembles (fresh.load (kept os)).state := by
  have rom := rom_driven empty os
  have small := size_kept_le os
  rw [← rom] at small
  rw [reset_eq_load small, rom]
  rw [rom] at small
  exact ⟨rfl, (load_resembles fresh os small).2⟩

theorem message_tooLarge (size : Nat) : (LoadError.tooLarge size).message =
    "ROM is too large (" ++ toString size ++ " bytes), max size is 3584 bytes" := by
  have limit : " bytes), max size is " ++ (toString Rom.capacity ++ " bytes") =
      " bytes), max size is 3584 bytes" := by rfl
  have message : (LoadError.tooLarge size).message =
      "ROM is too large (" ++ toString size ++ " bytes), max size is " ++
        toString Rom.capacity ++ " bytes" := rfl
  simp only [message, ← limit, String.append_assoc]

theorem kept_reject (os : List Operation) (h : 3584 < rom.size) :
    kept (os ++ [.load rom]) = #[] := by
  rw [kept_concat, Operation.rom?, if_neg (Nat.not_le.mpr h)]
  rfl

/-- However a machine was used, a load or a reset makes of it what a load makes of a new one. After
a ROM that is too large that is the machine without a ROM, now and after any reset. -/
theorem restarts_alike {settings : Settings} {entropy : ChaCha.Key}
    (built : Machine.new settings entropy = .ok fresh) (os : List Operation) :
    (∀ rom : Array UInt8, rom.size ≤ 3584 →
      ((fresh.driven os).load rom).answer = .ok rom.size ∧
        ((fresh.driven os).load rom).state.Resembles (fresh.load rom).state) ∧
    (∀ rom : Array UInt8, 3584 < rom.size →
      ((fresh.driven os).load rom).answer = .error (.tooLarge rom.size) ∧
        (LoadError.tooLarge rom.size).message =
          "ROM is too large (" ++ toString rom.size ++ " bytes), max size is 3584 bytes" ∧
        ((fresh.driven os).load rom).state.Resembles (fresh.load #[]).state ∧
        ((fresh.driven os).load rom).state.reset.state.Resembles (fresh.load #[]).state) ∧
    (fresh.driven os).reset.answer = .ok () ∧
      (fresh.driven os).reset.state.Resembles (fresh.load (kept os)).state := by
  have empty : fresh.rom = #[] := by rw [eq_of_new built]
  refine ⟨fun rom h ↦ load_resembles fresh os h, fun rom h ↦ ?_, reset_resembles empty os⟩
  obtain ⟨answer, state⟩ := reject_resembles fresh os h
  obtain ⟨-, later⟩ := reset_resembles empty (os ++ [.load rom])
  rw [driven_concat, kept_reject os h] at later
  exact ⟨answer, message_tooLarge rom.size, state, later⟩

def newborn : Machine :=
  { processor := .new .standard (Seed.key 0), clock := { frequency := 500 } }

/-- A program that jumps to itself has run for a second, and a ROM has been refused since. -/
def refusal : List Operation :=
  [.load #[0x12, 0x00], .advance .second, .load (Array.replicate 3585 0)]

theorem restarts_alike_refusal :
    ((newborn.driven refusal).load #[0x00, 0xE0]).answer = .ok 2 ∧
      ((newborn.driven refusal).load #[0x00, 0xE0]).state.Resembles
        (newborn.load #[0x00, 0xE0]).state ∧
      ((newborn.driven refusal).load (Array.replicate 4096 1)).answer = .error (.tooLarge 4096) ∧
      ((newborn.driven refusal).load (Array.replicate 4096 1)).state.reset.state.Resembles
        (newborn.load #[]).state ∧
      (newborn.driven refusal).reset.state.Resembles (newborn.load #[]).state := by
  have built : Machine.new .standard (Seed.key 0) = .ok newborn := rfl
  have large (n : Nat) (byte : UInt8) (h : 3584 < n) : 3584 < (Array.replicate n byte).size := by
    rwa [Array.size_replicate]
  obtain ⟨accepted, rejected, -, reset⟩ := restarts_alike built refusal
  obtain ⟨answer, state⟩ := accepted #[0x00, 0xE0] (by decide)
  obtain ⟨answer', -, -, state'⟩ := rejected (Array.replicate 4096 1) (large 4096 1 (by decide))
  rw [Array.size_replicate] at answer'
  have none : kept refusal = #[] :=
    kept_reject [.load #[0x12, 0x00], .advance .second] (large 3585 0 (by decide))
  rw [none] at reset
  exact ⟨answer, state, answer', state', reset⟩

end Machine

end Chip8
