import Chip8.Proofs.Machine.Nesting
import Chip8.Proofs.Machine.Pacing
import Chip8.Proofs.Machine.Restart
import Chip8.Proofs.Machine.Viewing
import Chip8.Proofs.Processor.Halting
import Chip8.Proofs.Processor.Log

namespace Chip8

namespace Processor

variable {p : Processor} {f : Fault}

theorem step_of_halted (mode : p.mode = .halted f) : p.step = ⟨p, .error f, []⟩ := by
  simp only [step, mode]

theorem run_of_halted (mode : p.mode = .halted f) {n : Nat} (pos : 0 < n) :
    p.run n = ⟨p, ⟨0, some f⟩, []⟩ := by
  obtain ⟨n, rfl⟩ := Nat.exists_eq_add_one_of_ne_zero (Nat.ne_of_gt pos)
  simp only [run_succ, step_of_halted mode]

end Processor

namespace Machine

def Operation.log (m : Machine) : Operation → List Event
  | .load rom => (m.load rom).log
  | .loadFrom source => (m.loadFrom source).log
  | .reset => m.reset.log
  | .step => m.step.log
  | .advance elapsed => (m.advance elapsed).log
  | .status => m.status
  | .tick _ | .press _ | .release _ | .setKeys _ | .takeFrame => []

/-- The machine `m'` is halted by `f` and has all that `m` had for a program to work on. -/
structure Latched (f : Fault) (m m' : Machine) : Prop where
  mode : m'.processor.mode = .halted f
  v : m'.processor.v = m.processor.v
  i : m'.processor.i = m.processor.i
  pc : m'.processor.pc = m.processor.pc
  stack : m'.processor.stack = m.processor.stack
  memory : m'.processor.memory = m.processor.memory
  frame : m'.processor.screen.frame = m.processor.screen.frame
  random : m'.processor.random = m.processor.random

/-- How a machine halted by `f` meets its host. -/
structure Stuck (f : Fault) (m : Machine) : Prop where
  step : m.step = ⟨m, .error f, []⟩
  late : ∀ elapsed : Duration,
    1000000000 ≤ m.clock.phase + elapsed.nanoseconds * m.clock.frequency.toNat →
    (m.advance elapsed).answer = .error (.fault f) ∧
      (m.advance elapsed).state.processor.timers = m.processor.timers
  early : ∀ elapsed : Duration,
    m.clock.phase + elapsed.nanoseconds * m.clock.frequency.toNat < 1000000000 →
    (m.advance elapsed).answer = .ok 0 ∧
      (m.advance elapsed).state.processor.timers = m.processor.timers.tick elapsed
  fits : ∀ elapsed, (m.advance elapsed).answer ≠ .error .overlong
  silent : ∀ o : Operation, ¬ o.Restarts → ∀ e ∈ o.log m, ¬ e.OfStep
  restarts : ∀ o : Operation, (o.apply m).processor.mode ≠ .halted f ↔ o.Restarts

variable {m m' m'' : Machine} {f : Fault} {o : Operation} {os : List Operation}
  {elapsed : Duration}

theorem Latched.refl (halted : m.processor.mode = .halted f) : Latched f m m :=
  ⟨halted, rfl, rfl, rfl, rfl, rfl, rfl, rfl⟩

theorem Latched.trans (h : Latched f m m') (h' : Latched f m' m'') : Latched f m m'' where
  mode := h'.mode
  v := h'.v.trans h.v
  i := h'.i.trans h.i
  pc := h'.pc.trans h.pc
  stack := h'.stack.trans h.stack
  memory := h'.memory.trans h.memory
  frame := h'.frame.trans h.frame
  random := h'.random.trans h.random

theorem clockSpeed_ne_zero_of_new {settings : Settings} {entropy : ChaCha.Key}
    (built : Machine.new settings entropy = .ok m) : settings.clockSpeed ≠ 0 := by
  intro stopped
  simp only [new, Settings.validate, stopped, if_true, Except.map] at built
  cases built

theorem Reachable.frequency_pos (h : m.Reachable) : 0 < m.clock.frequency.toNat := by
  induction h with
  | new built =>
    have running := clockSpeed_ne_zero_of_new built
    rw [eq_of_new built]
    exact Nat.pos_of_ne_zero fun zero ↦ running (UInt32.toNat_inj.mp zero)
  | apply _ o ih => rwa [frequency_apply]

theorem mode_step_of_error (error : m.step.answer = .error f) :
    m.step.state.processor.mode = .halted f :=
  Processor.mode_step_of_error error

theorem due_pos_iff (running : 0 < m.clock.frequency.toNat) :
    0 < m.due elapsed ↔ 1000000000 ≤ m.clock.reading elapsed := by
  simp only [due, Oscillator.ticks]
  omega

theorem due_eq_zero_iff (running : 0 < m.clock.frequency.toNat) :
    m.due elapsed = 0 ↔ m.clock.reading elapsed < 1000000000 := by
  rw [← Nat.le_zero, ← Nat.not_lt, due_pos_iff running, Nat.not_le]

theorem advance_of_halted (halted : m.processor.mode = .halted f) (late : 0 < m.due elapsed) :
    m.advance elapsed = ⟨{ m with clock := m.clock.advance elapsed }, .error (.fault f),
      backlogEvents (m.backlog elapsed)⟩ := by
  simp only [advance, run, Outcome.map, Processor.run_of_halted halted late, List.append_nil]

/-- Whatever the mode, an advance that calls for no step is a tick that is metered. -/
theorem advance_of_due_eq_zero (h : m.Paced) (running : 0 < m.clock.frequency.toNat)
    (early : m.due elapsed = 0) :
    ∃ meter, m.advance elapsed =
      ⟨{ m.tick elapsed with clock := m.clock.advance elapsed, meter }, .ok 0, []⟩ := by
  have reading := (due_eq_zero_iff running).mp early
  have short : elapsed.nanoseconds ≤ elapsed.nanoseconds * m.clock.frequency.toNat :=
    Nat.le_mul_of_pos_right _ running
  have none : m.backlog elapsed = 0 := by
    simp only [backlog, Oscillator.ticks]
    omega
  have below : elapsed.nanoseconds ≤ 1000000000 := by
    simp only [Oscillator.reading] at reading
    omega
  obtain ⟨meter, recorded⟩ := Meter.exists_record?_eq h.elapsed_lt below 0
  refine ⟨meter, ?_⟩
  simp only [advance, run, Outcome.map, early, none, recorded, Processor.run_zero]
  rfl

theorem latched_advance (h : m.Paced) (running : 0 < m.clock.frequency.toNat)
    (halted : m.processor.mode = .halted f) (elapsed : Duration) :
    Latched f m (m.advance elapsed).state := by
  obtain early | late := Nat.eq_zero_or_pos (m.due elapsed)
  · obtain ⟨meter, advanced⟩ := advance_of_due_eq_zero h running early
    rw [advanced]
    exact ⟨halted, rfl, rfl, rfl, rfl, rfl, rfl, rfl⟩
  · rw [advance_of_halted halted late]
    exact ⟨halted, rfl, rfl, rfl, rfl, rfl, rfl, rfl⟩

theorem latched_apply (h : m.Paced) (running : 0 < m.clock.frequency.toNat)
    (halted : m.processor.mode = .halted f) (stays : ¬ o.Restarts) :
    Latched f m (o.apply m) := by
  cases o with
  | load | reset => exact absurd trivial stays
  | loadFrom source =>
    simp only [Operation.apply, loadFrom]
    cases contents : source.contents with
    | error reason => exact .refl halted
    | ok rom => exact absurd ⟨rom, contents⟩ stays
  | step =>
    simp only [Operation.apply, step, Processor.step_of_halted halted]
    exact .refl halted
  | advance elapsed => exact latched_advance h running halted elapsed
  | takeFrame =>
    simp only [Operation.apply, takeFrame, Processor.takeFrame_eq]
    exact ⟨halted, rfl, rfl, rfl, rfl, rfl, rfl, rfl⟩
  | tick | press | release | setKeys | status =>
    exact ⟨halted, rfl, rfl, rfl, rfl, rfl, rfl, rfl⟩

theorem not_ofStep_of_mem_backlogEvents {n : Nat} {e : Event} (h : e ∈ backlogEvents n) :
    ¬ e.OfStep := by
  cases n with
  | zero => cases h
  | succ n =>
    obtain rfl := List.mem_singleton.mp h
    exact not_false

theorem not_ofStep_of_mem_status {e : Event} (h : e ∈ m.status) : ¬ e.OfStep := by
  simp only [status, List.cons_append, List.mem_cons, List.mem_append, List.mem_map,
    List.not_mem_nil, or_false] at h
  obtain rfl | ⟨_, _, rfl⟩ | rfl := h <;> exact not_false

theorem not_ofStep_of_mem_log (h : m.Paced) (running : 0 < m.clock.frequency.toNat)
    (halted : m.processor.mode = .halted f) (stays : ¬ o.Restarts) {e : Event}
    (he : e ∈ o.log m) : ¬ e.OfStep := by
  cases o with
  | load | reset => exact absurd trivial stays
  | loadFrom source =>
    cases contents : source.contents with
    | error reason =>
      simp only [Operation.log, loadFrom, contents] at he
      cases he
    | ok rom => exact absurd ⟨rom, contents⟩ stays
  | step =>
    simp only [Operation.log, step, Processor.step_of_halted halted] at he
    cases he
  | advance elapsed =>
    rw [Operation.log] at he
    obtain early | late := Nat.eq_zero_or_pos (m.due elapsed)
    · obtain ⟨_, advanced⟩ := advance_of_due_eq_zero h running early
      rw [advanced] at he
      cases he
    · rw [advance_of_halted halted late] at he
      exact not_ofStep_of_mem_backlogEvents he
  | status => exact not_ofStep_of_mem_status he
  | tick | press | release | setKeys | takeFrame => cases he

theorem stuck_of_halted (h : m.Reachable) (halted : m.processor.mode = .halted f) :
    Stuck f m := by
  have paced := h.paced
  have running := h.frequency_pos
  have late {elapsed : Duration} (due : 0 < m.due elapsed) :=
    advance_of_halted halted due
  have early {elapsed : Duration} (none : m.due elapsed = 0) :=
    advance_of_due_eq_zero paced running none
  constructor
  case step => simp only [step, Outcome.map, Processor.step_of_halted halted]
  case late =>
    intro elapsed reading
    rw [late ((due_pos_iff running).mpr reading)]
    exact ⟨rfl, rfl⟩
  case early =>
    intro elapsed reading
    obtain ⟨_, advanced⟩ := early ((due_eq_zero_iff running).mpr reading)
    rw [advanced]
    exact ⟨rfl, rfl⟩
  case fits =>
    intro elapsed overlong
    obtain none | due := Nat.eq_zero_or_pos (m.due elapsed)
    · obtain ⟨_, advanced⟩ := early none
      rw [advanced] at overlong
      cases overlong
    · rw [late due] at overlong
      cases overlong
  case silent => exact fun o stays e he ↦ not_ofStep_of_mem_log paced running halted stays he
  case restarts =>
    intro o
    constructor
    · intro leaves
      by_contra stays
      exact leaves (latched_apply paced running halted stays).mode
    · intro restarts same
      obtain ⟨memory, rom, started⟩ := exists_apply_eq_of_restarts (m := m) restarts
      rw [started] at same
      cases same

theorem latched_driven (h : m.Reachable) (halted : m.processor.mode = .halted f)
    (stays : ∀ o ∈ os, ¬ o.Restarts) : Latched f m (m.driven os) := by
  induction os generalizing m with
  | nil => exact .refl halted
  | cons o os ih =>
    rw [List.forall_mem_cons] at stays
    have first := latched_apply h.paced h.frequency_pos halted stays.1
    exact first.trans (ih (h.apply o) first.mode stays.2)

/-- A machine that has come upon a fault stays with it, and with all that its program worked on,
whatever a host does except to start it anew; and that always helps. -/
theorem stuck_driven (h : m.Reachable) (halted : m.processor.mode = .halted f)
    (stays : ∀ o ∈ os, ¬ o.Restarts) : Latched f m (m.driven os) ∧ Stuck f (m.driven os) := by
  have latched := latched_driven h halted stays
  exact ⟨latched, stuck_of_halted (h.driven os) latched.mode⟩

/-- The machine that has returned from where it was never called. -/
def lost : Machine :=
  Operation.step.apply (newborn.load #[0x00, 0xEE]).state

theorem answer_step_unfounded :
    (newborn.load #[0x00, 0xEE]).state.step.answer = .error (.stackUnderflow 0x200) := by
  have built : Machine.new .standard (Seed.key 0) = .ok newborn := rfl
  have fetched : Instruction.ret.Form (newborn.load #[0x00, 0xEE]).state.processor.word.toNat :=
    (Reachable.new built).word_load (by decide)
  have restarts : (Operation.load #[0x00, 0xEE]).Restarts := trivial
  obtain ⟨memory, rom, started⟩ := exists_apply_eq_of_restarts (m := newborn) restarts
  rw [Operation.apply] at started
  rw [started] at fetched
  have fails := Processor.answer_step_of_refused (p := { newborn.processor.reset with memory }) rfl
    (Instruction.decode?_eq_some_iff.mpr fetched) rfl
  rw [Processor.instructionAddress_advance (by decide : (0x200 : UInt16).toNat < 4096)] at fails
  rw [started]
  exact fails

theorem mode_lost : lost.processor.mode = .halted (.stackUnderflow 0x200) :=
  mode_step_of_error answer_step_unfounded

theorem stuck_driven_lost :
    Latched (.stackUnderflow 0x200) lost (lost.driven [.advance .second, .press 5, .tick .second,
        .loadFrom [.bytes #[0x12], .failed "broken reader"], .takeFrame, .status]) ∧
      Stuck (.stackUnderflow 0x200) (lost.driven [.advance .second, .press 5, .tick .second,
        .loadFrom [.bytes #[0x12], .failed "broken reader"], .takeFrame, .status]) := by
  have built : Machine.new .standard (Seed.key 0) = .ok newborn := rfl
  have reachable : lost.Reachable := ((Reachable.new built).apply (.load _)).apply .step
  refine stuck_driven reachable mode_lost ?_
  simp [Operation.Restarts, Source.contents, Source.contentsAfter]

end Machine

end Chip8
