import Chip8.Proofs.Machine.Accounting
import Chip8.Proofs.Machine.Latching
import Chip8.Proofs.Time.Rate

namespace Chip8.Machine

/-- The window that is open lasts for a second or more when the operation is over. -/
def Operation.Closes (m : Machine) : Operation → Prop
  | .advance elapsed => 1000000000 ≤ m.meter.elapsed.nanoseconds + elapsed.nanoseconds
  | _ => False

def Operation.Fits (m : Machine) : Operation → Prop
  | .advance elapsed => (m.advance elapsed).answer ≠ .error .overlong
  | _ => True

/-- If time is given, then no more than a second, and without a fault. -/
def Operation.Attended (m : Machine) : Operation → Prop
  | .advance elapsed =>
    elapsed.nanoseconds ≤ 1000000000 ∧ ∃ n, (m.advance elapsed).answer = .ok n
  | _ => True

structure Honest (m : Machine) : Prop where
  rate_le : m.meter.rate ≤ m.clock.frequency.toNat
  within : m.meter.Within m.clock.frequency.toNat 0
  running : (∀ f, m.processor.mode ≠ .halted f) →
    m.meter.Within m.clock.frequency.toNat m.clock.phase

/-- No step is missing from the open window nor, if there is one, from the last that was closed. -/
structure KeepsUp (closed : Prop) (m : Machine) : Prop where
  complete : m.meter.Complete m.clock.frequency.toNat m.clock.phase
  le_rate : closed → m.clock.frequency.toNat ≤ m.meter.rate + 1

variable {m fresh : Machine} {o : Operation} {os : List Operation} {d : Duration} {n : Nat}
  {closed : Prop}

theorem due_eq_zero_of_halted {f : Fault} (halted : m.processor.mode = .halted f)
    (fine : (m.processor.run (m.due d)).answer.fault? = none) : m.due d = 0 := by
  by_contra due
  rw [Processor.run_of_halted halted (Nat.pos_of_ne_zero due)] at fine
  cases fine

theorem due_add_phase_le (m : Machine) (d : Duration) :
    1000000000 * m.due d + (m.clock.advance d).phase ≤
      m.clock.phase + m.clock.frequency.toNat * d.nanoseconds := by
  have balance := m.due_add_backlog d
  rw [Nat.mul_comm d.nanoseconds] at balance
  omega

theorem le_due_add_phase (h : m.Paced) (short : d.nanoseconds ≤ 1000000000) :
    m.clock.phase + m.clock.frequency.toNat * d.nanoseconds ≤
      1000000000 * m.due d + (m.clock.advance d).phase := by
  have balance := m.due_add_backlog d
  rw [backlog_eq_zero h short, Nat.mul_comm d.nanoseconds] at balance
  omega

theorem record?_of_advance (ok : (m.advance d).answer = .ok n) :
    m.meter.record? d n = some (m.advance d).state.meter := by
  have ha := m.advanced d
  generalize m.advance d = o at ha ok ⊢
  cases ha with
  | faulted | overlong => cases ok
  | metered fine recorded => rwa [← Except.ok.inj ok]

theorem meter_apply_of_restarts (restarts : o.Restarts) : (o.apply m).meter = {} := by
  obtain ⟨memory, rom, started⟩ := exists_apply_eq_of_restarts (m := m) restarts
  rw [started]
  rfl

theorem clock_meter_apply (stays : ¬ o.Restarts) (timeless : ¬ ∃ d, o = .advance d) :
    (o.apply m).clock = m.clock ∧ (o.apply m).meter = m.meter := by
  cases o with
  | load | reset => exact absurd trivial stays
  | loadFrom source =>
    simp only [Operation.apply, loadFrom]
    cases contents : source.contents with
    | error reason => exact ⟨rfl, rfl⟩
    | ok rom => exact absurd ⟨rom, contents⟩ stays
  | advance d => exact absurd ⟨d, rfl⟩ timeless
  | _ => exact ⟨rfl, rfl⟩

theorem exists_eq_of_closes (closes : o.Closes m) : ∃ d, o = .advance d := by
  cases o with
  | advance d => exact ⟨d, rfl⟩
  | _ => exact closes.elim

theorem Operation.Attended.fits (attended : o.Attended m) : o.Fits m := by
  cases o with
  | advance d =>
    obtain ⟨_, n, ok⟩ := attended
    intro overlong
    rw [ok] at overlong
    cases overlong
  | _ => trivial

theorem honest_of_empty (empty : m.meter = {}) (phase_lt : m.clock.phase < 1000000000) :
    m.Honest := by
  constructor
  case rate_le =>
    rw [empty]
    exact Nat.zero_le _
  case within =>
    rw [empty]
    exact Meter.within_empty _ _ (by decide)
  case running =>
    intro _
    rw [empty]
    exact Meter.within_empty _ _ phase_lt

theorem Honest.exists_balance (honest : m.Honest)
    (fine : (m.processor.run (m.due d)).answer.fault? = none) :
    ∃ phase phase', m.meter.Within m.clock.frequency.toNat phase ∧ phase' < 1000000000 ∧
      1000000000 * m.due d + phase' ≤ phase + m.clock.frequency.toNat * d.nanoseconds := by
  by_cases halted : ∃ f, m.processor.mode = .halted f
  · -- The phase may be out of step with the window, but there is nothing to be counted.
    obtain ⟨f, halted⟩ := halted
    refine ⟨0, 0, honest.within, by decide, ?_⟩
    rw [due_eq_zero_of_halted halted fine]
    exact Nat.zero_le _
  · rw [not_exists] at halted
    exact ⟨m.clock.phase, (m.clock.advance d).phase, honest.running halted,
      Oscillator.phase_advance_lt m.clock d, m.due_add_phase_le d⟩

theorem Honest.advance (honest : m.Honest) (h : m.Reachable)
    (fits : (Operation.advance d).Fits m) : (m.advance d).state.Honest := by
  rw [Operation.Fits] at fits
  have latched (f : Fault) (halted : m.processor.mode = .halted f) :=
    (latched_advance h.paced h.frequency_pos halted d).mode
  have ha := m.advanced d
  generalize m.advance d = o at ha fits latched ⊢
  cases ha with
  | faulted fault =>
    -- The clock has gone on without the meter, so that its phase tells of time that the window
    -- does not have. From here on only the bound without the phase is left.
    have halted := Processor.mode_run_of_fault fault
    exact ⟨honest.rate_le, honest.within, fun awake ↦ absurd halted (awake _)⟩
  | overlong => exact absurd rfl fits
  | metered fine recorded =>
    obtain ⟨phase, phase', within, below, balance⟩ := honest.exists_balance fine
    constructor
    case rate_le => exact within.rate_le recorded balance honest.rate_le
    case within => exact (within.record recorded balance below).mono (Nat.zero_le _)
    case running =>
      intro awake
      have before : ∀ f, m.processor.mode ≠ .halted f := fun f halted ↦ awake f (latched f halted)
      exact (honest.running before).record recorded (m.due_add_phase_le d)
        (Oscillator.phase_advance_lt m.clock d)

theorem Honest.rate_eq (honest : m.Honest) (ok : (m.advance d).answer = .ok n)
    (closes : (Operation.advance d).Closes m) :
    (m.advance d).state.meter.rate = (m.meter.steps + n) * 1000000000 /
      (m.meter.elapsed.nanoseconds + d.nanoseconds) := by
  have recorded := record?_of_advance ok
  obtain ⟨rfl, fine⟩ := run_of_advance ok
  obtain ⟨phase, phase', within, -, balance⟩ := honest.exists_balance fine
  exact within.rate_eq recorded balance m.clock.frequency.toNat_lt_size closes

theorem Honest.apply (honest : m.Honest) (h : m.Reachable) (fits : o.Fits m) :
    (o.apply m).Honest := by
  by_cases restarts : o.Restarts
  · have phase := phase_apply_of_restarts (m := m) restarts
    exact honest_of_empty (meter_apply_of_restarts restarts) (by omega)
  by_cases timed : ∃ d, o = .advance d
  · obtain ⟨d, rfl⟩ := timed
    exact honest.advance h fits
  · obtain ⟨clock, meter⟩ := clock_meter_apply (m := m) restarts timed
    constructor
    case rate_le =>
      rw [clock, meter]
      exact honest.rate_le
    case within =>
      rw [clock, meter]
      exact honest.within
    case running =>
      intro awake
      rw [clock, meter]
      refine honest.running fun f halted ↦ awake f ?_
      exact (latched_apply h.paced h.frequency_pos halted restarts).mode

theorem Honest.driven (honest : m.Honest) (h : m.Reachable)
    (fits : ∀ c ∈ trace os m, c.2.Fits c.1) : (m.driven os).Honest := by
  induction os generalizing m with
  | nil => exact honest
  | cons o os ih =>
    rw [trace, List.forall_mem_cons] at fits
    exact ih (honest.apply h fits.1) (h.apply o) fits.2

theorem keepsUp_of_empty (empty : m.meter = {}) : m.KeepsUp False := by
  refine ⟨?_, False.elim⟩
  rw [empty]
  exact Meter.complete_empty _ _ _

theorem KeepsUp.advance (keepsUp : m.KeepsUp closed) (honest : m.Honest) (h : m.Paced)
    (attended : (Operation.advance d).Attended m) :
    (m.advance d).state.KeepsUp (closed ∨ (Operation.advance d).Closes m) := by
  obtain ⟨short, n, ok⟩ := attended
  have recorded := record?_of_advance ok
  have rate := honest.rate_eq ok
  obtain ⟨rfl, -⟩ := run_of_advance ok
  have balance := le_due_add_phase h short
  have clock := m.clock_advance d
  constructor
  case complete =>
    rw [clock]
    exact keepsUp.complete.record recorded balance
  case le_rate =>
    intro closing
    rw [clock, Oscillator.frequency_advance]
    by_cases closes : (Operation.advance d).Closes m
    · rw [rate closes]
      exact Meter.speed_le_div closes (Oscillator.phase_advance_lt m.clock d)
        (keepsUp.complete.total_le balance)
    · rw [Meter.rate_record? recorded (Nat.lt_of_not_le closes)]
      exact keepsUp.le_rate (closing.resolve_right closes)

theorem KeepsUp.apply (keepsUp : m.KeepsUp closed) (honest : m.Honest) (h : m.Paced)
    (stays : ¬ o.Restarts) (attended : o.Attended m) :
    (o.apply m).KeepsUp (closed ∨ o.Closes m) := by
  by_cases timed : ∃ d, o = .advance d
  · obtain ⟨d, rfl⟩ := timed
    exact keepsUp.advance honest h attended
  · obtain ⟨clock, meter⟩ := clock_meter_apply (m := m) stays timed
    constructor
    case complete =>
      rw [clock, meter]
      exact keepsUp.complete
    case le_rate =>
      intro closing
      have before := closing.resolve_right fun closes ↦ timed (exists_eq_of_closes closes)
      rw [clock, meter]
      exact keepsUp.le_rate before

theorem KeepsUp.driven (keepsUp : m.KeepsUp closed) (honest : m.Honest) (h : m.Reachable)
    (stays : ∀ o ∈ os, ¬ o.Restarts) (attended : ∀ c ∈ trace os m, c.2.Attended c.1) :
    (m.driven os).KeepsUp (closed ∨ ∃ c ∈ trace os m, c.2.Closes c.1) := by
  induction os generalizing m closed with
  | nil =>
    refine ⟨keepsUp.complete, fun closing ↦ keepsUp.le_rate (closing.resolve_right ?_)⟩
    exact fun ⟨_, nowhere, _⟩ ↦ List.not_mem_nil nowhere
  | cons o os ih =>
    rw [trace, List.forall_mem_cons] at attended
    rw [List.forall_mem_cons] at stays
    have first := keepsUp.apply honest h.paced stays.1 attended.1
    have rest := ih first (honest.apply h attended.1.fits) (h.apply o) stays.2 attended.2
    simp only [trace, List.mem_cons, exists_eq_or_imp, ← or_assoc]
    exact rest

theorem meter_driven_of_start {settings : Settings} {entropy : ChaCha.Key}
    (built : Machine.new settings entropy = .ok fresh) (os : List Operation)
    (start : os = [] ∨ ∃ done o, os = done ++ [o] ∧ o.Restarts) :
    (fresh.driven os).meter = {} := by
  obtain rfl | ⟨done, o, rfl, restarts⟩ := start
  · rw [eq_of_new built]
    rfl
  · rw [driven_concat]
    exact meter_apply_of_restarts restarts

/-- Whatever a host does, the rate that the meter shows is not above the speed that was asked for,
and so is the quotient of steps and time itself and not what 32 bits make of it. A machine that from
its start has not been left alone for more than a second, and has met with no fault, shows that
speed or one less from its first full window on. -/
theorem rate_driven {settings : Settings} {entropy : ChaCha.Key}
    (built : Machine.new settings entropy = .ok fresh)
    (fits : ∀ c ∈ trace os fresh, c.2.Fits c.1) :
    let m := fresh.driven os
    let speed := settings.clockSpeed.toNat
    m.meter.rate ≤ speed ∧
      (∀ d n, (m.advance d).answer = .ok n → (Operation.advance d).Closes m →
        (m.advance d).state.meter.rate = (m.meter.steps + n) * 1000000000 /
          (m.meter.elapsed.nanoseconds + d.nanoseconds)) ∧
      ∀ past recent, os = past ++ recent →
        (past = [] ∨ ∃ done o, past = done ++ [o] ∧ o.Restarts) →
        (∀ o ∈ recent, ¬ o.Restarts) →
        (∀ c ∈ trace recent (fresh.driven past), c.2.Attended c.1) →
        (∃ c ∈ trace recent (fresh.driven past), c.2.Closes c.1) →
          m.meter.rate = speed ∨ m.meter.rate = speed - 1 := by
  intro m speed
  have reachable : fresh.Reachable := .new built
  have frequency : m.clock.frequency.toNat = speed := by
    rw [frequency_driven, eq_of_new built]
  have unused : fresh.meter = {} := meter_driven_of_start built [] (.inl rfl)
  have honest : m.Honest :=
    (honest_of_empty unused reachable.paced.phase_lt).driven reachable fits
  have rate_le : m.meter.rate ≤ speed := frequency ▸ honest.rate_le
  refine ⟨rate_le, fun d n ↦ honest.rate_eq, ?_⟩
  rintro past recent rfl start stays attended closing
  have begun : (fresh.driven past).Reachable := reachable.driven past
  have empty := meter_driven_of_start built past start
  have keepsUp := (keepsUp_of_empty empty).driven (honest_of_empty empty begun.paced.phase_lt)
    begun stays attended
  rw [← driven_append] at keepsUp
  have le_rate : speed ≤ m.meter.rate + 1 := frequency ▸ keepsUp.le_rate (.inr closing)
  omega

theorem answer_advance_second : (idle.advance .second).answer = .ok 500 := by
  have built : Machine.new .standard (Seed.key 0) = .ok newborn := rfl
  have reachable : idle.Reachable := (Reachable.new built).apply (.load #[0x12, 0x00])
  have due : idle.due .second = 500 := by
    have clock : idle.clock = { frequency := 500 } := rfl
    rw [due, clock]
    decide
  obtain ⟨q, run⟩ := quietRun_idle (idle.due .second)
  obtain ⟨-, fine, -, -⟩ := run.run
  rw [(advance_of_run reachable.paced (by decide) fine).1, due]

theorem rate_driven_idle :
    let os : List Operation := [.load #[0x12, 0x00], .advance .second]
    (∀ c ∈ trace os newborn, c.2.Fits c.1) ∧
      (newborn.driven os).meter.rate = 500 ∧
      ((newborn.driven os).meter.rate = 500 ∨ (newborn.driven os).meter.rate = 499) := by
  intro os
  have built : Machine.new .standard (Seed.key 0) = .ok newborn := rfl
  have meter : idle.meter = {} := rfl
  have closes : (Operation.advance .second).Closes idle := by
    rw [Operation.Closes, meter]
    decide
  have attended : (Operation.advance .second).Attended idle :=
    ⟨by decide, 500, answer_advance_second⟩
  have timeless : ∀ c ∈ trace [.load #[0x12, 0x00]] newborn, c.2.Fits c.1 := by
    rw [trace, List.forall_mem_cons]
    exact ⟨trivial, List.forall_mem_nil _⟩
  have loaded : (Operation.load #[0x12, 0x00]).apply newborn = idle := rfl
  have fits : ∀ c ∈ trace os newborn, c.2.Fits c.1 := by
    simp only [os, trace, loaded, List.forall_mem_cons]
    exact ⟨trivial, attended.fits, List.forall_mem_nil _⟩
  have begun : newborn.driven [.load #[0x12, 0x00]] = idle := loaded
  have final : newborn.driven os = (idle.advance .second).state := by
    have last := newborn.driven_concat [.load #[0x12, 0x00]] (.advance .second)
    rwa [begun, Operation.apply] at last
  obtain ⟨-, quotient, -⟩ := rate_driven built timeless
  obtain ⟨-, -, steady⟩ := rate_driven built fits
  rw [begun] at quotient
  have rate := quotient .second 500 answer_advance_second closes
  rw [meter, ← final] at rate
  refine ⟨fits, rate.trans (by decide), ?_⟩
  refine steady [.load #[0x12, 0x00]] [.advance .second] rfl (.inr ⟨[], _, rfl, trivial⟩) ?_ ?_ ?_
  · simp [Operation.Restarts]
  · rw [begun, trace, trace, List.forall_mem_singleton]
    exact attended
  · rw [begun]
    exact ⟨_, List.mem_singleton_self _, closes⟩

end Chip8.Machine
