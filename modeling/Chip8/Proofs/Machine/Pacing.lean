import Chip8.Proofs.Machine.Reachable
import Chip8.Proofs.Processor.Effect
import Chip8.Proofs.Processor.Quiet
import Chip8.Proofs.Time.Slicing

namespace Chip8.Machine

open Processor (QuietRun)

/-- Successive advances. One that is interrupted does not keep the host from the next. -/
def advances : List Duration → Machine → Outcome Machine (List (Except Interruption Nat))
  | [], m => ⟨m, [], []⟩
  | d :: ds, m =>
    let first := m.advance d
    let rest := advances ds first.state
    ⟨rest.state, first.answer :: rest.answer, first.log ++ rest.log⟩

def stepped : List Duration → Machine → List Processor
  | [], _ => []
  | d :: ds, m => m.processor.stepped (m.due d) ++ stepped ds (m.advance d).state

def paceless (m : Machine) : Machine :=
  { m with
    processor.timers := { clock := m.processor.timers.clock }
    meter := {} }

/-- What is left of `m` without a meter when its clocks have run for `n` nanoseconds and its steps
have led to `p`. -/
def after (m : Machine) (p : Processor) (n : Nat) : Machine :=
  { m with
    processor := { p with timers := { clock := m.processor.timers.clock.later n } }
    clock := m.clock.later n
    meter := {} }

/-- Between two calls the clock is within a tick and the meter within its window. -/
structure Paced (m : Machine) : Prop where
  phase_lt : m.clock.phase < 1000000000
  elapsed_lt : m.meter.elapsed.nanoseconds < 1000000000

variable {m : Machine} {d : Duration} {ds es : List Duration} {p q : Processor}

theorem Paced.turn {m' : Machine} (h : m.Paced) (turn : m.Turn m') : m'.Paced := by
  cases turn with
  | restarted =>
    exact ⟨(by decide : 0 < 1000000000), (by decide : Duration.zero.nanoseconds < 1000000000)⟩
  | advanced elapsed _ meter metered =>
    have phase := Oscillator.phase_advance_lt m.clock elapsed
    obtain rfl | recorded := metered
    · exact ⟨phase, h.elapsed_lt⟩
    · exact ⟨phase, Meter.elapsed_record?_lt recorded⟩
  | kept => exact ⟨h.phase_lt, h.elapsed_lt⟩

theorem Paced.advance (h : m.Paced) (d : Duration) : (m.advance d).state.Paced :=
  h.turn (m.turn_advance d)

theorem Reachable.paced (h : m.Reachable) : m.Paced := by
  induction h with
  | new h =>
    rw [eq_of_new h]
    exact ⟨by simp, by simp [Duration.zero]⟩
  | apply _ o ih => exact ih.turn (turn_apply _ o)

theorem due_eq_count (h : m.Paced) (hd : d.nanoseconds ≤ 1000000000) :
    m.due d = m.clock.count d.nanoseconds := by
  rw [due, Oscillator.ticks_eq_count]
  exact Nat.min_eq_left (Oscillator.count_le_frequency m.clock h.phase_lt hd)

theorem advance_of_run (h : m.Paced) (hd : d.nanoseconds ≤ 1000000000)
    (fine : (m.processor.run (m.due d)).answer.fault? = none) :
    (m.advance d).answer = .ok (m.due d) ∧
      ∃ meter, (m.advance d).state = { m with
        processor := { (m.processor.run (m.due d)).state with
          timers := (m.processor.run (m.due d)).state.timers.tick d }
        clock := m.clock.later d.nanoseconds
        meter } := by
  obtain ⟨meter, recorded⟩ := Meter.exists_record?_eq h.elapsed_lt hd (m.due d)
  have ha := m.advanced d
  generalize m.advance d = o at ha ⊢
  cases ha with
  | faulted fault => simp [fine] at fault
  | overlong _ long => simp [recorded] at long
  | @metered meter => exact ⟨rfl, meter, rfl⟩

theorem untimed_advance_of_run (h : m.Paced) (hd : d.nanoseconds ≤ 1000000000)
    (fine : (m.processor.run (m.due d)).answer.fault? = none) :
    (m.advance d).state.processor.untimed = (m.processor.run (m.due d)).state.untimed := by
  obtain ⟨_, meter, state⟩ := advance_of_run h hd fine
  rw [state]
  rfl

theorem after_congr (h : p.untimed = q.untimed) (n : Nat) : m.after p n = m.after q n :=
  congrArg (fun r : Processor ↦ { m with
    processor := { r with timers := { clock := m.processor.timers.clock.later n } }
    clock := m.clock.later n
    meter := {} }) h

theorem exists_quietRun (h : m.Paced) (short : ∀ d ∈ ds, d.nanoseconds ≤ 1000000000)
    (ok : ∀ a ∈ (m.advances ds).answer, ∃ n, a = .ok n)
    (quiet : ∀ p ∈ m.stepped ds, ¬ p.ReadsDelay) :
    ∃ q, QuietRun (m.clock.count (Duration.total ds)) m.processor q := by
  induction ds generalizing m with
  | nil =>
    have hz : m.clock.count (Duration.total []) = 0 := Oscillator.count_zero _ h.phase_lt
    rw [hz]
    exact ⟨m.processor, .zero _⟩
  | cons d ds ih =>
    simp only [advances, stepped, List.forall_mem_cons, List.forall_mem_append] at short ok quiet
    obtain ⟨⟨n, answer⟩, ok⟩ := ok
    have fine := (run_of_advance answer).2
    have first := Processor.quietRun_of_run fine quiet.1
    obtain ⟨q, rest⟩ := ih (h.advance d) short.2 ok quiet.2
    obtain ⟨q, rest, -⟩ := rest.congr (untimed_advance_of_run h short.1 fine)
    obtain ⟨_, meter, state⟩ := advance_of_run h short.1 fine
    refine ⟨q, ?_⟩
    have both := first.trans rest
    rw [due_eq_count h short.1, state, ← Oscillator.count_add] at both
    exact both

theorem advances_of_quietRun (h : m.Paced) (ht : m.processor.timers.clock.phase < 1000000000)
    (short : ∀ d ∈ ds, d.nanoseconds ≤ 1000000000)
    (run : QuietRun (m.clock.count (Duration.total ds)) m.processor p) :
    (m.stepped ds).length = m.clock.count (Duration.total ds) ∧
      (∀ q ∈ m.stepped ds, ¬ q.ReadsDelay) ∧
      (m.advances ds).state.paceless = m.after p (Duration.total ds) ∧
      ∃ counts : List Nat, (m.advances ds).answer = counts.map .ok ∧
        counts.sum = m.clock.count (Duration.total ds) := by
  induction ds generalizing m p with
  | nil =>
    have hz : m.clock.count (Duration.total []) = 0 := Oscillator.count_zero _ h.phase_lt
    rw [hz] at run ⊢
    cases run
    refine ⟨rfl, by simp [stepped], ?_, [], rfl, rfl⟩
    have hc := m.clock.later_zero h.phase_lt
    have hct := m.processor.timers.clock.later_zero ht
    simp only [advances, paceless, after, Duration.total, hc, hct]
  | cons d ds ih =>
    rw [List.forall_mem_cons] at short
    have total : Duration.total (d :: ds) = d.nanoseconds + Duration.total ds := rfl
    rw [total, Oscillator.count_add] at run ⊢
    obtain ⟨q, first, rest⟩ := run.split
    rw [← due_eq_count h short.1] at first
    obtain ⟨reached, fine, length, quiet⟩ := first.run
    have forgotten := untimed_advance_of_run h short.1 fine
    rw [reached] at forgotten
    obtain ⟨answer, meter, state⟩ := advance_of_run h short.1 fine
    have clock : (m.advance d).state.clock = m.clock.later d.nanoseconds := by rw [state]
    have timers : (m.advance d).state.processor.timers.clock =
        m.processor.timers.clock.later d.nanoseconds := by
      have kept : (m.processor.run (m.due d)).state.timers.clock = m.processor.timers.clock := by
        rw [reached, first.clock]
      rw [state, ← kept]
      rfl
    obtain ⟨p', rest, same⟩ := rest.congr forgotten.symm
    rw [← clock] at rest
    have ht' : (m.advance d).state.processor.timers.clock.phase < 1000000000 := by
      rw [timers]
      exact Oscillator.phase_later_lt _ _
    obtain ⟨length', quiet', final, counts, answers, sum⟩ := ih (h.advance d) ht' short.2 rest
    refine ⟨?_, ?_, ?_, m.due d :: counts, ?_, ?_⟩
    · rw [stepped, List.length_append, length, length', clock, due_eq_count h short.1]
    · simp only [stepped, List.forall_mem_append]
      exact ⟨quiet, quiet'⟩
    · rw [advances, final, ← after_congr same]
      simp only [after, clock, timers, ← Oscillator.later_add]
      rw [state]
    · rw [advances, answer, answers]
      rfl
    · rw [List.sum_cons, sum, clock, due_eq_count h short.1]

/-- A host that gives the machine the same time in other slices gets the same machine. -/
theorem advances_agree (h : m.Reachable)
    (short : ∀ d ∈ ds, d.nanoseconds ≤ 1000000000) (short' : ∀ d ∈ es, d.nanoseconds ≤ 1000000000)
    (total : Duration.total es = Duration.total ds)
    (ok : ∀ a ∈ (m.advances ds).answer, ∃ n, a = .ok n)
    (quiet : ∀ p ∈ m.stepped ds, ¬ p.ReadsDelay) :
    (∀ a ∈ (m.advances es).answer, ∃ n, a = .ok n) ∧
      (m.stepped es).length = (m.stepped ds).length ∧
      (m.advances es).state.paceless = (m.advances ds).state.paceless := by
  have ht := h.processor.bounded.phase_lt
  obtain ⟨q, run⟩ := exists_quietRun h.paced short ok quiet
  obtain ⟨length, -, final, -⟩ := advances_of_quietRun h.paced ht short run
  rw [← total] at run length final
  obtain ⟨length', -, final', counts, answers, -⟩ := advances_of_quietRun h.paced ht short' run
  refine ⟨?_, length'.trans length.symm, final'.trans final.symm⟩
  intro a ha
  rw [answers] at ha
  obtain ⟨n, _, rfl⟩ := List.mem_map.mp ha
  exact ⟨n, rfl⟩

theorem quietRun_of_jump (mode : p.mode = .running) (nnn : Fin 4096)
    (fetched : p.snapshot.word = 0x1000 + nnn) (here : p.pc.toNat = nnn) (n : Nat) :
    QuietRun n p p := by
  have hpc : p.pc.toNat < 4096 := by omega
  have form : (Instruction.jump nnn).Form p.snapshot.word := fetched
  obtain ⟨q, executed, step⟩ := Processor.exists_step_eq hpc mode form trivial
  have back : UInt16.ofNat nnn = p.pc := by
    rw [← UInt16.toNat_inj, Processor.toNat_ofNat_address, here]
  have same : q = p := by
    rw [← Except.ok.inj executed, back]
    rfl
  rw [same] at step
  have quiet : ¬ p.ReadsDelay := by
    intro h
    obtain ⟨_, x, form'⟩ := h
    rw [Processor.snapshot_word hpc] at form
    cases form.unique form'
  induction n with
  | zero => exact .zero p
  | succ n ih =>
    refine .cons quiet (by rw [step]) ?_
    rw [step]
    exact ih

/-- The machine whose program is a jump to itself. -/
def idle : Machine :=
  (Operation.load #[0x12, 0x00]).apply
    { processor := .new .standard (Seed.key 0), clock := { frequency := 500 } }

theorem quietRun_idle (n : Nat) : ∃ q, QuietRun n idle.processor q := by
  have small : (#[0x12, 0x00] : Array UInt8).size ≤ Rom.capacity := by decide
  obtain ⟨q, loaded⟩ := (Processor.new .standard (Seed.key 0)).reset.exists_load_eq small
  have hq : idle.processor = q := by
    simp only [idle, Operation.apply, load, restart, loaded]
  have fetched := Processor.word_of_load loaded rfl
  rw [hq]
  obtain ⟨memory, _, rfl⟩ := Processor.load_eq_ok_iff.mp loaded
  exact ⟨_, quietRun_of_jump rfl 0x200 fetched rfl n⟩

theorem advances_agree_idle :
    (∀ a ∈ (idle.advances [.ofParts 0 1000000, .ofParts 0 3000000]).answer, ∃ n, a = .ok n) ∧
      (idle.stepped [.ofParts 0 1000000, .ofParts 0 3000000]).length =
        (idle.stepped [.ofParts 0 4000000]).length ∧
      (idle.advances [.ofParts 0 1000000, .ofParts 0 3000000]).state.paceless =
        (idle.advances [.ofParts 0 4000000]).state.paceless := by
  have built : Machine.new .standard (Seed.key 0) =
      .ok { processor := .new .standard (Seed.key 0), clock := { frequency := 500 } } := rfl
  have reachable : idle.Reachable := (Reachable.new built).apply _
  obtain ⟨q, run⟩ := quietRun_idle (idle.clock.count (Duration.total [.ofParts 0 4000000]))
  obtain ⟨_, quiet, _, counts, answers, _⟩ := advances_of_quietRun reachable.paced
    reachable.processor.bounded.phase_lt (by decide) run
  refine advances_agree reachable (by decide) (by decide) (by decide) ?_ quiet
  intro a ha
  rw [answers] at ha
  obtain ⟨n, _, rfl⟩ := List.mem_map.mp ha
  exact ⟨n, rfl⟩

end Chip8.Machine
