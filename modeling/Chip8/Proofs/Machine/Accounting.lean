import Chip8.Proofs.Machine.Nesting
import Chip8.Proofs.Machine.Pacing
import Chip8.Proofs.Machine.Restart
import Chip8.Proofs.Processor.Log
import Chip8.Proofs.Text.Line

namespace Chip8

def Event.dropped? : Event → Option Nat
  | .backlogDropped n => some n
  | _ => none

def Event.droppedIn (log : List Event) : Nat :=
  (log.filterMap dropped?).sum

namespace Machine

open Event (droppedIn)

def dropped : List Duration → Machine → List Nat
  | [], _ => []
  | d :: ds, m => droppedIn (m.advance d).log :: dropped ds (m.advance d).state

variable {m fresh : Machine} {d : Duration} {ds : List Duration} {counts : List Nat}

theorem droppedIn_append (log log' : List Event) :
    droppedIn (log ++ log') = droppedIn log + droppedIn log' := by
  rw [droppedIn, List.filterMap_append, List.sum_append]
  rfl

theorem droppedIn_backlogEvents (n : Nat) : droppedIn (backlogEvents n) = n := by
  cases n <;> rfl

theorem droppedIn_run (p : Processor) (n : Nat) : droppedIn (p.run n).log = 0 := by
  have none : (p.run n).log.filterMap Event.dropped? = [] := by
    rw [List.filterMap_eq_nil_iff]
    intro e he
    have ofStep := Processor.ofStep_of_mem_run he
    cases e with
    | backlogDropped => exact ofStep.elim
    | _ => rfl
  rw [droppedIn, none]
  rfl

theorem droppedIn_advance (m : Machine) (d : Duration) :
    droppedIn (m.advance d).log = m.backlog d := by
  rw [log_advance, droppedIn_append, droppedIn_backlogEvents, droppedIn_run, Nat.add_zero]

theorem due_add_backlog (m : Machine) (d : Duration) :
    1000000000 * (m.due d + m.backlog d) + (m.clock.advance d).phase =
      m.clock.phase + d.nanoseconds * m.clock.frequency.toNat := by
  have ticks : m.due d + m.backlog d = m.clock.ticks d := by
    simp only [due, backlog]
    omega
  rw [ticks]
  exact m.clock.ticks_add_phase_advance d

theorem due_le_frequency (m : Machine) (d : Duration) : m.due d ≤ m.clock.frequency.toNat :=
  Nat.min_le_right _ _

theorem due_eq_frequency (h : 0 < m.backlog d) : m.due d = m.clock.frequency.toNat := by
  simp only [due, backlog] at h ⊢
  omega

theorem backlog_eq_zero (h : m.Paced) (short : d.nanoseconds ≤ 1000000000) :
    m.backlog d = 0 := by
  have fits := Oscillator.count_le_frequency m.clock h.phase_lt short
  rw [← Oscillator.ticks_eq_count] at fits
  exact Nat.sub_eq_zero_of_le fits

theorem exists_counts_of_cons (answers : (m.advances (d :: ds)).answer = counts.map .ok) :
    ∃ rest : List Nat, counts = m.due d :: rest ∧
      ((m.advance d).state.advances ds).answer = rest.map .ok := by
  simp only [advances] at answers
  obtain ⟨n, rest, rfl, first, others⟩ := List.map_eq_cons_iff.mp answers.symm
  rw [(run_of_advance first.symm).1]
  exact ⟨rest, rfl, others.symm⟩

/-- The time that a host gives is the time of the steps made and dropped and what the clock has
moved on by. -/
theorem counts_add_dropped (answers : (m.advances ds).answer = counts.map .ok) :
    1000000000 * (counts.sum + (m.dropped ds).sum) + (m.advances ds).state.clock.phase =
      m.clock.phase + m.clock.frequency.toNat * Duration.total ds := by
  induction ds generalizing m counts with
  | nil =>
    obtain rfl := List.map_eq_nil_iff.mp answers.symm
    simp [advances, dropped, Duration.total]
  | cons d ds ih =>
    obtain ⟨rest, rfl, others⟩ := exists_counts_of_cons answers
    have first := m.due_add_backlog d
    have later := ih others
    simp only [clock_advance, Oscillator.frequency_advance] at later
    simp only [advances, dropped, droppedIn_advance, List.sum_cons, Duration.total, Nat.mul_add,
      Nat.mul_comm d.nanoseconds] at first later ⊢
    omega

theorem forall₂_counts_dropped (answers : (m.advances ds).answer = counts.map .ok) :
    List.Forall₂ (fun made dropped ↦ made ≤ m.clock.frequency.toNat ∧
      (0 < dropped → made = m.clock.frequency.toNat)) counts (m.dropped ds) := by
  induction ds generalizing m counts with
  | nil =>
    obtain rfl := List.map_eq_nil_iff.mp answers.symm
    exact .nil
  | cons d ds ih =>
    obtain ⟨rest, rfl, others⟩ := exists_counts_of_cons answers
    have later := ih others
    rw [clock_advance, Oscillator.frequency_advance] at later
    rw [dropped, droppedIn_advance]
    exact .cons ⟨m.due_le_frequency d, due_eq_frequency⟩ later

theorem eq_zero_of_mem_dropped (h : m.Paced) (short : ∀ d ∈ ds, d.nanoseconds ≤ 1000000000) :
    ∀ k ∈ m.dropped ds, k = 0 := by
  induction ds generalizing m with
  | nil => simp [dropped]
  | cons d ds ih =>
    rw [List.forall_mem_cons] at short
    rw [dropped, droppedIn_advance, List.forall_mem_cons]
    exact ⟨backlog_eq_zero h short.1, ih (h.advance d) short.2⟩

theorem phase_advances_lt (h : m.Paced) (ds : List Duration) :
    (m.advances ds).state.clock.phase < 1000000000 := by
  induction ds generalizing m with
  | nil => exact h.phase_lt
  | cons d ds ih => exact ih (h.advance d)

theorem phase_apply_of_restarts {o : Operation} (restarts : o.Restarts) :
    (o.apply m).clock.phase = 0 := by
  obtain ⟨memory, rom, started⟩ := exists_apply_eq_of_restarts (m := m) restarts
  rw [started]
  rfl

theorem phase_driven_of_restarts {o : Operation} {os : List Operation} (restarts : o.Restarts) :
    (m.driven (os ++ [o])).clock.phase = 0 := by
  rw [driven_concat]
  exact phase_apply_of_restarts restarts

/-- Of the steps that fall due in the time that a host gives, none is lost: each is made or is
reported as dropped, and it is dropped only if a second's worth of them is made at once. A machine
that starts anew and is never left for more than a second makes them all. -/
theorem accounts_balance {settings : Settings} {entropy : ChaCha.Key}
    (built : Machine.new settings entropy = .ok fresh) (os : List Operation)
    (answers : ((fresh.driven os).advances ds).answer = counts.map .ok) :
    let m := fresh.driven os
    let speed := settings.clockSpeed.toNat
    1000000000 * (counts.sum + (m.dropped ds).sum) + (m.advances ds).state.clock.phase =
        m.clock.phase + speed * Duration.total ds ∧
      (m.advances ds).state.clock.phase < 1000000000 ∧
      List.Forall₂ (fun made dropped ↦ made ≤ speed ∧ (0 < dropped → made = speed))
        counts (m.dropped ds) ∧
      ((∀ d ∈ ds, d.nanoseconds ≤ 1000000000) →
        (∀ k ∈ m.dropped ds, k = 0) ∧
          ∀ done o, os = done ++ [o] → o.Restarts →
            counts.sum = speed * Duration.total ds / 1000000000) ∧
      ∀ n : Nat, (Event.backlogDropped n).line =
        "DEBUG dropping " ++ toString n ++ " steps of backlog" := by
  intro m speed
  have reachable : m.Reachable := (Reachable.new built).driven os
  have frequency : m.clock.frequency.toNat = speed := by
    rw [frequency_driven, eq_of_new built]
  have balance := counts_add_dropped (m := m) answers
  have below := phase_advances_lt reachable.paced ds
  have pairs := forall₂_counts_dropped (m := m) answers
  rw [frequency] at balance pairs
  refine ⟨balance, below, pairs, fun short ↦ ?_, Event.line_backlogDropped⟩
  have none := eq_zero_of_mem_dropped reachable.paced short
  refine ⟨none, ?_⟩
  rintro done o rfl restarts
  have start : m.clock.phase = 0 := phase_driven_of_restarts restarts
  have kept : (m.dropped ds).sum = 0 := List.sum_eq_zero_iff_forall_eq_nat.mpr none
  rw [kept, start, Nat.add_zero, Nat.zero_add] at balance
  omega

theorem answer_advance_idle : (idle.advances [.ofParts 5 0]).answer = [500].map .ok := by
  have clock : idle.clock = { frequency := 500 } := rfl
  have due : idle.due (.ofParts 5 0) = 500 := by
    rw [due, clock]
    decide
  obtain ⟨q, run⟩ := quietRun_idle (idle.due (.ofParts 5 0))
  obtain ⟨-, fine, -, -⟩ := run.run
  have ha := idle.advanced (.ofParts 5 0)
  rw [advances]
  generalize idle.advance (.ofParts 5 0) = o at ha ⊢
  cases ha with
  | faulted fault =>
    rw [fine] at fault
    cases fault
  | overlong _ long => cases long
  | metered => rw [due]; rfl

theorem accounts_balance_idle :
    (∃ counts : List Nat, counts.sum = 6 ∧ (idle.advances
        [.ofParts 0 10000000, .ofParts 0 1000000, .ofParts 0 1000000]).answer = counts.map .ok) ∧
      (idle.advances [.ofParts 5 0]).answer = [500].map .ok ∧
      (idle.dropped [.ofParts 5 0]).sum = 2000 := by
  have built : Machine.new .standard (Seed.key 0) = .ok newborn := rfl
  have reachable : idle.Reachable := (Reachable.new built).apply (.load #[0x12, 0x00])
  constructor
  · obtain ⟨q, run⟩ := quietRun_idle (idle.clock.count (Duration.total
      [.ofParts 0 10000000, .ofParts 0 1000000, .ofParts 0 1000000]))
    obtain ⟨_, _, _, counts, answers, _⟩ := advances_of_quietRun reachable.paced
      reachable.processor.bounded.phase_lt (by decide) run
    obtain ⟨-, -, -, short, -⟩ := accounts_balance built [.load #[0x12, 0x00]] answers
    obtain ⟨-, sum⟩ := short (by decide)
    exact ⟨counts, sum [] (.load #[0x12, 0x00]) rfl trivial, answers⟩
  · have answers := answer_advance_idle
    obtain ⟨balance, below, -⟩ := accounts_balance built [.load #[0x12, 0x00]] answers
    refine ⟨answers, ?_⟩
    have same : newborn.driven [.load #[0x12, 0x00]] = idle := rfl
    have start : idle.clock.phase = 0 := rfl
    have due : Settings.standard.clockSpeed.toNat * Duration.total [.ofParts 5 0] =
      2500000000000 := rfl
    rw [same, start, due, List.sum_singleton] at balance
    rw [same] at below
    omega

end Machine

end Chip8
