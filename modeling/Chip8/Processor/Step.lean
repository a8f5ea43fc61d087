import Chip8.Instruction.Decode
import Chip8.Outcome
import Chip8.Processor.Execute

namespace Chip8.Processor

def halt (p : Processor) (fault : Fault) : Processor :=
  { p with mode := .halted fault }

def announcement : Instruction → List Event
  | .awaitKey x => [.awaitingKey x]
  | _ => []

/-- The instruction `word`, fetched by a processor that has already moved past it. -/
def perform (p : Processor) (word address : UInt16) : Except Fault (Processor × List Event) :=
  match Instruction.decode? word with
  | none => .error (.unknownOpcode word address)
  | some instruction =>
    match p.execute instruction with
    | .error e => .error (e.fault p.instructionAddress)
    | .ok q => .ok (q, announcement instruction)

/-- Fetches and executes one instruction; while waiting, looks for a held key instead. -/
def step (p : Processor) : Outcome Processor (Except Fault Unit) :=
  match p.mode with
  | .halted fault => ⟨p, .error fault, []⟩
  | .awaitingKey x =>
    match p.keypad.firstHeld with
    | none => ⟨p, .ok (), []⟩
    | some key =>
      let keypad := p.keypad.release (.ofNat key)
      ⟨{ p.set x (.ofNat key) with keypad, mode := .running }, .ok (), [.keyStored key x]⟩
  | .running =>
    let word := p.memory.readWord p.pc
    let event := Event.executing word p.v p.i p.pc
    match p.advance.perform word p.pc with
    | .error fault => ⟨p.advance.halt fault, .error fault, [event, .halting fault]⟩
    | .ok (q, events) => ⟨q, .ok (), event :: events⟩

/-- How many steps of a run succeeded, and the fault that ended it before its time. -/
structure Progress where
  steps : Nat
  fault? : Option Fault
deriving DecidableEq

/-- A run of up to `n` more steps, with `steps` of them made and `log` written, newest first. -/
def runFrom (steps : Nat) (log : List Event) : Nat → Processor → Outcome Processor Progress
  | 0, p => ⟨p, ⟨steps, none⟩, log.reverse⟩
  | n + 1, p =>
    match p.step with
    | ⟨q, .error fault, events⟩ => ⟨q, ⟨steps, some fault⟩, (events.reverseAux log).reverse⟩
    | ⟨q, .ok (), events⟩ => runFrom (steps + 1) (events.reverseAux log) n q

def run (n : Nat) (p : Processor) : Outcome Processor Progress :=
  runFrom 0 [] n p

theorem runFrom_eq (steps : Nat) (log : List Event) (n : Nat) (p : Processor) :
    runFrom steps log n p =
      ⟨(run n p).state, ⟨steps + (run n p).answer.steps, (run n p).answer.fault?⟩,
        log.reverse ++ (run n p).log⟩ := by
  induction n generalizing steps log p with
  | zero => simp [runFrom, run]
  | succ n ih =>
    simp only [run, runFrom]
    match p.step with
    | ⟨q, .error fault, events⟩ => simp
    | ⟨q, .ok (), events⟩ =>
      dsimp only
      rw [ih (steps + 1), ih (0 + 1)]
      simp [Nat.add_assoc]

theorem run_zero (p : Processor) : run 0 p = ⟨p, ⟨0, none⟩, []⟩ :=
  rfl

theorem run_succ (n : Nat) (p : Processor) :
    run (n + 1) p =
      match p.step with
      | ⟨q, .error fault, events⟩ => ⟨q, ⟨0, some fault⟩, events⟩
      | ⟨q, .ok (), events⟩ =>
        ⟨(run n q).state, ⟨(run n q).answer.steps + 1, (run n q).answer.fault?⟩,
          events ++ (run n q).log⟩ := by
  rw [run, runFrom]
  match p.step with
  | ⟨q, .error fault, events⟩ => simp
  | ⟨q, .ok (), events⟩ => simp [runFrom_eq, Nat.add_comm]

end Chip8.Processor
