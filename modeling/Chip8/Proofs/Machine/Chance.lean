import Chip8.Proofs.Machine.Reachable
import Chip8.Proofs.Processor.Effect
import Chip8.Proofs.Random.Stream
import Mathlib.Data.List.Induction

namespace Chip8.Processor

def Operation.Rolls (p : Processor) : Operation → Prop
  | .step => ∃ x kk, p.Executes (.random x kk)
  | _ => False

variable {p : Processor} {o : Operation} {os : List Operation} {key : ChaCha.Key}

theorem executes_random {x : Fin 16} {kk : UInt8} (mode : p.mode = .running)
    (decoded : Instruction.decode? p.word = some (.random x kk)) : p.Executes (.random x kk) :=
  (executes_of_execute mode decoded rfl).1

theorem executes_random_iff : (∃ x kk, p.Executes (.random x kk)) ↔
    p.mode = .running ∧ p.word.toNat / 0x1000 = 0xC := by
  constructor
  · rintro ⟨x, kk, mode, form, -⟩
    have fetched : p.word.toNat = 0xC000 + 0x100 * x + kk.toNat := form
    have hk := kk.toNat_lt
    refine ⟨mode, ?_⟩
    omega
  · rintro ⟨mode, high⟩
    have fetched := Word.toNat_eq_lowByte p.word
    have digit : (Word.digit p.word 0x1000).val = 0xC := by
      rw [Word.val_digit, high]
    rw [digit] at fetched
    have decoded : Instruction.decode? p.word =
        some (.random (Word.digit p.word 0x100) (Word.lowByte p.word)) :=
      Instruction.decode?_eq_some_iff.mpr fetched
    exact ⟨_, _, executes_random mode decoded⟩

instance (p : Processor) (o : Operation) : Decidable (o.Rolls p) :=
  match o with
  | .step => decidable_of_iff _ executes_random_iff.symm
  | .load _ | .reset | .tick _ | .setDelay _ | .setSound _ | .resetTimers | .press _ | .release _
  | .setKeys _ | .releaseKeys | .draw .. | .clear | .takeFrame => .isFalse not_false

def rolls (os : List Operation) (p : Processor) : Nat :=
  (trace os p).countP fun e ↦ e.2.Rolls e.1

/-- What becomes of the stream of `key` in a processor that starts with it and has done `os`. -/
structure Streamed (key : ChaCha.Key) (p : Processor) (os : List Operation) : Prop where
  position : Generator.At key (rolls os p) (p.driven os).random
  stored : ∀ x kk, (p.driven os).Executes (.random x kk) →
    (p.driven os).step.state.get x = kk &&& (key.word (rolls os p)).toUInt8
  kept : ∀ o : Operation, ¬ o.Rolls (p.driven os) →
    (o.apply (p.driven os)).random = (p.driven os).random

theorem rolls_cons : rolls (o :: os) p =
    rolls os (o.apply p) + if o.Rolls p then 1 else 0 := by
  simp only [rolls, trace, List.countP_cons, decide_eq_true_eq]

theorem rolls_concat : rolls (os ++ [o]) p =
    rolls os p + if o.Rolls (p.driven os) then 1 else 0 := by
  rw [rolls, trace_concat, List.countP_append, List.countP_singleton]
  simp only [decide_eq_true_eq]
  rfl

theorem random_apply (still : ¬ o.Rolls p) : (o.apply p).random = p.random := by
  cases o with
  | step =>
    obtain ⟨ins, executes⟩ | idles := p.executes_or_idles
    · refine executes.spares.random ?_
      rintro x kk rfl
      exact still ⟨x, kk, executes⟩
    · exact idles.random
  | load rom =>
    simp only [Operation.apply, load]
    cases p.memory.load rom <;> rfl
  | _ => rfl

theorem state_of_executes_random {x : Fin 16} {kk : UInt8} (h : p.Executes (.random x kk)) :
    p.step.state.get x = kk &&& p.random.nextByte.1 ∧
      p.step.state.random = p.random.nextByte.2 := by
  rw [UInt8.and_comm kk, ← Except.ok.inj h.execute_eq]
  exact ⟨(p.advance.get_set x x _).trans (if_pos rfl), rfl⟩

theorem at_driven (start : Generator.At key 0 p.random) (os : List Operation) :
    Generator.At key (rolls os p) (p.driven os).random := by
  induction os using List.reverseRecOn with
  | nil => exact start
  | append_singleton os o ih =>
    rw [driven_concat, rolls_concat]
    split
    case isTrue rolls =>
      cases o with
      | step =>
        obtain ⟨x, kk, executes⟩ := rolls
        rw [Operation.apply, (state_of_executes_random executes).2]
        exact ih.nextByte.2
      | _ => exact rolls.elim
    case isFalse still =>
      rw [random_apply still]
      exact ih

theorem streamed_of_at_zero (start : Generator.At key 0 p.random) (os : List Operation) :
    p.Streamed key os := by
  have position := at_driven start os
  refine ⟨position, fun x kk executes ↦ ?_, fun o ↦ random_apply⟩
  rw [(state_of_executes_random executes).1, position.nextByte.1]

theorem random_new {settings : Settings} {seed : UInt64} (seeded : settings.seed = some seed)
    (entropy : ChaCha.Key) : (new settings entropy).random = .ofKey (Seed.key seed) := by
  simp only [new, seeded]
  rfl

def gamble : Operation :=
  .load #[0xC3, 0xF0]

theorem executes_gamble (mode : p.mode = .running) (start : p.pc = Memory.programStart) :
    (gamble.apply p).Executes (.random 3 0xF0) := by
  have small : (#[0xC3, 0xF0] : Array UInt8).size ≤ Rom.capacity := by decide
  obtain ⟨q, loaded⟩ := p.exists_load_eq small
  have applied : gamble.apply p = q := by simp only [gamble, Operation.apply, loaded]
  have fetched := word_of_load loaded start
  obtain ⟨memory, -, rfl⟩ := load_eq_ok_iff.mp loaded
  have here : ({ p with memory } : Processor).pc.toNat < 4096 := by
    rw [start]
    decide
  rw [snapshot_word here] at fetched
  have decoded : Instruction.decode? ({ p with memory } : Processor).word =
      some (.random 3 0xF0) :=
    Instruction.decode?_eq_some_iff.mpr (fetched.trans (by decide))
  rw [applied]
  exact executes_random mode decoded

end Chip8.Processor

namespace Chip8.Machine

open Processor (gamble executes_gamble)

/-- Random instruction number `j`, counted from zero since the machine was built, masks byte `j` of
the stream of its seed, and nothing else uses up a byte. -/
theorem streamed_driven {settings : Settings} {seed : UInt64} (seeded : settings.seed = some seed)
    (entropy : ChaCha.Key) :
    (∀ os, (Processor.new settings entropy).Streamed (Seed.key seed) os) ∧
      ∀ m, Machine.new settings entropy = .ok m → ∀ os,
        (m.driven os).processor = m.processor.driven (parts os m) ∧
          ∀ done, done <+: parts os m → m.processor.Streamed (Seed.key seed) done := by
  have start : Generator.At (Seed.key seed) 0 (Processor.new settings entropy).random := by
    rw [Processor.random_new seeded]
    exact Generator.at_zero _
  refine ⟨Processor.streamed_of_at_zero start, fun m built os ↦ ⟨m.processor_driven os, ?_⟩⟩
  intro done _
  refine Processor.streamed_of_at_zero ?_ done
  rw [eq_of_new built]
  exact start

/-- Settings by which the first random bytes are `0x68` and `0xA4`. -/
def seeded : Settings :=
  { seed := some 200 }

theorem streamed_driven_seeded :
    ((Processor.new seeded (Seed.key 0)).driven [gamble]).step.state.get 3 = 0x60 ∧
      ((Processor.new seeded (Seed.key 0)).driven
        [gamble, .step, .reset, gamble]).step.state.get 3 = 0xA0 ∧
      ∀ m, Machine.new seeded (Seed.key 0) = .ok m →
        ∀ done, done <+: parts [.load #[0xC3, 0xF0], .advance .second, .reset, .step] m →
          m.processor.Streamed (Seed.key 200) done := by
  obtain ⟨streamed, inside⟩ := streamed_driven (rfl : seeded.seed = some 200) (Seed.key 0)
  have first := executes_gamble (p := .new seeded (Seed.key 0)) rfl rfl
  have later (p : Processor) :
      (p.driven [gamble, .step, .reset, gamble]).Executes (.random 3 0xF0) :=
    executes_gamble rfl rfl
  have loads (p : Processor) : ¬ gamble.Rolls p := not_false
  have resets (p : Processor) : ¬ Processor.Operation.reset.Rolls p := not_false
  refine ⟨?_, ?_, fun m built ↦ (inside m built _).2⟩
  · have none : Processor.rolls [gamble] (.new seeded (Seed.key 0)) = 0 := by
      rw [Processor.rolls_cons, if_neg (loads _)]
      rfl
    rw [(streamed [gamble]).stored 3 0xF0 first, none]
    decide +kernel
  · have once : Processor.rolls [gamble, .step, .reset, gamble] (.new seeded (Seed.key 0)) = 1 := by
      have rolls : Processor.Operation.step.Rolls (gamble.apply (.new seeded (Seed.key 0))) :=
        ⟨3, 0xF0, first⟩
      simp only [Processor.rolls_cons, if_neg (loads _), if_neg (resets _), if_pos rolls]
      rfl
    rw [(streamed [gamble, .step, .reset, gamble]).stored 3 0xF0 (later _), once]
    decide +kernel

end Chip8.Machine
