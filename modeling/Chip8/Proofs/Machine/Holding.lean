import Chip8.Proofs.Keypad.Layout
import Chip8.Proofs.Machine.Pressing
import Chip8.Proofs.Machine.Waiting

namespace Chip8

namespace Processor

open Keyboard (Holds)

/-- The processor finds those keys held that the keyboard's keys with these codes stand for, and no
others. -/
structure Heeds (codes : List Int) (p : Processor) : Prop where
  picks : ∀ x, p.mode = .awaitingKey x → (∃ key, Holds codes key) →
    ∃ key : Fin 16, Holds codes key ∧ (∀ other, Holds codes other → key ≤ other) ∧
      p.step = ⟨{ p.set x (.ofNat key) with
        keypad := p.keypad.release (.ofNat key), mode := .running }, .ok (), [.keyStored key x]⟩
  waits : ∀ x, p.mode = .awaitingKey x → (¬ ∃ key, Holds codes key) → p.step = ⟨p, .ok (), []⟩
  skipHeld : ∀ x : Fin 16, p.mode = .running → p.word.toNat = 0xE09E + 0x100 * x →
    (Holds codes (p.get x).toNat → p.step.state = p.advance.advance) ∧
      (¬ Holds codes (p.get x).toNat → p.step.state = p.advance)
  skipReleased : ∀ x : Fin 16, p.mode = .running → p.word.toNat = 0xE0A1 + 0x100 * x →
    (Holds codes (p.get x).toNat → p.step.state = p.advance) ∧
      (¬ Holds codes (p.get x).toNat → p.step.state = p.advance.advance)

variable {p : Processor} {codes : List Int} {x key : Fin 16}

theorem firstHeld_keypad_eq_some_iff :
    (Keyboard.keypad codes).firstHeld = some key ↔
      Holds codes key ∧ ∀ other, Holds codes other → key ≤ other := by
  rw [Keypad.firstHeld_eq_some_iff]
  simp only [← Bool.not_eq_true, Keyboard.getLsbD_keypad]
  refine and_congr_right fun _ ↦ ⟨fun released other held ↦ ?_, fun least lower below held ↦ ?_⟩
  · exact Nat.le_of_not_lt fun below ↦ released other below held
  · exact Nat.not_le.mpr below (least lower held)

theorem firstHeld_keypad_eq_none_iff :
    (Keyboard.keypad codes).firstHeld = none ↔ ¬ ∃ key, Holds codes key := by
  rw [firstHeld_eq_none_iff_isHeld]
  constructor
  · intro released held
    obtain ⟨_, code, mem, key, stands, rfl⟩ := held
    have held : (Keyboard.keypad codes).isHeld (.ofNat key) = true := by
      rw [Keyboard.isHeld_keypad, Keypad.toNat_ofNat_key]
      exact ⟨code, mem, key, stands, rfl⟩
    rw [released] at held
    cases held
  · intro none key
    exact Bool.eq_false_iff.mpr fun held ↦ none ⟨_, Keyboard.isHeld_keypad.mp held⟩

theorem state_step_of_perform {q : Processor} {events : List Event} (mode : p.mode = .running)
    (performed : p.advance.perform p.word p.pc = .ok (q, events)) : p.step.state = q := by
  rw [step_of_running mode, performed]

theorem isHeld_iff_holds (keypad : p.keypad = Keyboard.keypad codes) :
    p.keypad.isHeld (p.get x) = true ↔ Holds codes (p.get x).toNat := by
  rw [keypad, Keyboard.isHeld_keypad]

theorem heeds_of_keypad (keypad : p.keypad = Keyboard.keypad codes) : p.Heeds codes where
  picks x mode held := by
    rcases h : p.keypad.firstHeld with _ | key
    · rw [keypad, firstHeld_keypad_eq_none_iff] at h
      exact absurd held h
    · have least := h
      rw [keypad, firstHeld_keypad_eq_some_iff] at least
      exact ⟨key, least.1, least.2, step_of_held mode h⟩
  waits x mode none := by
    refine step_of_released mode (Keypad.firstHeld_eq_none_iff.mp ?_)
    rw [keypad]
    exact firstHeld_keypad_eq_none_iff.mpr none
  skipHeld x mode word := by
    have performed : p.advance.perform p.word p.pc =
        .ok (p.advance.skipIf (p.keypad.isHeld (p.get x)), []) := perform_skipHeld word
    rw [state_step_of_perform mode performed]
    refine ⟨fun held ↦ ?_, fun released ↦ ?_⟩
    · rw [(isHeld_iff_holds keypad).mpr held]
      rfl
    · rw [Bool.eq_false_iff.mpr (mt (isHeld_iff_holds keypad).mp released)]
      rfl
  skipReleased x mode word := by
    have performed : p.advance.perform p.word p.pc =
        .ok (p.advance.skipIf !p.keypad.isHeld (p.get x), []) := perform_skipReleased word
    rw [state_step_of_perform mode performed]
    refine ⟨fun held ↦ ?_, fun released ↦ ?_⟩
    · rw [(isHeld_iff_holds keypad).mpr held]
      rfl
    · rw [Bool.eq_false_iff.mpr (mt (isHeld_iff_holds keypad).mp released)]
      rfl

end Processor

namespace Machine

open Keyboard (Stands Holds keypad)

/-- Each key of the keypad is held exactly while the one key of the keyboard that stands for it is,
so that nothing matters about a list of codes but which of the sixteen are in it; and programs find
the same, whether a wait for a key is under way or begins later. -/
theorem keypad_heeded (codes : List Int) :
    (∀ key : Fin 16, ∃ code, Stands code key ∧ (∀ other, Stands other key → other = code) ∧
      (∀ other, Stands code other → other = key) ∧
      ((keypad codes).mask.getLsbD key = true ↔ code ∈ codes)) ∧
    (∀ codes', (∀ code key, Stands code key → (code ∈ codes' ↔ code ∈ codes)) →
      (keypad codes').mask = (keypad codes).mask) ∧
    (∀ codes', (keypad (codes ++ codes')).mask = (keypad codes).mask ||| (keypad codes').mask) ∧
    ∀ m : Machine, let p := (m.setKeys (keypad codes).mask).processor
      p.Heeds codes ∧
        ∀ x : Fin 16, p.mode = .running → p.word.toNat = 0xF00A + 0x100 * x →
          p.step.state.mode = .awaitingKey x ∧ p.step.state.Heeds codes := by
  refine ⟨fun key ↦ ?_, fun codes' same ↦ congrArg Keypad.mask (Keyboard.keypad_congr same),
    Keyboard.mask_keypad_append codes, ?_⟩
  · obtain ⟨code, stands⟩ := Keyboard.exists_stands key
    refine ⟨code, stands, fun _ ↦ stands.code_unique, fun _ ↦ stands.key_unique, ?_⟩
    rw [Keyboard.getLsbD_keypad, stands.holds_iff]
  · intro m p
    refine ⟨Processor.heeds_of_keypad rfl, fun x mode word ↦ ?_⟩
    have begun : p.step.state = p.waiting x :=
      congrArg Outcome.state (Processor.step_of_awaitKey mode word)
    rw [begun]
    exact ⟨rfl, Processor.heeds_of_keypad rfl⟩

def cluttered : List Int :=
  [118, 32, 119, 13]

theorem keypad_heeded_cluttered :
    let p := (attentive.setKeys (keypad cluttered).mask).processor
    (keypad [119, 118, 119]).mask = (keypad cluttered).mask ∧
      ∃ key : Fin 16, Holds cluttered key ∧ (∀ other, Holds cluttered other → key ≤ other) ∧
        p.step.state.step.log = [.keyStored key 5] := by
  intro p
  obtain ⟨-, congr, -, programs⟩ := keypad_heeded cluttered
  have mapped : ∀ e ∈ Keyboard.places,
      ((e.2.toNat : Int) ∈ [119, 118, 119] ↔ (e.2.toNat : Int) ∈ cluttered) := by decide
  refine ⟨congr [119, 118, 119] fun code key stands ↦ ?_, ?_⟩
  · obtain ⟨c, mem, rfl⟩ := stands
    exact mapped _ mem
  have built : Machine.new .standard (Seed.key 0) = .ok newborn := rfl
  have same (m : Machine) (mask : BitVec 16) :
      (m.setKeys mask).processor.word = m.processor.word := rfl
  have fetched : p.word.toNat = 0xF00A + 0x100 * (5 : Fin 16) := by
    rw [same]
    exact (Reachable.new built).word_load (by decide)
  obtain ⟨-, begins⟩ := programs attentive
  obtain ⟨mode, heeds⟩ := begins 5 rfl fetched
  have held : ∃ key, Holds cluttered key := by
    refine ⟨5, 119, by decide, 5, ⟨'w', by decide, rfl⟩, rfl⟩
  obtain ⟨key, here, least, step⟩ := heeds.picks 5 mode held
  exact ⟨key, here, least, congrArg Outcome.log step⟩

end Machine

end Chip8
