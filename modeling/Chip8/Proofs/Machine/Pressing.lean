import Chip8.Proofs.Machine.Nesting
import Chip8.Proofs.Machine.Restart

namespace Chip8.Processor

def Stores (p : Processor) (key : UInt8) : Prop :=
  ∃ x, p.mode = .awaitingKey x ∧ p.step.state.mode = .running ∧ p.step.state.get x = key

def Operation.Concerns (p : Processor) (key : UInt8) : Operation → Prop
  | .press other | .release other => other = key
  | .setKeys _ | .releaseKeys | .reset => True
  | .step => p.Stores key
  | .load _ | .tick _ | .setDelay _ | .setSound _ | .resetTimers | .draw .. | .clear
  | .takeFrame => False

def Operation.Presses (key : UInt8) : Operation → Prop
  | .press other => other = key
  | .setKeys mask => mask.getLsbD key.toNat = true
  | _ => False

/-- The last thing that happened to the key is that it was pressed. -/
def PressedLast (key : UInt8) (os : List Operation) (p : Processor) : Prop :=
  ∃ before q o after, trace os p = before ++ (q, o) :: after ∧ o.Presses key ∧
    ∀ e ∈ after, ¬ e.2.Concerns e.1 key

/-- What the keypad tells after `os` has been done to `p`, and what programs learn from it. -/
structure Reports (p : Processor) (os : List Operation) : Prop where
  held_iff : ∀ key, (p.driven os).keypad.isHeld key = true ↔
    key.toNat < 16 ∧ PressedLast key os p
  missing : ∀ key : UInt8, 16 ≤ key.toNat →
    (p.driven os).keypad.isHeld key = false ∧
      (Operation.press key).apply (p.driven os) = p.driven os ∧
      (Operation.release key).apply (p.driven os) = p.driven os
  none_iff : (p.driven os).keypad.firstHeld = none ↔
    ∀ key, (p.driven os).keypad.isHeld key = false
  some_iff : ∀ key : Fin 16, (p.driven os).keypad.firstHeld = some key ↔
    (p.driven os).keypad.isHeld (.ofNat key) = true ∧
      ∀ other, (p.driven os).keypad.isHeld other = true → key.val ≤ other.toNat
  skips : ∀ (x : Fin 16) (w w' address : UInt16), w.toNat = 0xE09E + 0x100 * x →
    w'.toNat = 0xE0A1 + 0x100 * x →
    let q := p.driven os
    q.advance.pc ≠ q.pc ∧
      (q.keypad.isHeld (q.get x) = true →
        q.perform w address = .ok (q.advance, []) ∧ q.perform w' address = .ok (q, [])) ∧
      (q.keypad.isHeld (q.get x) = false →
        q.perform w address = .ok (q, []) ∧ q.perform w' address = .ok (q.advance, []))

variable {p q : Processor} {o : Operation} {os : List Operation} {key : UInt8}

theorem keypad_step (p : Processor) :
    (∃ stored : UInt8, p.step.state.keypad = p.keypad.release stored ∧
        ∀ key, p.Stores key ↔ stored = key) ∨
      p.step.state.keypad = p.keypad ∧ ∀ key, ¬ p.Stores key := by
  have ht := p.transition
  simp only [Stores]
  generalize p.step = o at ht ⊢
  cases ht with
  | halted mode | unknown mode | refused mode =>
    exact .inr ⟨rfl, fun key ⟨x, waiting, _⟩ ↦ by simp [mode] at waiting⟩
  | polled mode =>
    exact .inr ⟨rfl, fun key ⟨x, _, running, _⟩ ↦ by simp [mode] at running⟩
  | executed mode _ executed =>
    have same := (keypad_mode_execute executed).1
    exact .inr ⟨same, fun key ⟨x, waiting, _⟩ ↦ by simp [mode] at waiting⟩
  | @answered x stored mode held =>
    refine .inl ⟨.ofNat stored, rfl, fun key ↦ ⟨?_, ?_⟩⟩
    · rintro ⟨y, waiting, -, rfl⟩
      rw [mode] at waiting
      cases waiting
      simp [get, set]
    · rintro rfl
      exact ⟨x, mode, rfl, by simp [get, set]⟩

theorem isHeld_apply_of_not_concerns (spared : ¬ o.Concerns p key) :
    (o.apply p).keypad.isHeld key = p.keypad.isHeld key := by
  cases o with
  | step =>
    rw [Operation.apply]
    obtain ⟨stored, released, stores⟩ | ⟨same, -⟩ := p.keypad_step
    · have other : stored ≠ key := fun h ↦ spared ((stores key).mpr h)
      rw [released, Keypad.isHeld_release, bne_iff_ne.mpr other, Bool.and_true]
    · rw [same]
  | press other =>
    have other : other ≠ key := spared
    simp [Operation.apply, Keypad.isHeld_press, other]
  | release other =>
    have other : other ≠ key := spared
    simp [Operation.apply, Keypad.isHeld_release, other]
  | load rom =>
    simp only [Operation.apply, load]
    cases p.memory.load rom <;> rfl
  | setKeys | releaseKeys | reset => exact absurd trivial spared
  | _ => rfl

theorem isHeld_released (key : UInt8) : Keypad.released.isHeld key = false := by
  simp [Keypad.isHeld, Keypad.released]

theorem toNat_lt_of_isHeld {k : Keypad} (held : k.isHeld key = true) : key.toNat < 16 :=
  BitVec.lt_of_getLsbD held

theorem isHeld_apply_of_concerns (concerns : o.Concerns p key) :
    (o.apply p).keypad.isHeld key = true ↔ key.toNat < 16 ∧ o.Presses key := by
  cases o with
  | step =>
    rw [Operation.apply]
    obtain ⟨stored, released, stores⟩ | ⟨-, none⟩ := p.keypad_step
    · obtain rfl := (stores key).mp concerns
      simp [released, Keypad.isHeld_release, Operation.Presses]
    · exact absurd concerns (none key)
  | press other =>
    obtain rfl : other = key := concerns
    simpa [Operation.apply, Keypad.isHeld_press, Operation.Presses] using toNat_lt_of_isHeld
  | release other =>
    obtain rfl : other = key := concerns
    simp [Operation.apply, Keypad.isHeld_release, Operation.Presses]
  | setKeys mask =>
    exact ⟨fun held ↦ ⟨toNat_lt_of_isHeld held, held⟩, And.right⟩
  | releaseKeys | reset =>
    simp [Operation.apply, reset, isHeld_released, Operation.Presses]
  | _ => exact absurd concerns not_false

theorem concerns_of_presses (presses : o.Presses key) : o.Concerns p key := by
  cases o with
  | press other => exact presses
  | setKeys mask => trivial
  | _ => exact absurd presses not_false

theorem pressedLast_concat_of_concerns (concerns : o.Concerns (p.driven os) key) :
    PressedLast key (os ++ [o]) p ↔ o.Presses key := by
  rw [PressedLast, trace_concat]
  constructor
  · rintro ⟨before, q, o', after, same, presses, later⟩
    obtain rfl | ⟨after, e, rfl⟩ := List.eq_nil_or_concat after
    · obtain ⟨-, same⟩ := List.append_singleton_inj.mp same
      cases same
      exact presses
    · rw [List.concat_eq_append] at same later
      rw [← List.cons_append, ← List.append_assoc] at same
      obtain ⟨-, rfl⟩ := List.append_singleton_inj.mp same
      exact absurd concerns (later (p.driven os, o) (by simp))
  · intro presses
    exact ⟨trace os p, p.driven os, o, [], rfl, presses, by simp⟩

theorem pressedLast_concat_of_not_concerns (spared : ¬ o.Concerns (p.driven os) key) :
    PressedLast key (os ++ [o]) p ↔ PressedLast key os p := by
  rw [PressedLast, trace_concat]
  constructor
  · rintro ⟨before, q, o', after, same, presses, later⟩
    obtain rfl | ⟨after, e, rfl⟩ := List.eq_nil_or_concat after
    · obtain ⟨-, same⟩ := List.append_singleton_inj.mp same
      cases same
      exact absurd (concerns_of_presses presses) spared
    · rw [List.concat_eq_append] at same later
      rw [← List.cons_append, ← List.append_assoc] at same
      obtain ⟨same, -⟩ := List.append_singleton_inj.mp same
      exact ⟨before, q, o', after, same, presses, fun e h ↦ later e (by simp [h])⟩
  · rintro ⟨before, q, o', after, same, presses, later⟩
    refine ⟨before, q, o', after ++ [(p.driven os, o)], by simp [same], presses, ?_⟩
    rw [List.forall_mem_append, List.forall_mem_singleton]
    exact ⟨later, spared⟩

theorem isHeld_driven_iff (start : p.keypad = .released) (os : List Operation) (key : UInt8) :
    (p.driven os).keypad.isHeld key = true ↔ key.toNat < 16 ∧ PressedLast key os p := by
  induction os using List.reverseRecOn with
  | nil =>
    have released : (p.driven []).keypad.isHeld key = false := by
      rw [driven, List.foldl_nil, start, isHeld_released]
    simp [released, PressedLast, trace]
  | append_singleton os o ih =>
    rw [driven_concat]
    by_cases concerns : o.Concerns (p.driven os) key
    · rw [isHeld_apply_of_concerns concerns, pressedLast_concat_of_concerns concerns]
    · rw [isHeld_apply_of_not_concerns concerns, pressedLast_concat_of_not_concerns concerns, ih]

theorem firstHeld_eq_none_iff_isHeld {k : Keypad} :
    k.firstHeld = none ↔ ∀ key, k.isHeld key = false := by
  rw [Keypad.firstHeld_eq_none_iff]
  constructor
  · intro released key
    simp [Keypad.isHeld, released]
  · intro released
    have same : k = .released := Keypad.eq_of_isHeld_eq fun key ↦ by
      rw [released, isHeld_released]
    rw [same]
    rfl

theorem firstHeld_eq_some_iff_isHeld {k : Keypad} {key : Fin 16} :
    k.firstHeld = some key ↔
      k.isHeld (.ofNat key) = true ∧ ∀ other, k.isHeld other = true → key.val ≤ other.toNat := by
  rw [Keypad.firstHeld_eq_some_iff, Keypad.isHeld, Keypad.toNat_ofNat_key]
  refine and_congr_right fun _ ↦ ⟨fun lowest other held ↦ ?_, fun lowest lower below ↦ ?_⟩
  · by_contra below
    have released := lowest other.toNat (Nat.not_le.mp below)
    rw [Keypad.isHeld, released] at held
    cases held
  · by_contra held
    have small : lower < 16 := Nat.lt_trans below key.isLt
    have least := lowest (.ofNat lower) ?_
    · rw [Keypad.toNat_ofNat_key ⟨lower, small⟩] at least
      exact absurd below (Nat.not_lt.mpr least)
    · rw [Keypad.isHeld, Keypad.toNat_ofNat_key ⟨lower, small⟩]
      exact Bool.not_eq_false _ ▸ held

theorem press_eq_self {k : Keypad} (large : 16 ≤ key.toNat) : k.press key = k := by
  refine Keypad.eq_of_isHeld_eq fun other ↦ ?_
  rw [Keypad.isHeld_press]
  by_cases same : key = other
  · subst same
    simp [Nat.not_lt.mpr large]
  · simp [same]

theorem isHeld_eq_false {k : Keypad} (large : 16 ≤ key.toNat) : k.isHeld key = false :=
  Bool.eq_false_iff.mpr fun held ↦ Nat.not_lt.mpr large (toNat_lt_of_isHeld held)

theorem pc_advance_ne (p : Processor) : p.advance.pc ≠ p.pc := by
  rw [ne_eq, ← UInt16.toNat_inj, toNat_pc_advance]
  omega

theorem perform_skipHeld {x : Fin 16} {w address : UInt16} (word : w.toNat = 0xE09E + 0x100 * x) :
    p.perform w address = .ok (p.skipIf (p.keypad.isHeld (p.get x)), []) := by
  have form : (Instruction.skipHeld x).Form w.toNat := by
    simp only [Instruction.Form]
    omega
  exact perform_of_form form rfl

theorem perform_skipReleased {x : Fin 16} {w address : UInt16}
    (word : w.toNat = 0xE0A1 + 0x100 * x) :
    p.perform w address = .ok (p.skipIf !p.keypad.isHeld (p.get x), []) := by
  have form : (Instruction.skipReleased x).Form w.toNat := by
    simp only [Instruction.Form]
    omega
  exact perform_of_form form rfl

theorem reports_of_released (start : p.keypad = .released) (os : List Operation) :
    p.Reports os where
  held_iff := isHeld_driven_iff start os
  missing key large := by
    refine ⟨isHeld_eq_false large, ?_, ?_⟩
    · rw [Operation.apply, press_eq_self large]
    · rw [Operation.apply, Keypad.release_eq_self (isHeld_eq_false large)]
  none_iff := firstHeld_eq_none_iff_isHeld
  some_iff _ := firstHeld_eq_some_iff_isHeld
  skips x w w' address word word' := by
    intro q
    rw [perform_skipHeld word, perform_skipReleased word']
    refine ⟨q.pc_advance_ne, fun held ↦ ?_, fun released ↦ ?_⟩
    · rw [held]
      exact ⟨rfl, rfl⟩
    · rw [released]
      exact ⟨rfl, rfl⟩

end Chip8.Processor

namespace Chip8.Machine

/-- For each key the keypad tells what happened to it last, whether a host uses a processor alone or
the machine that it belongs to. -/
theorem reports_driven (settings : Settings) (entropy : ChaCha.Key) :
    (∀ os, (Processor.new settings entropy).Reports os) ∧
      ∀ m, Machine.new settings entropy = .ok m → ∀ os,
        (m.driven os).processor = m.processor.driven (parts os m) ∧
          ∀ done, done <+: parts os m → m.processor.Reports done := by
  refine ⟨Processor.reports_of_released rfl, fun m built os ↦ ⟨m.processor_driven os, ?_⟩⟩
  intro done _
  have released : m.processor.keypad = .released := by rw [eq_of_new built]; rfl
  exact Processor.reports_of_released released done

def fumbled : List Processor.Operation :=
  [.press 3, .setKeys 0x220, .release 5, .release 0x29]

theorem reports_driven_fumbled :
    let p := (Processor.new .standard (Seed.key 0)).driven fumbled
    p.keypad.isHeld 9 = true ∧ p.keypad.isHeld 0x29 = false ∧
      p.perform 0xE39E 0x200 = .ok (p, []) ∧ p.perform 0xE3A1 0x200 = .ok (p.advance, []) ∧
      newborn.processor.Reports
        (parts [.load #[0xF5, 0x0A], .step, .setKeys 0x220, .advance .second] newborn) := by
  intro p
  have built : Machine.new .standard (Seed.key 0) = .ok newborn := rfl
  obtain ⟨alone, inside⟩ := reports_driven .standard (Seed.key 0)
  have reports := alone fumbled
  obtain ⟨-, -, released⟩ := reports.skips 3 0xE39E 0xE3A1 0x200 rfl rfl
  obtain ⟨stays, skips⟩ := released rfl
  refine ⟨(reports.held_iff 9).mpr ⟨by decide, ?_⟩, (reports.missing 0x29 (by decide)).1, stays,
    skips, (inside newborn built _).2 _ (List.prefix_refl _)⟩
  refine ⟨[(_, .press 3)], _, .setKeys 0x220, [(_, .release 5), (_, .release 0x29)], rfl, rfl, ?_⟩
  simp [Processor.Operation.Concerns]

end Chip8.Machine
