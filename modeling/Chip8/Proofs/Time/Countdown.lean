import Chip8.Proofs.Time.Checked

namespace Chip8.Timers

/-- The value that a timer was given last, and how much time had passed by then. -/
structure Setting where
  value : UInt8 := 0
  moment : Nat := 0

/-- The nanoseconds that have passed since the timers were new or were last reset, and what each of
them has been set to since then. -/
structure History where
  passed : Nat := 0
  delay : Setting := {}
  sound : Setting := {}

def Operation.note : Operation → History → History
  | .tick elapsed, h => { h with passed := h.passed + elapsed.nanoseconds }
  | .setDelay value, h => { h with delay := ⟨value, h.passed⟩ }
  | .setSound value, h => { h with sound := ⟨value, h.passed⟩ }
  | .reset, _ => {}

def history (os : List Operation) : History :=
  os.foldl (fun h o ↦ o.note h) {}

/-- How many periods end within the first `passed` nanoseconds. -/
def boundaries (frequency : UInt32) (passed : Nat) : Nat :=
  frequency.toNat * passed / 1000000000

def Setting.left (s : Setting) (frequency : UInt32) (passed : Nat) : Int :=
  max 0 (s.value.toNat - ((boundaries frequency passed : Int) - boundaries frequency s.moment))

structure Agrees (frequency : UInt32) (h : History) (t : Timers) : Prop where
  frequency_eq : t.clock.frequency = frequency
  phase_eq : t.clock.phase = frequency.toNat * h.passed % 1000000000
  delay_eq : (t.delay.toNat : Int) = h.delay.left frequency h.passed
  sound_eq : (t.sound.toNat : Int) = h.sound.left frequency h.passed
  delay_le : h.delay.moment ≤ h.passed
  sound_le : h.sound.moment ≤ h.passed

variable {frequency : UInt32} {h : History} {t : Timers} {s : Setting} {value : UInt8}
  {elapsed : Duration} {a b : Nat}

theorem boundaries_mono (hab : a ≤ b) : boundaries frequency a ≤ boundaries frequency b :=
  Nat.div_le_div_right (Nat.mul_le_mul_left _ hab)

theorem Setting.left_self (value : UInt8) (frequency : UInt32) (passed : Nat) :
    Setting.left ⟨value, passed⟩ frequency passed = value.toNat := by
  simp only [left]
  omega

theorem Setting.left_lower (now : (value.toNat : Int) = s.left frequency a)
    (past : s.moment ≤ a) (hab : a ≤ b) :
    ((lower value (boundaries frequency b - boundaries frequency a)).toNat : Int) =
      s.left frequency b := by
  have before : boundaries frequency s.moment ≤ boundaries frequency a := boundaries_mono past
  have after : boundaries frequency a ≤ boundaries frequency b := boundaries_mono hab
  rw [toNat_lower]
  simp only [left] at now ⊢
  omega

theorem Agrees.ticks_eq (agrees : Agrees frequency h t) (elapsed : Duration) :
    t.clock.ticks elapsed =
      boundaries frequency (h.passed + elapsed.nanoseconds) - boundaries frequency h.passed := by
  -- The phase is what has passed since the last boundary, so that none is counted twice.
  rw [Oscillator.ticks, Oscillator.reading, agrees.phase_eq, agrees.frequency_eq, boundaries,
    boundaries, Nat.mul_add, Nat.mul_comm elapsed.nanoseconds]
  omega

theorem agrees_new (frequency : UInt32) : Agrees frequency {} (new frequency) where
  frequency_eq := rfl
  phase_eq := rfl
  delay_eq := (Setting.left_self 0 frequency 0).symm
  sound_eq := (Setting.left_self 0 frequency 0).symm
  delay_le := Nat.le_refl 0
  sound_le := Nat.le_refl 0

theorem Agrees.tick (agrees : Agrees frequency h t) (elapsed : Duration) :
    Agrees frequency { h with passed := h.passed + elapsed.nanoseconds } (t.tick elapsed) where
  frequency_eq := agrees.frequency_eq
  phase_eq := by
    simp only [Timers.tick, Oscillator.advance, Oscillator.reading, agrees.phase_eq,
      agrees.frequency_eq, Nat.mod_add_mod, Nat.mul_add, Nat.mul_comm elapsed.nanoseconds]
  delay_eq := by
    rw [Timers.tick, agrees.ticks_eq]
    exact Setting.left_lower agrees.delay_eq agrees.delay_le (Nat.le_add_right _ _)
  sound_eq := by
    rw [Timers.tick, agrees.ticks_eq]
    exact Setting.left_lower agrees.sound_eq agrees.sound_le (Nat.le_add_right _ _)
  delay_le := Nat.le_trans agrees.delay_le (Nat.le_add_right _ _)
  sound_le := Nat.le_trans agrees.sound_le (Nat.le_add_right _ _)

theorem Agrees.apply (agrees : Agrees frequency h t) (o : Operation) :
    Agrees frequency (o.note h) (o.apply t) := by
  cases o with
  | tick elapsed => exact agrees.tick elapsed
  | setDelay value =>
    exact { agrees with
      delay_eq := (Setting.left_self value frequency h.passed).symm
      delay_le := Nat.le_refl _ }
  | setSound value =>
    exact { agrees with
      sound_eq := (Setting.left_self value frequency h.passed).symm
      sound_le := Nat.le_refl _ }
  | reset =>
    have fresh : t.reset = new frequency := by rw [← agrees.frequency_eq]; rfl
    rw [Operation.apply, fresh]
    exact agrees_new frequency

theorem Agrees.driven (agrees : Agrees frequency h t) (os : List Operation) :
    Agrees frequency (os.foldl (fun h o ↦ o.note h) h) (t.driven os) := by
  induction os generalizing h t with
  | nil => exact agrees
  | cons o os ih => exact ih (agrees.apply o)

theorem lower_zero (value : UInt8) : lower value 0 = value := by
  rw [← UInt8.toNat_inj, toNat_lower, Nat.sub_zero]

theorem lower_lower (value : UInt8) (a b : Nat) :
    lower (lower value a) b = lower value (a + b) := by
  rw [← UInt8.toNat_inj, toNat_lower, toNat_lower, toNat_lower, Nat.sub_sub]

theorem driven_ticks (phase_lt : t.clock.phase < 1000000000) (ds : List Duration) :
    t.driven (ds.map .tick) =
      { delay := lower t.delay (t.clock.count (Duration.total ds))
        sound := lower t.sound (t.clock.count (Duration.total ds))
        clock := t.clock.later (Duration.total ds) } := by
  induction ds generalizing t with
  | nil =>
    rw [Duration.total, Oscillator.count_zero _ phase_lt, Oscillator.later_zero _ phase_lt,
      lower_zero, lower_zero]
    rfl
  | cons d ds ih =>
    have rest := ih (t := t.tick d) (Oscillator.phase_advance_lt _ _)
    rw [Duration.total, Oscillator.count_add, Oscillator.later_add, ← lower_lower, ← lower_lower]
    exact rest

theorem driven_append (t : Timers) (os os' : List Operation) :
    t.driven (os ++ os') = (t.driven os).driven os' :=
  List.foldl_append

/-- Each timer shows what it was set to less one for every period that has ended since, and each
tick counts the periods that end within it. How the time between two settings is cut into ticks
does not matter. -/
theorem countdown_driven (frequency : UInt32) (os : List Operation) :
    let t := (new frequency).driven os
    let h := history os
    (t.delay.toNat : Int) = h.delay.left frequency h.passed ∧
      (t.sound.toNat : Int) = h.sound.left frequency h.passed ∧
      (∀ elapsed : Duration, t.periods elapsed =
        min (boundaries frequency (h.passed + elapsed.nanoseconds) -
          boundaries frequency h.passed) 4294967295) ∧
      ∀ (ds es : List Duration) (later : List Operation), Duration.total ds = Duration.total es →
        (new frequency).driven (os ++ ds.map .tick ++ later) =
          (new frequency).driven (os ++ es.map .tick ++ later) := by
  intro t h
  have agrees : Agrees frequency h t := (agrees_new frequency).driven os
  refine ⟨agrees.delay_eq, agrees.sound_eq, fun elapsed ↦ ?_, fun ds es later total ↦ ?_⟩
  · rw [periods, agrees.ticks_eq]
    rfl
  · have start : (new frequency).clock.phase < 1000000000 := (by decide : 0 < 1000000000)
    have phase := phase_driven_lt start os
    simp only [driven_append, driven_ticks phase, total]

theorem countdown_driven_slices :
    Duration.total [.ofParts 0 10000000, .ofParts 0 10000000] =
        Duration.total [.ofParts 0 20000000] ∧
      (new 60).driven ([.reset, .setDelay 10] ++
          [.ofParts 0 10000000, .ofParts 0 10000000].map .tick ++ [.setSound 4]) =
        (new 60).driven ([.reset, .setDelay 10] ++
          [.ofParts 0 20000000].map .tick ++ [.setSound 4]) ∧
      ((new 60).driven [.reset, .setDelay 10, .tick (.ofParts 0 20000000)]).delay.toNat = 9 ∧
      ((new 60).driven [.reset, .setDelay 10, .tick (.ofParts 0 20000000)]).periods
        (.ofParts 100000000 0) = 4294967295 := by
  have total : Duration.total [.ofParts 0 10000000, .ofParts 0 10000000] =
      Duration.total [.ofParts 0 20000000] := rfl
  obtain ⟨-, -, -, slices⟩ := countdown_driven 60 [.reset, .setDelay 10]
  obtain ⟨delay, -, periods, -⟩ :=
    countdown_driven 60 [.reset, .setDelay 10, .tick (.ofParts 0 20000000)]
  have nine : Setting.left ⟨10, 0⟩ 60 20000000 = 9 := by decide
  refine ⟨total, slices _ _ _ total, ?_, ?_⟩
  · exact Int.ofNat_inj.mp (delay.trans nine)
  · rw [periods]
    rfl

end Chip8.Timers
