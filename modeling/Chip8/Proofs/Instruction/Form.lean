import Chip8.Instruction.Decode

namespace Chip8.Instruction

/-- The words, as numbers, that stand for an instruction. Shifts have an operand `y` that is
not used. -/
def Form : Instruction → Nat → Prop
  | .clear, w => w = 0x00E0
  | .ret, w => w = 0x00EE
  | .jump nnn, w => w = 0x1000 + nnn
  | .call nnn, w => w = 0x2000 + nnn
  | .skipEqByte x kk, w => w = 0x3000 + 0x100 * x + kk.toNat
  | .skipNeByte x kk, w => w = 0x4000 + 0x100 * x + kk.toNat
  | .skipEq x y, w => w = 0x5000 + 0x100 * x + 0x10 * y + 0x0
  | .setByte x kk, w => w = 0x6000 + 0x100 * x + kk.toNat
  | .addByte x kk, w => w = 0x7000 + 0x100 * x + kk.toNat
  | .copy x y, w => w = 0x8000 + 0x100 * x + 0x10 * y + 0x0
  | .or x y, w => w = 0x8000 + 0x100 * x + 0x10 * y + 0x1
  | .and x y, w => w = 0x8000 + 0x100 * x + 0x10 * y + 0x2
  | .xor x y, w => w = 0x8000 + 0x100 * x + 0x10 * y + 0x3
  | .add x y, w => w = 0x8000 + 0x100 * x + 0x10 * y + 0x4
  | .sub x y, w => w = 0x8000 + 0x100 * x + 0x10 * y + 0x5
  | .shiftRight x, w => ∃ y : Fin 16, w = 0x8000 + 0x100 * x + 0x10 * y + 0x6
  | .subFrom x y, w => w = 0x8000 + 0x100 * x + 0x10 * y + 0x7
  | .shiftLeft x, w => ∃ y : Fin 16, w = 0x8000 + 0x100 * x + 0x10 * y + 0xE
  | .skipNe x y, w => w = 0x9000 + 0x100 * x + 0x10 * y + 0x0
  | .setIndex nnn, w => w = 0xA000 + nnn
  | .jumpFrom nnn, w => w = 0xB000 + nnn
  | .random x kk, w => w = 0xC000 + 0x100 * x + kk.toNat
  | .draw x y n, w => w = 0xD000 + 0x100 * x + 0x10 * y + n
  | .skipHeld x, w => w = 0xE000 + 0x100 * x + 0x9E
  | .skipReleased x, w => w = 0xE000 + 0x100 * x + 0xA1
  | .getDelay x, w => w = 0xF000 + 0x100 * x + 0x07
  | .awaitKey x, w => w = 0xF000 + 0x100 * x + 0x0A
  | .setDelay x, w => w = 0xF000 + 0x100 * x + 0x15
  | .setSound x, w => w = 0xF000 + 0x100 * x + 0x18
  | .addIndex x, w => w = 0xF000 + 0x100 * x + 0x1E
  | .glyph x, w => w = 0xF000 + 0x100 * x + 0x29
  | .decimal x, w => w = 0xF000 + 0x100 * x + 0x33
  | .save x, w => w = 0xF000 + 0x100 * x + 0x55
  | .restore x, w => w = 0xF000 + 0x100 * x + 0x65

variable {w : UInt16} {ins : Instruction}

theorem form_of_arithmetic? {x y : Fin 16} {n : Nat} (h : arithmetic? x y n = some ins) :
    ins.Form (0x8000 + 0x100 * x + 0x10 * y + n) := by
  unfold arithmetic? at h
  split at h <;> cases h
  case h_7 | h_9 => exact ⟨y, rfl⟩
  all_goals rfl

theorem form_of_keypad? {x : Fin 16} {kk : Nat} (h : keypad? x kk = some ins) :
    ins.Form (0xE000 + 0x100 * x + kk) := by
  unfold keypad? at h
  split at h <;> cases h <;> rfl

theorem form_of_transfer? {x : Fin 16} {kk : Nat} (h : transfer? x kk = some ins) :
    ins.Form (0xF000 + 0x100 * x + kk) := by
  unfold transfer? at h
  split at h <;> cases h <;> rfl

theorem form_of_decode? (h : decode? w = some ins) : ins.Form w.toNat := by
  have digits := Word.toNat_eq_digits w
  have byte := Word.toNat_eq_lowByte w
  have address := Word.toNat_eq_address w
  simp only [decode?] at h
  split at h
  case h_1 =>
    split at h
    case isTrue hw => cases h; subst hw; rfl
    case isFalse =>
      rw [Option.ite_none_right_eq_some] at h
      obtain ⟨rfl, h⟩ := h
      cases h
      rfl
  case h_6 | h_10 =>
    rw [Option.ite_none_right_eq_some] at h
    obtain ⟨hn, h⟩ := h
    cases h
    simp only [Form]
    omega
  case h_9 heq =>
    rw [digits, heq]
    exact form_of_arithmetic? h
  case h_15 heq =>
    rw [byte, heq]
    exact form_of_keypad? h
  case h_16 heq =>
    rw [byte, heq]
    exact form_of_transfer? h
  case h_17 => cases h
  all_goals
    cases h
    simp only [Form]
    omega

theorem decode?_arithmetic {x y n : Fin 16}
    (h : w.toNat = 0x8000 + 0x100 * x + 0x10 * y + n) : decode? w = arithmetic? x y n := by
  obtain ⟨ho, hx, hy, hn⟩ := Word.digits_of_toNat 0x8 x y n h
  simp only [decode?, ho, hx, hy, hn]
  rfl

theorem decode?_keypad {x : Fin 16} {k : UInt8} (h : w.toNat = 0xE000 + 0x100 * x + k.toNat) :
    decode? w = keypad? x k.toNat := by
  obtain ⟨ho, hx, hk⟩ := Word.lowByte_of_toNat 0xE x k h
  simp only [decode?, ho, hx, hk]
  rfl

theorem decode?_transfer {x : Fin 16} {k : UInt8} (h : w.toNat = 0xF000 + 0x100 * x + k.toNat) :
    decode? w = transfer? x k.toNat := by
  obtain ⟨ho, hx, hk⟩ := Word.lowByte_of_toNat 0xF x k h
  simp only [decode?, ho, hx, hk]
  rfl

theorem decode?_of_form (h : ins.Form w.toNat) : decode? w = some ins := by
  cases ins with
  | clear =>
    obtain rfl : w = 0x00E0 := UInt16.toNat_inj.mp h
    rfl
  | ret =>
    obtain rfl : w = 0x00EE := UInt16.toNat_inj.mp h
    rfl
  | jump nnn =>
    obtain ⟨ho, ha⟩ := Word.address_of_toNat 0x1 nnn h
    simp only [decode?, ho, ha]
    rfl
  | call nnn =>
    obtain ⟨ho, ha⟩ := Word.address_of_toNat 0x2 nnn h
    simp only [decode?, ho, ha]
    rfl
  | setIndex nnn =>
    obtain ⟨ho, ha⟩ := Word.address_of_toNat 0xA nnn h
    simp only [decode?, ho, ha]
    rfl
  | jumpFrom nnn =>
    obtain ⟨ho, ha⟩ := Word.address_of_toNat 0xB nnn h
    simp only [decode?, ho, ha]
    rfl
  | skipEqByte x kk =>
    obtain ⟨ho, hx, hk⟩ := Word.lowByte_of_toNat 0x3 x kk h
    simp only [decode?, ho, hx, hk]
    rfl
  | skipNeByte x kk =>
    obtain ⟨ho, hx, hk⟩ := Word.lowByte_of_toNat 0x4 x kk h
    simp only [decode?, ho, hx, hk]
    rfl
  | setByte x kk =>
    obtain ⟨ho, hx, hk⟩ := Word.lowByte_of_toNat 0x6 x kk h
    simp only [decode?, ho, hx, hk]
    rfl
  | addByte x kk =>
    obtain ⟨ho, hx, hk⟩ := Word.lowByte_of_toNat 0x7 x kk h
    simp only [decode?, ho, hx, hk]
    rfl
  | random x kk =>
    obtain ⟨ho, hx, hk⟩ := Word.lowByte_of_toNat 0xC x kk h
    simp only [decode?, ho, hx, hk]
    rfl
  | skipEq x y =>
    obtain ⟨ho, hx, hy, hn⟩ := Word.digits_of_toNat 0x5 x y 0x0 h
    simp only [decode?, ho, hx, hy, hn]
    rfl
  | skipNe x y =>
    obtain ⟨ho, hx, hy, hn⟩ := Word.digits_of_toNat 0x9 x y 0x0 h
    simp only [decode?, ho, hx, hy, hn]
    rfl
  | draw x y n =>
    obtain ⟨ho, hx, hy, hn⟩ := Word.digits_of_toNat 0xD x y n h
    simp only [decode?, ho, hx, hy, hn]
    rfl
  | copy x y => exact decode?_arithmetic (n := 0x0) h
  | or x y => exact decode?_arithmetic (n := 0x1) h
  | and x y => exact decode?_arithmetic (n := 0x2) h
  | xor x y => exact decode?_arithmetic (n := 0x3) h
  | add x y => exact decode?_arithmetic (n := 0x4) h
  | sub x y => exact decode?_arithmetic (n := 0x5) h
  | subFrom x y => exact decode?_arithmetic (n := 0x7) h
  | shiftRight x =>
    obtain ⟨y, h⟩ := h
    exact decode?_arithmetic (n := 0x6) h
  | shiftLeft x =>
    obtain ⟨y, h⟩ := h
    exact decode?_arithmetic (n := 0xE) h
  | skipHeld x => exact decode?_keypad (k := 0x9E) h
  | skipReleased x => exact decode?_keypad (k := 0xA1) h
  | getDelay x => exact decode?_transfer (k := 0x07) h
  | awaitKey x => exact decode?_transfer (k := 0x0A) h
  | setDelay x => exact decode?_transfer (k := 0x15) h
  | setSound x => exact decode?_transfer (k := 0x18) h
  | addIndex x => exact decode?_transfer (k := 0x1E) h
  | glyph x => exact decode?_transfer (k := 0x29) h
  | decimal x => exact decode?_transfer (k := 0x33) h
  | save x => exact decode?_transfer (k := 0x55) h
  | restore x => exact decode?_transfer (k := 0x65) h

theorem decode?_eq_some_iff : decode? w = some ins ↔ ins.Form w.toNat :=
  ⟨form_of_decode?, decode?_of_form⟩

theorem decode?_eq_none_iff : decode? w = none ↔ ∀ ins : Instruction, ¬ ins.Form w.toNat := by
  simp only [Option.eq_none_iff_forall_ne_some, ne_eq, decode?_eq_some_iff]

theorem Form.unique {ins' : Instruction} (h : ins.Form w.toNat) (h' : ins'.Form w.toNat) :
    ins = ins' := by
  rw [← decode?_eq_some_iff] at h h'
  exact Option.some.inj (h.symm.trans h')

end Chip8.Instruction
