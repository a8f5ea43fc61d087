namespace Chip8.Word

/-- The hexadecimal digit of `w` that counts for `unit`, a power of sixteen. -/
def digit (w : UInt16) (unit : Nat) : Fin 16 :=
  Fin.ofNat 16 (w.toNat / unit)

def lowByte (w : UInt16) : UInt8 :=
  UInt8.ofNat w.toNat

def address (w : UInt16) : Fin 4096 :=
  Fin.ofNat 4096 w.toNat

/-- A word with nothing above its lowest twelve bits. -/
def wrap (w : UInt16) : UInt16 :=
  w % 0x1000

@[simp] theorem toNat_wrap (w : UInt16) : (wrap w).toNat = w.toNat % 4096 := by
  simp [wrap]

@[simp] theorem val_digit (w : UInt16) (unit : Nat) :
    (digit w unit).val = w.toNat / unit % 16 :=
  rfl

@[simp] theorem val_address (w : UInt16) : (address w).val = w.toNat % 4096 :=
  rfl

@[simp] theorem toNat_lowByte (w : UInt16) : (lowByte w).toNat = w.toNat % 256 := by
  simp [lowByte]

theorem toNat_eq_digits (w : UInt16) :
    w.toNat = 0x1000 * digit w 0x1000 + 0x100 * digit w 0x100 + 0x10 * digit w 0x10 +
      digit w 0x1 := by
  have hw := w.toNat_lt
  simp only [val_digit]
  omega

theorem toNat_eq_lowByte (w : UInt16) :
    w.toNat = 0x1000 * digit w 0x1000 + 0x100 * digit w 0x100 + (lowByte w).toNat := by
  have hw := w.toNat_lt
  simp only [val_digit, toNat_lowByte]
  omega

theorem toNat_eq_address (w : UInt16) :
    w.toNat = 0x1000 * digit w 0x1000 + address w := by
  have hw := w.toNat_lt
  simp only [val_digit, val_address]
  omega

theorem digits_of_toNat {w : UInt16} (o x y n : Fin 16)
    (h : w.toNat = 0x1000 * o + 0x100 * x + 0x10 * y + n) :
    digit w 0x1000 = o ∧ digit w 0x100 = x ∧ digit w 0x10 = y ∧ digit w 0x1 = n := by
  simp only [Fin.ext_iff, val_digit]
  omega

theorem lowByte_of_toNat {w : UInt16} (o x : Fin 16) (kk : UInt8)
    (h : w.toNat = 0x1000 * o + 0x100 * x + kk.toNat) :
    digit w 0x1000 = o ∧ digit w 0x100 = x ∧ lowByte w = kk := by
  have hk := kk.toNat_lt
  simp only [Fin.ext_iff, ← UInt8.toNat_inj, val_digit, toNat_lowByte]
  omega

theorem address_of_toNat {w : UInt16} (o : Fin 16) (nnn : Fin 4096)
    (h : w.toNat = 0x1000 * o + nnn) : digit w 0x1000 = o ∧ address w = nnn := by
  simp only [Fin.ext_iff, val_digit, val_address]
  omega

end Chip8.Word
