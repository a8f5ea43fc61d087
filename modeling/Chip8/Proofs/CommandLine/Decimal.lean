import Chip8.CommandLine.Assignment

namespace Chip8

/-- The text is a numeral for `n`: decimal digits, perhaps with zeros in front. -/
structure Decimal (text : String) (n : Nat) : Prop where
  nonempty : text.toList ≠ []
  digits : ∀ c ∈ text.toList, c.isDigit = true
  value : Nat.ofDigitChars 10 text.toList 0 = n

def Parameter.Exceeded (n : Nat) : Parameter → Prop
  | .clockSpeed | .timerFrequency | .scale => UInt32.size ≤ n
  | .seed => UInt64.size ≤ n
  | .rom => False

variable {text : String} {n : Nat}

theorem decimal_toString (n : Nat) : Decimal (toString n) n where
  nonempty := by
    rw [Nat.toString_eq_repr, Nat.toList_repr]
    exact Nat.toDigits_ne_nil
  digits c mem := by
    rw [Nat.toString_eq_repr, Nat.toList_repr] at mem
    exact Nat.isDigit_of_mem_toDigits (by decide) (by decide) mem
  value := by
    rw [Nat.toString_eq_repr, Nat.toList_repr]
    exact Nat.ofDigitChars_ten_toDigits

theorem ne_of_isDigit {c d : Char} (digit : c.isDigit = true) (other : d.isDigit = false) :
    c ≠ d := by
  intro same
  rw [same, other] at digit
  cases digit

theorem Decimal.exists_cons (h : Decimal text n) :
    ∃ c cs, text.toList = c :: cs ∧ c.isDigit = true := by
  obtain ⟨c, cs, same⟩ := List.exists_cons_of_ne_nil h.nonempty
  exact ⟨c, cs, same, h.digits c (by rw [same]; exact List.mem_cons_self)⟩

namespace Numeral

theorem le_ofDigitChars (digits : List Char) (n : Nat) : n ≤ Nat.ofDigitChars 10 digits n := by
  induction digits generalizing n with
  | nil => exact Nat.le_refl n
  | cons c digits ih =>
    rw [Nat.ofDigitChars_cons]
    have later := ih (10 * n + (c.toNat - '0'.toNat))
    omega

theorem magnitude_eq {limit : Nat} (beyond : NumeralError) {digits : List Char}
    (decimal : ∀ c ∈ digits, c.isDigit = true) (n : Nat) (small : n ≤ limit) :
    magnitude limit beyond n digits =
      if Nat.ofDigitChars 10 digits n ≤ limit then .ok (Nat.ofDigitChars 10 digits n)
      else .error beyond := by
  induction digits generalizing n with
  | nil => rw [Nat.ofDigitChars_nil, if_pos small, magnitude]
  | cons c digits ih =>
    rw [List.forall_mem_cons] at decimal
    rw [magnitude, if_pos decimal.1, Nat.ofDigitChars_cons]
    by_cases next : 10 * n + (c.toNat - '0'.toNat) ≤ limit
    · rw [if_pos next, ih decimal.2 _ next]
    · -- The number only grows from here on.
      have grows := le_ofDigitChars digits (10 * n + (c.toNat - '0'.toNat))
      rw [if_neg next, if_neg (by omega)]

theorem unsigned_of_digit {c : Char} (digit : c.isDigit = true) (cs : List Char) :
    unsigned (c :: cs) = magnitude (UInt64.size - 1) .tooLarge 0 (c :: cs) := by
  have plus : c ≠ '+' := ne_of_isDigit digit rfl
  rw [unsigned] <;> simp [plus]

theorem signed_of_digit {c : Char} (digit : c.isDigit = true) (cs : List Char) :
    signed (c :: cs) = (magnitude 9223372036854775807 .tooLarge 0 (c :: cs)).map Int.ofNat := by
  have plus : c ≠ '+' := ne_of_isDigit digit rfl
  have minus : c ≠ '-' := ne_of_isDigit digit rfl
  rw [signed] <;> simp [plus, minus]

theorem unsigned_eq (h : Decimal text n) :
    unsigned text.toList = if n < UInt64.size then .ok n else .error .tooLarge := by
  obtain ⟨c, cs, same, digit⟩ := h.exists_cons
  rw [same, unsigned_of_digit digit, ← same, magnitude_eq _ h.digits _ (Nat.zero_le _), h.value]
  have last : n ≤ UInt64.size - 1 ↔ n < UInt64.size := by
    have positive : 0 < UInt64.size := by decide
    omega
  simp only [last]

theorem signed_eq (h : Decimal text n) :
    signed text.toList = if n ≤ 9223372036854775807 then .ok (n : Int) else .error .tooLarge := by
  obtain ⟨c, cs, same, digit⟩ := h.exists_cons
  rw [same, signed_of_digit digit, ← same, magnitude_eq _ h.digits _ (Nat.zero_le _), h.value]
  split <;> rfl

theorem word64_eq_ok (h : Decimal text n) (small : n < UInt64.size) :
    word64 text = .ok (.ofNat n) := by
  simp only [word64, unsigned_eq h, if_pos small]

theorem word64_eq_error (h : Decimal text n) (large : UInt64.size ≤ n) :
    word64 text = .error (.numeral .tooLarge) := by
  simp only [word64, unsigned_eq h, if_neg (Nat.not_lt.mpr large)]

theorem word32_eq_ok (h : Decimal text n) (small : n < UInt32.size) :
    word32 text = .ok (.ofNat n) := by
  have size : UInt32.size = 4294967296 := rfl
  have bounds : (0 : Int) ≤ n ∧ (n : Int) < 4294967296 := by omega
  simp only [word32, signed_eq h, if_pos (show n ≤ 9223372036854775807 by omega), if_pos bounds,
    Int.toNat_natCast]

theorem word32_eq_error (h : Decimal text n) (large : UInt32.size ≤ n) :
    ∃ reason, word32 text = .error reason := by
  have size : UInt32.size = 4294967296 := rfl
  have beyond : ¬ ((0 : Int) ≤ n ∧ (n : Int) < 4294967296) := by omega
  rw [word32, signed_eq h]
  by_cases fits : n ≤ 9223372036854775807
  · rw [if_pos fits]
    exact ⟨.outOfRange n, if_neg beyond⟩
  · rw [if_neg fits]
    exact ⟨.numeral .tooLarge, rfl⟩

end Numeral

namespace Assignment

/-- The text gives the value. A path that begins with a dash would pass for an option. -/
def Denoted (text : String) : Assignment → Prop
  | .clockSpeed hertz | .timerFrequency hertz | .scale hertz => Decimal text hertz.toNat
  | .seed number => Decimal text number.toNat
  | .rom path => text = path ∧ ∃ c cs, path.toList = c :: cs ∧ c ≠ '-'

theorem ofText_of_denoted {a : Assignment} (denoted : a.Denoted text) :
    ofText a.parameter text = .ok a := by
  cases a with
  | clockSpeed hertz | timerFrequency hertz | scale hertz =>
    rw [parameter, ofText, Numeral.word32_eq_ok denoted hertz.toNat_lt, UInt32.ofNat_toNat]
    rfl
  | seed number =>
    rw [parameter, ofText, Numeral.word64_eq_ok denoted number.toNat_lt, UInt64.ofNat_toNat]
    rfl
  | rom path =>
    obtain ⟨rfl, c, cs, same, -⟩ := denoted
    have nonempty : text ≠ "" := by
      rintro rfl
      cases same
    simp [parameter, ofText, nonempty]

theorem ofText_of_exceeded {p : Parameter} (decimal : Decimal text n) (exceeded : p.Exceeded n) :
    ∃ reason, ofText p text = .error (.invalidValue text p reason) := by
  cases p with
  | clockSpeed | timerFrequency | scale =>
    obtain ⟨reason, refused⟩ := Numeral.word32_eq_error decimal exceeded
    refine ⟨reason, ?_⟩
    rw [ofText, refused]
    rfl
  | seed =>
    refine ⟨.numeral .tooLarge, ?_⟩
    rw [ofText, Numeral.word64_eq_error decimal exceeded]
    rfl
  | rom => exact exceeded.elim

end Assignment

end Chip8
