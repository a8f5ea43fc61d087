import Chip8.Text.Hex

namespace Chip8

/-- What stands between the blanks of a text. -/
def fields (text : String) : List String :=
  (text.toList.splitOn ' ').map .ofList

variable {text before after : String}

theorem fields_blank (text rest : String) :
    fields (text ++ " " ++ rest) = fields text ++ fields rest := by
  have chars : (text ++ " " ++ rest).toList = text.toList ++ ' ' :: rest.toList := by simp
  rw [fields, chars, List.splitOn_append_cons_self, List.map_append]
  rfl

theorem fields_eq_singleton (whole : ' ' ∉ text.toList) : fields text = [text] := by
  rw [fields, List.splitOn_eq_singleton whole, List.map_singleton, String.ofList_toList]

namespace Hex

def isDigit (c : Char) : Bool :=
  alphabet.contains c

def value (digits : List Char) : Nat :=
  digits.foldl (fun n c ↦ 16 * n + alphabet.idxOf c) 0

/-- The number in a field, whatever else than digits stands there. -/
def number (field : String) : Nat :=
  value (field.toList.filter isDigit)

/-- The text is a single field and the number in it is `n`. -/
structure Shows (text : String) (n : Nat) : Prop where
  whole : ' ' ∉ text.toList
  number : number text = n

variable {digits : List Char} {k n : Nat}

theorem digit_faithful (n : Nat) :
    isDigit (digit n) = true ∧ alphabet.idxOf (digit n) = n % 16 := by
  have all : ∀ k < 16, isDigit (alphabet.getD k '0') = true ∧
      alphabet.idxOf (alphabet.getD k '0') = k := by
    decide
  exact all (n % 16) (Nat.mod_lt n (by decide))

theorem isDigit_of_mem_lowDigits {c : Char} (mem : c ∈ lowDigits k n) : isDigit c = true := by
  induction k generalizing n with
  | zero => cases mem
  | succ k ih =>
    rw [lowDigits, List.mem_append, List.mem_singleton] at mem
    obtain mem | rfl := mem
    · exact ih mem
    · exact (digit_faithful n).1

theorem value_append (zero : value digits = 0) (others : List Char) :
    value (digits ++ others) = value others := by
  rw [value, List.foldl_append]
  exact congrArg (others.foldl _) zero

theorem value_concat (digits : List Char) (n : Nat) :
    value (digits ++ [digit n]) = 16 * value digits + n % 16 := by
  rw [value, List.foldl_append, List.foldl_cons, List.foldl_nil, (digit_faithful n).2]
  rfl

theorem value_lowDigits_zero (k : Nat) : value (lowDigits k 0) = 0 := by
  induction k with
  | zero => rfl
  | succ k ih => rw [lowDigits, Nat.zero_div, value_concat, ih]

theorem log2_half (h : 2 ≤ n) : n.log2 = (n / 2).log2 + 1 := by
  rw [Nat.log2_def, if_pos h]

theorem size_eq_succ (h : 16 ≤ n) : size n = size (n / 16) + 1 := by
  have halves : n / 2 / 2 / 2 / 2 = n / 16 := by omega
  have log2 : n.log2 = (n / 16).log2 + 4 := by
    rw [log2_half (n := n), log2_half (n := n / 2), log2_half (n := n / 2 / 2),
      log2_half (n := n / 2 / 2 / 2), halves] <;> omega
  rw [size, size, log2]
  omega

theorem value_lowDigits (wide : size n ≤ k) : value (lowDigits k n) = n := by
  induction k generalizing n with
  | zero => cases wide
  | succ k ih =>
    -- A number of one digit leaves nothing but zeros in front of it.
    have front : value (lowDigits k (n / 16)) = n / 16 := by
      rcases Nat.lt_or_ge n 16 with small | large
      · rw [Nat.div_eq_of_lt small, value_lowDigits_zero]
      · have longer := size_eq_succ large
        exact ih (by omega)
    rw [lowDigits, value_concat, front]
    omega

theorem filter_isDigit_padded (width n : Nat) :
    (padded width n).toList.filter isDigit = (padded width n).toList := by
  rw [padded, String.toList_ofList, List.filter_eq_self]
  exact fun c mem ↦ isDigit_of_mem_lowDigits mem

theorem shows_padded (width n : Nat) : Shows (padded width n) n := by
  constructor
  case whole =>
    rw [← filter_isDigit_padded, List.mem_filter]
    exact fun mem ↦ absurd mem.2 (by decide)
  case number =>
    rw [number, filter_isDigit_padded, padded, String.toList_ofList]
    exact value_lowDigits (Nat.le_max_right width (size n))

theorem Shows.append_left (h : Shows text n) (whole : ' ' ∉ before.toList)
    (zero : Hex.number before = 0) : Shows (before ++ text) n := by
  constructor
  case whole =>
    rw [String.toList_append, List.mem_append, not_or]
    exact ⟨whole, h.whole⟩
  case number =>
    rw [Hex.number, String.toList_append, List.filter_append, value_append zero]
    exact h.number

theorem Shows.append_right (h : Shows text n) (whole : ' ' ∉ after.toList)
    (bare : after.toList.filter isDigit = []) : Shows (text ++ after) n := by
  constructor
  case whole =>
    rw [String.toList_append, List.mem_append, not_or]
    exact ⟨h.whole, whole⟩
  case number =>
    rw [Hex.number, String.toList_append, List.filter_append, bare, List.append_nil]
    exact h.number

theorem Shows.fields_eq (h : Shows text n) : fields text = [text] :=
  fields_eq_singleton h.whole

theorem Shows.numbers (h : Shows text n) : (fields text).map Hex.number = [n] := by
  rw [h.fields_eq, List.map_singleton, h.number]

end Hex

end Chip8
