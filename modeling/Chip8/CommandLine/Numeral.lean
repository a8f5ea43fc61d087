namespace Chip8

inductive NumeralError
  | empty
  | invalidDigit
  | tooLarge
  | tooSmall
deriving DecidableEq

def NumeralError.message : NumeralError → String
  | .empty => "cannot parse integer from empty string"
  | .invalidDigit => "invalid digit found in string"
  | .tooLarge => "number too large to fit in target type"
  | .tooSmall => "number too small to fit in target type"

namespace Numeral

/-- Reads digits behind `n`, from left to right up to the first error. A number above `limit` is
an error of the kind `beyond`. -/
def magnitude (limit : Nat) (beyond : NumeralError) (n : Nat) : List Char → Except NumeralError Nat
  | [] => .ok n
  | c :: cs =>
    if c.isDigit then
      let n := 10 * n + (c.toNat - '0'.toNat)
      if n ≤ limit then magnitude limit beyond n cs else .error beyond
    else .error .invalidDigit

/-- Numbers of 64 bits; only a plus is a sign here. -/
def unsigned : List Char → Except NumeralError Nat
  | [] => .error .empty
  | ['+'] => .error .invalidDigit
  | '+' :: digits => magnitude (UInt64.size - 1) .tooLarge 0 digits
  | digits => magnitude (UInt64.size - 1) .tooLarge 0 digits

def signed : List Char → Except NumeralError Int
  | [] => .error .empty
  | ['+'] | ['-'] => .error .invalidDigit
  | '+' :: digits => (magnitude 9223372036854775807 .tooLarge 0 digits).map Int.ofNat
  | '-' :: digits => (magnitude 9223372036854775808 .tooSmall 0 digits).map Int.negOfNat
  | digits => (magnitude 9223372036854775807 .tooLarge 0 digits).map Int.ofNat

end Numeral

inductive ValueError
  | numeral (e : NumeralError)
  | outOfRange (value : Int)
deriving DecidableEq

def ValueError.message : ValueError → String
  | .numeral e => e.message
  | .outOfRange value => toString value ++ " is not in 0..=4294967295"

namespace Numeral

def word64 (text : String) : Except ValueError UInt64 :=
  match unsigned text.toList with
  | .error e => .error (.numeral e)
  | .ok n => .ok (.ofNat n)

/-- A number of 32 bits, read with a sign first and then held to its range. -/
def word32 (text : String) : Except ValueError UInt32 :=
  match signed text.toList with
  | .error e => .error (.numeral e)
  | .ok n => if 0 ≤ n ∧ n < 4294967296 then .ok (.ofNat n.toNat) else .error (.outOfRange n)

end Numeral

end Chip8
