namespace Chip8.Hex

def alphabet : List Char :=
  ['0', '1', '2', '3', '4', '5', '6', '7', '8', '9', 'A', 'B', 'C', 'D', 'E', 'F']

def digit (n : Nat) : Char :=
  alphabet.getD (n % 16) '0'

/-- The `k` lowest digits of `n`, highest first. -/
def lowDigits : Nat → Nat → List Char
  | 0, _ => []
  | k + 1, n => lowDigits k (n / 16) ++ [digit n]

def size (n : Nat) : Nat :=
  n.log2 / 4 + 1

/-- All digits of `n`, and zeros before them where they are fewer than `width`. -/
def padded (width n : Nat) : String :=
  String.ofList (lowDigits (max width (size n)) n)

end Chip8.Hex
