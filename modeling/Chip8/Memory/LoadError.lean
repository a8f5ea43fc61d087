namespace Chip8

/-- The bytes from `0x200` to the end of memory. -/
def Rom.capacity : Nat :=
  4096 - 0x200

inductive LoadError
  | tooLarge (size : Nat)
  | unreadable (reason : String)
deriving DecidableEq

def LoadError.message : LoadError → String
  | .tooLarge size =>
    "ROM is too large (" ++ toString size ++ " bytes), max size is " ++
      toString Rom.capacity ++ " bytes"
  | .unreadable _ => "unable to read ROM"

def LoadError.reason? : LoadError → Option String
  | .tooLarge _ => none
  | .unreadable reason => some reason

end Chip8
