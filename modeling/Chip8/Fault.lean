import Chip8.Text.Hex

namespace Chip8

inductive Fault
  | unknownOpcode (opcode address : UInt16)
  | stackOverflow (address : UInt16)
  | stackUnderflow (address : UInt16)
deriving DecidableEq

namespace Fault

def addressText (address : UInt16) : String :=
  "0x" ++ Hex.padded 3 address.toNat

def message : Fault → String
  | .unknownOpcode opcode address =>
    "unknown opcode 0x" ++ Hex.padded 4 opcode.toNat ++ " at " ++ addressText address
  | .stackOverflow address => "call stack overflow at " ++ addressText address
  | .stackUnderflow address => "call stack underflow at " ++ addressText address

def record : Fault → String
  | .unknownOpcode opcode address =>
    "UnknownOpcode \x7b opcode: " ++ toString opcode.toNat ++ ", pc: " ++
      toString address.toNat ++ " \x7d"
  | .stackOverflow address => "StackOverflow \x7b pc: " ++ toString address.toNat ++ " \x7d"
  | .stackUnderflow address => "StackUnderflow \x7b pc: " ++ toString address.toNat ++ " \x7d"

end Fault

end Chip8
