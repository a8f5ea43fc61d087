namespace Chip8

inductive Instruction
  | clear
  | ret
  | jump (nnn : Fin 4096)
  | call (nnn : Fin 4096)
  | skipEqByte (x : Fin 16) (kk : UInt8)
  | skipNeByte (x : Fin 16) (kk : UInt8)
  | skipEq (x y : Fin 16)
  | skipNe (x y : Fin 16)
  | setByte (x : Fin 16) (kk : UInt8)
  | addByte (x : Fin 16) (kk : UInt8)
  | copy (x y : Fin 16)
  | or (x y : Fin 16)
  | and (x y : Fin 16)
  | xor (x y : Fin 16)
  | add (x y : Fin 16)
  | sub (x y : Fin 16)
  | subFrom (x y : Fin 16)
  | shiftRight (x : Fin 16)
  | shiftLeft (x : Fin 16)
  | setIndex (nnn : Fin 4096)
  | jumpFrom (nnn : Fin 4096)
  | random (x : Fin 16) (kk : UInt8)
  | draw (x y n : Fin 16)
  | skipHeld (x : Fin 16)
  | skipReleased (x : Fin 16)
  | getDelay (x : Fin 16)
  | awaitKey (x : Fin 16)
  | setDelay (x : Fin 16)
  | setSound (x : Fin 16)
  | addIndex (x : Fin 16)
  | glyph (x : Fin 16)
  | decimal (x : Fin 16)
  | save (x : Fin 16)
  | restore (x : Fin 16)
deriving DecidableEq

end Chip8
