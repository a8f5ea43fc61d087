import Chip8.CommandLine.UsageError
import Chip8.Settings

namespace Chip8

inductive Assignment
  | clockSpeed (hertz : UInt32)
  | timerFrequency (hertz : UInt32)
  | scale (factor : UInt32)
  | seed (number : UInt64)
  | rom (path : String)
deriving DecidableEq

namespace Assignment

def parameter : Assignment → Parameter
  | .clockSpeed _ => .clockSpeed
  | .timerFrequency _ => .timerFrequency
  | .scale _ => .scale
  | .seed _ => .seed
  | .rom _ => .rom

def clockSpeed? : Assignment → Option UInt32
  | .clockSpeed hertz => some hertz
  | _ => none

def timerFrequency? : Assignment → Option UInt32
  | .timerFrequency hertz => some hertz
  | _ => none

def scale? : Assignment → Option UInt32
  | .scale factor => some factor
  | _ => none

def seed? : Assignment → Option UInt64
  | .seed number => some number
  | _ => none

def rom? : Assignment → Option String
  | .rom path => some path
  | _ => none

def ofText (p : Parameter) (text : String) : Except UsageError Assignment :=
  let refuse := UsageError.invalidValue text p
  match p with
  | .clockSpeed => (Numeral.word32 text).mapError refuse |>.map .clockSpeed
  | .timerFrequency => (Numeral.word32 text).mapError refuse |>.map .timerFrequency
  | .scale => (Numeral.word32 text).mapError refuse |>.map .scale
  | .seed => (Numeral.word64 text).mapError refuse |>.map .seed
  | .rom => if text.isEmpty then .error (.missingValue .rom) else .ok (.rom text)

end Assignment

structure Invocation where
  rom : String
  settings : Settings
  scale : UInt32
deriving DecidableEq

/-- What was not given has its default; the ROM has none. -/
def Invocation.ofAssignments (given : List Assignment) : Except UsageError Invocation :=
  match given.findSome? Assignment.rom? with
  | none => .error (.missingRom (given.map Assignment.parameter))
  | some rom => .ok
    { rom
      settings :=
        { clockSpeed := (given.findSome? Assignment.clockSpeed?).getD Settings.standard.clockSpeed
          timerFrequency :=
            (given.findSome? Assignment.timerFrequency?).getD Settings.standard.timerFrequency
          seed := given.findSome? Assignment.seed? }
      scale := (given.findSome? Assignment.scale?).getD 10 }

inductive Request
  | show (flag : Flag)
  | run (invocation : Invocation)
deriving DecidableEq

end Chip8
