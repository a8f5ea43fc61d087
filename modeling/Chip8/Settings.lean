namespace Chip8

inductive SettingsError
  | clockStopped
  | timersStopped
deriving DecidableEq

def SettingsError.message : SettingsError → String
  | .clockStopped => "invalid configuration: clock speed must be above 0Hz"
  | .timersStopped => "invalid configuration: timer frequency must be above 0Hz"

/-- Frequencies in hertz. Without a seed the random bytes differ from run to run. -/
structure Settings where
  clockSpeed : UInt32 := 500
  timerFrequency : UInt32 := 60
  seed : Option UInt64 := none
deriving DecidableEq

def Settings.standard : Settings :=
  {}

def Settings.validate (s : Settings) : Except SettingsError Unit :=
  if s.clockSpeed = 0 then .error .clockStopped
  else if s.timerFrequency = 0 then .error .timersStopped
  else .ok ()

end Chip8
