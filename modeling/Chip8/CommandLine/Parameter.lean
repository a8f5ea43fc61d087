import Chip8.Text.Similarity

namespace Chip8

inductive Parameter
  | clockSpeed
  | timerFrequency
  | scale
  | seed
  | rom
deriving DecidableEq

namespace Parameter

def options : List Parameter :=
  [.clockSpeed, .timerFrequency, .scale, .seed]

def name : Parameter → String
  | .clockSpeed => "clock-speed"
  | .timerFrequency => "timer-frequency"
  | .scale => "scale"
  | .seed => "seed"
  | .rom => "rom"

def placeholder : Parameter → String
  | .clockSpeed => "<CLOCK_SPEED>"
  | .timerFrequency => "<TIMER_FREQUENCY>"
  | .scale => "<SCALE>"
  | .seed => "<SEED>"
  | .rom => "<ROM>"

def label : Parameter → String
  | .rom => placeholder .rom
  | p => "--" ++ p.name ++ " " ++ p.placeholder

end Parameter

/-- A flag asks for a text in place of a run. -/
inductive Flag
  | help
  | version
deriving DecidableEq

namespace Flag

def name : Flag → String
  | .help => "help"
  | .version => "version"

def label (f : Flag) : String :=
  "--" ++ f.name

end Flag

inductive Switch
  | parameter (p : Parameter)
  | flag (f : Flag)
deriving DecidableEq

namespace Switch

def all : List Switch :=
  Parameter.options.map .parameter ++ [.flag .help, .flag .version]

def name : Switch → String
  | .parameter p => p.name
  | .flag f => f.name

def label : Switch → String
  | .parameter p => p.label
  | .flag f => f.label

def ofName? (name : String) : Option Switch :=
  all.find? (·.name = name)

def ofLetter? : Char → Option Switch
  | 'c' => some (.parameter .clockSpeed)
  | 't' => some (.parameter .timerFrequency)
  | 's' => some (.parameter .scale)
  | 'h' => some (.flag .help)
  | 'V' => some (.flag .version)
  | _ => none

def similar? (name : String) : Option Switch :=
  Similarity.best? 0.7 name (all.map fun s ↦ (s.name, s))

end Switch

end Chip8
