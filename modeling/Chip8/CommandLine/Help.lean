import Chip8.CommandLine.Parameter

namespace Chip8

def Flag.lines : Flag → List String
  | .version => ["chip8 0.1.0"]
  | .help =>
    ["Runs a Chip-8 ROM in an SDL2 window",
     "",
     "Usage: chip8 [OPTIONS] <ROM>",
     "",
     "Arguments:",
     "  <ROM>  Path to the ROM to run",
     "",
     "Options:",
     "  -c, --clock-speed <CLOCK_SPEED>          " ++
       "Instructions executed per second [default: 500]",
     "  -t, --timer-frequency <TIMER_FREQUENCY>  " ++
       "Delay and sound timer decrements per second [default: 60]",
     "  -s, --scale <SCALE>                      Size multiplier for each pixel [default: 10]",
     "      --seed <SEED>                        Seed for RND; random if omitted",
     "  -h, --help                               Print help",
     "  -V, --version                            Print version"]

def Flag.text (f : Flag) : String :=
  String.join (f.lines.map (· ++ "\n"))

end Chip8
