import Chip8.CommandLine.Help
import Chip8.CommandLine.Reading
import Chip8.Machine.Source

namespace Chip8

inductive LaunchError
  | settings (e : SettingsError)
  | opening (path cause : String)
  | loading (path : String) (e : LoadError)
  | noScreen (reason : String)
deriving DecidableEq

namespace LaunchError

def message : LaunchError → String
  | .settings e => e.message
  | .opening path _ => "unable to open " ++ path
  | .loading path _ => "unable to load " ++ path
  | .noScreen reason => reason

/-- Each cause is the cause of the one before it. -/
def causes : LaunchError → List String
  | .settings _ | .noScreen _ => []
  | .opening _ cause => [cause]
  | .loading _ e => e.message :: e.reason?.toList

def causeLines : List String → List String
  | [] => []
  | [cause] => ["", "Caused by:", "    " ++ cause]
  | causes =>
    "" :: "Caused by:" ::
      causes.zipIdx.map fun (cause, k) ↦ "    " ++ toString k ++ ": " ++ cause

def text (e : LaunchError) : String :=
  String.join ((("Error: " ++ e.message) :: causeLines e.causes).map (· ++ "\n"))

end LaunchError

/-- The machine with its ROM loaded, given what came of opening the ROM. -/
def Invocation.prepare (i : Invocation) (entropy : ChaCha.Key) (opened : Except String Source) :
    Except LaunchError Machine := do
  let machine ← (Machine.new i.settings entropy).mapError .settings
  let source ← opened.mapError (.opening i.rom)
  let outcome := machine.loadFrom source
  match outcome.answer with
  | .error e => .error (.loading i.rom e)
  | .ok _ => .ok outcome.state

structure Report where
  code : UInt32
  out : String := ""
  err : String := ""
deriving DecidableEq

/-- What the program reports. A screen may be refused for a reason of its own; otherwise it plays a
machine at a scale, and what comes of that is reported. -/
def Report.ofStart (openPath : String → Except String Source) (entropy : ChaCha.Key)
    (screen : Except String (UInt32 → Machine → Report)) (arguments : List String) : Report :=
  match Request.ofArguments arguments with
  | .error e => { code := 2, err := e.text }
  | .ok (.show flag) => { code := 0, out := flag.text }
  | .ok (.run invocation) =>
    match invocation.prepare entropy (openPath invocation.rom), screen with
    | .error e, _ => { code := 1, err := e.text }
    | .ok _, .error reason => { code := 1, err := (LaunchError.noScreen reason).text }
    | .ok machine, .ok play => play invocation.scale machine

def Report.ofArguments (openPath : String → Except String Source) (entropy : ChaCha.Key)
    (arguments : List String) : Report :=
  Report.ofStart openPath entropy (.error "SDL2 is not available") arguments

end Chip8
