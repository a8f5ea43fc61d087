import Chip8.Launch.Basic

namespace Chip8.Main

def reason : IO.Error → String
  | .noFileOrDirectory _ _ _ => "No such file or directory (os error 2)"
  | .inappropriateType _ code details | .permissionDenied _ code details
  | .resourceExhausted _ code details | .invalidArgument _ code details =>
    details ++ " (os error " ++ toString code ++ ")"
  | e => toString e

/-- Opens and reads a file. The failure to open is told from the failure to read. -/
def openFile (path : String) : BaseIO (Except String Source) := do
  match ← (IO.FS.Handle.mk path .read).toBaseIO with
  | .error e => return .error (reason e)
  | .ok file =>
    match ← file.readBinToEnd.toBaseIO with
    | .error e => return .ok [.failed (reason e)]
    | .ok contents => return .ok [.bytes contents.data]

def entropy : IO ChaCha.Key := do
  let words ← (List.range 8).mapM fun _ ↦ IO.rand 0 (UInt32.size - 1)
  let word (k : Nat) : UInt32 := .ofNat (words.getD k 0)
  return ⟨#v[word 0, word 1, word 2, word 3], #v[word 4, word 5, word 6, word 7]⟩

end Chip8.Main

open Chip8 in
def main (arguments : List String) : IO UInt32 := do
  let opened ← match Request.ofArguments arguments with
    | .ok (.run invocation) => Main.openFile invocation.rom
    | _ => pure (.ok [])
  let result := Report.ofArguments (fun _ ↦ opened) (← Main.entropy) arguments
  IO.print result.out
  IO.eprint result.err
  return result.code
