import Chip8.Machine.Source

namespace Chip8

structure Folder where
  files : List (String × Array UInt8)

namespace Folder

def missing : String :=
  "No such file or directory (os error 2)"

def notFolder : String :=
  "Not a directory (os error 20)"

def tooLong : String :=
  "File name too long (os error 36)"

def folderSource : Source :=
  [.failed "Is a directory (os error 21)"]

/-- Follows the steps of a path from a folder outside, where no file is known. -/
def followOutside : List String → Except String Source
  | [] => .ok folderSource
  | step :: rest =>
    if step ∈ ["", ".", ".."] then followOutside rest
    else if 255 < step.utf8ByteSize then .error tooLong
    else .error missing

def follow (f : Folder) : List String → Except String Source
  | [] => .ok folderSource
  | step :: rest =>
    if step ∈ ["", "."] then f.follow rest
    else if step = ".." then followOutside rest
    else if 255 < step.utf8ByteSize then .error tooLong
    else
      match f.files.lookup step with
      | none => .error missing
      | some contents => if rest.isEmpty then .ok [.bytes contents] else .error notFolder

def splitPath : List Char → List (List Char)
  | [] => [[]]
  | '/' :: rest => [] :: splitPath rest
  | c :: rest =>
    match splitPath rest with
    | [] => [[c]]
    | step :: steps => (c :: step) :: steps

/-- Opens a path, or tells why it cannot. A path from the root leads outside. -/
def openPath (f : Folder) (path : String) : Except String Source :=
  if 4095 < path.utf8ByteSize then .error tooLong
  else
    match (splitPath path.toList).map String.ofList with
    | [""] => .error missing
    | "" :: steps => followOutside steps
    | steps => f.follow steps

end Folder

end Chip8
