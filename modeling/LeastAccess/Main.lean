import LeastAccess.CommandLine.Program
import LeastAccess.Text.Utf8

/-!
# The program

Runs the command line over the disk.
-/

namespace LeastAccess.Disk

/-- The system's number for an operation that a directory does not allow. -/
def directoryCode : UInt32 := 21

/-- The system's number for a name that is too long. -/
def nameTooLongCode : UInt32 := 36

/-- What an error of the disk says about a file. -/
def fault : IO.Error → FileFault
  | .noFileOrDirectory .. => .notFound
  | .inappropriateType _ code _ => if code = directoryCode then .isDirectory else .notDirectory
  | .invalidArgument _ code _ => if code = nameTooLongCode then .nameTooLong else .notDirectory
  | _ => .notDirectory

/-- The operations on the disk. -/
def fileSystem (workingDirectory : String) : FileSystem IO where
  workingDirectory
  has path := do
    try
      let _ ← IO.FS.Handle.mk path .read
      return true
    catch _ => return false
  read path := do
    try
      return .ok (Text.Utf8.decode (← IO.FS.readBinFile path).toList)
    catch e =>
      match fault e with
      | .isDirectory => return .error ⟨.isDirectory, "read", none⟩
      | f => return .error ⟨f, "open", some path⟩
  write path text := do
    try
      IO.FS.writeFile path text
      return .ok ()
    catch e => return .error ⟨fault e, "open", some path⟩
  makeDirectories path := do
    try
      IO.FS.createDirAll path
      return .ok ()
    catch e => return .error ⟨fault e, "mkdir", some path⟩

end LeastAccess.Disk

/-- Runs the program in the current directory. -/
def main (args : List String) : IO UInt32 := do
  let fs := LeastAccess.Disk.fileSystem (← IO.currentDir).toString
  let completion ← LeastAccess.CommandLine.Program.run fs IO.monoMsNow .live args
  IO.print completion.out
  IO.eprint completion.err
  return UInt32.ofNat completion.code
