import LeastAccess.Config.Reading
import LeastAccess.Files.FileSystem

/-!
# Loading a configuration

A configuration comes from a file that is named, or from the usual file of the working directory. The usual
file may be missing, and then every default applies; a file that is named must be there.
-/

namespace LeastAccess.Config

/-- The name of the usual file. -/
def fileName : String := "access-lens.json"

/-- The path of the usual file of a directory. -/
def path (directory : String) : String := Path.join directory fileName

variable {m : Type → Type} [Monad m]

/-- The configuration in a file that is there. -/
def loadFrom (fs : FileSystem m) (file : String) : m (Except Failure Config) := do
  let loaded : Except ConfigFault Config :=
    match ← fs.readJson? file with
    | none => .error .notJson
    | some .null => .error .notJson
    | some v => parse (some v)
  return loaded.mapError (·.toFailure (some file))

/-- The configuration in the file that is named, or in the usual one. -/
def load (fs : FileSystem m) (file : Option String) : m (Except Failure Config) := do
  match file with
  | some file =>
    if ← fs.has file then loadFrom fs file
    else return .error (ConfigFault.notFound.toFailure (some file))
  | none =>
    let usual := path fs.workingDirectory
    if ← fs.has usual then loadFrom fs usual else return .ok {}

end LeastAccess.Config
