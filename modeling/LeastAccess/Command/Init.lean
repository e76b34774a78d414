import LeastAccess.Command.Transcript
import LeastAccess.Config.Loading

/-!
# Writing the usual configuration file

The file gets every default. One that is already there is only replaced if that is asked for.
-/

namespace LeastAccess.Command

/-- What is printed when the file is already there. -/
def alreadyThere : Transcript where
  out := [Config.fileName ++ " already exists in this project.", "Use --force to overwrite it."]

/-- What is printed when the file is written. -/
def wrote (file : String) (c : Config) : Transcript where
  out :=
    ["Wrote " ++ file, "", "Configuration:",
      "  Concurrency:       " ++ c.concurrency.text,
      "  Entry annotations: " ++ toString c.annotations.length,
      "  Subclass rules:    " ++ toString c.subclassing.length,
      "", "Next step:", "  Run access-lens analyze <snapshot.json>"]

variable {m : Type → Type} [Monad m]

/-- Writes the default configuration into the working directory. -/
def init (fs : FileSystem m) (force : Bool) : m Transcript := do
  let file := Config.path fs.workingDirectory
  let config : Config := {}
  if (← fs.has file) && !force then return alreadyThere
  else
    match ← fs.writeJson file (some config.toJson) with
    | .error e => return { problem? := some (.file e) }
    | .ok () => return wrote file config

end LeastAccess.Command
