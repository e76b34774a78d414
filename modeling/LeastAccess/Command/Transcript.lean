import LeastAccess.Failure
import LeastAccess.Files.FileSystem

/-!
# What a command leaves behind

The lines a command prints, the lines about its progress, and why it failed, if it did.
-/

namespace LeastAccess.Command

/-- Why a command failed. -/
inductive Problem where
  | failure (f : Failure)
  | file (e : FileError)

namespace Problem

/-- The problem as a user sees it. -/
def text : Problem → String
  | .failure f => f.text
  | .file e => "Error: " ++ e.message

end Problem

/-- What a command printed, and how it ended. -/
structure Transcript where
  /-- The lines of the result. -/
  out : List String := []
  /-- The lines about progress. -/
  progress : List String := []
  problem? : Option Problem := none

namespace Transcript

/-- A command that failed before it printed anything. -/
def failed (f : Failure) : Transcript := { problem? := some (.failure f) }

end Transcript

end LeastAccess.Command
