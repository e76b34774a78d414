import LeastAccess.Files.FileSystem
import LeastAccess.Snapshot.Loading

/-!
# Snapshot files

A snapshot file that is missing, one that cannot be read as a document, and one whose document is no
snapshot are told apart.
-/

namespace LeastAccess.Snapshot

variable {m : Type → Type} [Monad m]

/-- The codebase in a snapshot file. -/
def read (fs : FileSystem m) (file : String) : m (Except SnapshotFault Codebase) := do
  if ← fs.has file then
    match ← fs.read file with
    | .error e => return .error (.unreadable e.message)
    | .ok text =>
      match Json.read text with
      | .error e => return .error (.unreadable e.message)
      | .ok v => return parse (some v)
  else return .error .notFound

/-- The codebase in a snapshot file, or the failure a user sees. -/
def load (fs : FileSystem m) (file : String) : m (Except Failure Codebase) := do
  return (← read fs file).mapError (·.toFailure (some file))

end LeastAccess.Snapshot
