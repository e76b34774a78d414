import LeastAccess.Failure
import LeastAccess.Snapshot.Format
import LeastAccess.Snapshot.Integrity
import LeastAccess.Snapshot.Reading

/-!
# Loading a snapshot

A document is a snapshot if it has the form of one, all its references lead somewhere, and containment has
no cycle. The three conditions are looked at in this order, and the first one that fails is reported with
all its violations.
-/

namespace LeastAccess

/-- Why there is no snapshot. -/
inductive SnapshotFault where
  | notFound
  | unreadable (reason : String)
  | malformed (issues : List Issue)
  | dangling (issues : List ReferenceIssue)
  | cyclic (issues : List CycleIssue)
  deriving DecidableEq

namespace SnapshotFault

def code : SnapshotFault → ErrorCode
  | .notFound => .snapshotNotFound
  | .unreadable _ => .snapshotUnreadable
  | .malformed _ => .snapshotSchemaInvalid
  | .dangling _ => .snapshotDanglingReference
  | .cyclic _ => .snapshotContainmentCycle

def message : SnapshotFault → String
  | .notFound => "Snapshot file not found"
  | .unreadable reason => "Snapshot is not readable JSON: " ++ reason
  | .malformed _ => "Snapshot does not match the expected format"
  | .dangling _ => "Snapshot has dangling references"
  | .cyclic _ => "Snapshot containment is cyclic"

/-- The violations; a file that cannot be read has none. -/
def issues? : SnapshotFault → Option (List String)
  | .malformed issues => some (issues.map (·.text))
  | .dangling issues => some (issues.map (·.text))
  | .cyclic issues => some (issues.map (·.text))
  | _ => none

/-- The failure a user sees; the file may be unknown. -/
def toFailure (e : SnapshotFault) (filePath : Option String) : Failure :=
  { kind := .snapshot
    code := e.code
    message := e.message
    context := some (Failure.contextOf "filePath" filePath e.issues?) }

end SnapshotFault

namespace Snapshot

/-- The codebase, if its references lead somewhere and containment has no cycle. -/
def checkIntegrity (c : Codebase) : Except SnapshotFault Codebase :=
  if c.referenceIssues ≠ [] then .error (.dangling c.referenceIssues)
  else if c.containmentIssues ≠ [] then .error (.cyclic c.containmentIssues)
  else .ok c

/-- The codebase that a document describes. Without a document there is none. -/
def parse (v : Option Json) : Except SnapshotFault Codebase :=
  match Format.snapshot.validate v with
  | .error issues => .error (.malformed issues)
  | .ok document => checkIntegrity (Codebase.ofDocument document)

end Snapshot

end LeastAccess
