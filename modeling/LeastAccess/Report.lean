import LeastAccess.Json.Basic
import LeastAccess.Resolution
import LeastAccess.Suggestion
import LeastAccess.Withdrawal

/-!
# Reports

A run produces findings: which declaration was resolved, and to what, in the order in which the resolutions
were completed. A report is a function of the graph and of the findings alone. Everything in it is either
listed in document order or does not depend on the order of the findings, as long as no two of them
concern the same declaration; of two that do, the later one counts.

Main statement: `containerLevels_append`.
-/

namespace LeastAccess

/-- The resolution of a declaration. -/
structure Finding where
  declaration : Declaration
  resolution : Resolution

namespace Finding

/-- What the type around the declaration must make room for: the level found, or the current one where
the resolution was cancelled. -/
def contribution? (f : Finding) : Option Level :=
  match f.resolution with
  | .cancelled => f.declaration.access?
  | r => r.level?

/-- Adds the contribution to the type around the declaration. -/
def contribute (levels : ContainerLevels) (f : Finding) : ContainerLevels :=
  match f.declaration.containerId, f.contribution? with
  | some container, some level => levels.accumulate container level
  | _, _ => levels

end Finding

/-- What was found, in the order of completion. -/
abbrev Findings := List Finding

namespace Findings

/-- The resolution of an id. -/
def resolutionOf? (fs : Findings) (id : String) : Option Resolution :=
  ((fs.filter (·.declaration.id == id)).getLast?).map (·.resolution)

/-- The level found for an id. -/
def levelOf? (fs : Findings) (id : String) : Option Level :=
  ((fs.filter (·.declaration.id == id)).filterMap (·.resolution.level?)).getLast?

/-- The levels that the findings contribute to each type directly. -/
def containerLevels (fs : Findings) : ContainerLevels := fs.foldl Finding.contribute .empty

theorem containerLevels_append (fs gs : Findings) :
    containerLevels (fs ++ gs) = gs.foldl Finding.contribute (containerLevels fs) :=
  List.foldl_append

/-- The ids that were resolved, each once. -/
def ids (fs : Findings) : List String := (fs.map (·.declaration.id)).eraseDups

/-- The resolutions that count. -/
def resolutions (fs : Findings) : List Resolution := fs.ids.filterMap fs.resolutionOf?

end Findings

/-- The figures of a run. -/
structure Stats where
  declarations : Nat
  resolved : Nat
  kept : Nat
  excluded : Nat
  unresolvable : Nat
  cancelled : Nat
  suggestions : Nat
  withdrawn : Nat
  deriving DecidableEq, Repr

namespace Stats

def ofResolutions (rs : List Resolution) (suggestions withdrawn : Nat) : Stats :=
  let count (status : String) : Nat := rs.countP (·.status == status)
  { declarations := rs.length
    resolved := count "resolved"
    kept := count "kept"
    excluded := count "excluded"
    unresolvable := count "unresolvable"
    cancelled := count "cancelled"
    suggestions
    withdrawn }

/-- The figures by name. -/
def toMembers (s : Stats) : List (String × Json) :=
  [("declarations", .nat s.declarations), ("resolved", .nat s.resolved), ("kept", .nat s.kept),
    ("excluded", .nat s.excluded), ("unresolvable", .nat s.unresolvable),
    ("cancelled", .nat s.cancelled), ("suggestions", .nat s.suggestions),
    ("withdrawn", .nat s.withdrawn)]

end Stats

/-- What a run answers. -/
structure Report where
  suggestions : List Suggestion
  /-- Types that could be narrowed, were it not for what they contain. -/
  withdrawn : List String
  cancelled : Bool
  stats : Stats
  findings : Findings

/-- The suggestion for a declaration, whether or not it is withdrawn. -/
def Findings.candidate? (fs : Findings) (d : Declaration) : Option Suggestion :=
  match d.access?, fs.levelOf? d.id with
  | some current, some level => if level < current then some (.ofDeclaration d current level) else none
  | _, _ => none

namespace Report

/-- The report on some findings. -/
def ofFindings (g : Graph) (cancelled : Bool) (fs : Findings) : Report :=
  let withdrawals := withdraw g fs.containerLevels fs.levelOf?
  let candidates := g.declarations.filterMap fs.candidate?
  let isWithdrawn (s : Suggestion) : Bool := withdrawals.withdrawn.contains s.declarationId
  let suggestions := candidates.filter (!isWithdrawn ·)
  let withdrawn := (candidates.filter isWithdrawn).map (·.declarationId)
  { suggestions, withdrawn, cancelled
    stats := .ofResolutions fs.resolutions suggestions.length withdrawn.length
    findings := fs }

end Report

end LeastAccess
