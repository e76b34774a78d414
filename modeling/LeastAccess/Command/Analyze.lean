import LeastAccess.Command.Transcript
import LeastAccess.Config.Loading
import LeastAccess.Snapshot.File

/-!
# Analysing a snapshot file

Loads the configuration, then the snapshot, analyses it, and prints the report for a reader or as a
document. Only the report for a reader comes with lines about the progress.
-/

namespace LeastAccess

namespace Suggestion

/-- The suggestion in a document, with levels written in some way. -/
def toJson (s : Suggestion) (level : Level → Json) : Json :=
  .object
    [("declarationId", .text s.declarationId), ("name", .text s.name), ("current", level s.current),
      ("suggested", level s.suggested), ("message", .text s.message),
      ("rewrite", .object [("remove", .textOrNull s.removes), ("add", .textOrNull s.adds)])]

end Suggestion

namespace Report

/-- The report as a document. -/
def toJson (r : Report) (milliseconds : Nat) : Json :=
  .object
    [("cancelled", .bool r.cancelled),
      ("stats", .object (r.stats.toMembers ++ [("durationMs", .nat milliseconds)])),
      ("withdrawn", .list (r.withdrawn.map .text)),
      ("suggestions", .list (r.suggestions.map (·.toJson fun l => .text l.presentable)))]

/-- The suggestions for a reader. -/
def suggestionLines (r : Report) : List String :=
  if r.suggestions.isEmpty then ["\nNo access levels can be tightened."]
  else
    "" :: r.suggestions.flatMap fun s =>
      ["  " ++ s.declarationId ++ " " ++ s.current.presentable ++ " -> " ++ s.suggested.presentable,
        "    " ++ s.message]

/-- The figures for a reader. What was skipped is mentioned only if there is any. -/
def summaryLines (r : Report) (milliseconds : Nat) : List String :=
  let s := r.stats
  let skipped :=
    if 0 < s.excluded + s.unresolvable + s.cancelled then
      ["  Skipped:      " ++ toString s.excluded ++ " excluded, " ++ toString s.unresolvable ++
        " unresolvable, " ++ toString s.cancelled ++ " cancelled"]
    else []
  ["", "Summary:",
    "  Suggestions:  " ++ toString s.suggestions,
    "  Withdrawn:    " ++ toString s.withdrawn,
    "  Resolved:     " ++ toString s.resolved,
    "  Kept:         " ++ toString s.kept] ++ skipped ++
    ["  Duration:     " ++ toString milliseconds ++ "ms"]

/-- The report for a reader. -/
def lines (r : Report) (milliseconds : Nat) : List String :=
  r.suggestionLines ++ r.summaryLines milliseconds

end Report

namespace Command

/-- How to analyse and what to print. -/
structure AnalyzeOptions where
  /-- The configuration file. -/
  config : Option String := none
  /-- Whether to print a document. -/
  json : Bool := false
  /-- The number of workers, instead of the configured one. -/
  concurrency : Option Binary64 := none

/-- The line before the analysis. -/
def startLine : String := "- Resolving declarations..."

/-- The line after an analysis. -/
def endLine (r : Report) : String :=
  if r.cancelled then "⚠ Analysis cancelled; showing completed declarations only"
  else "✔ Analyzed " ++ toString r.stats.declarations ++ " declarations"

/-- The line after an analysis that could not be set up. -/
def failureLine : String := "✖ Analysis failed"

/-- What is printed about a report. -/
def present (json : Bool) (r : Report) (milliseconds : Nat) : Transcript :=
  if json then { out := [(r.toJson milliseconds).pretty] }
  else { out := r.lines milliseconds, progress := [startLine, endLine r] }

/-- What is printed if the analysis cannot be set up. -/
def presentFailure (json : Bool) (e : AnalysisError) : Transcript :=
  { progress := if json then [] else [startLine, failureLine]
    problem? := some (.failure e.toFailure) }

variable {m : Type → Type} [Monad m]

/-- Analyses a snapshot file; the clock counts milliseconds. -/
def analyze (fs : FileSystem m) (clock : m Nat) (snapshot : String) (o : AnalyzeOptions)
    (token : Token) : m Transcript := do
  match ← Config.load fs o.config with
  | .error f => return .failed f
  | .ok config =>
    let config := { config with concurrency := o.concurrency.getD config.concurrency }
    match ← Snapshot.load fs (Path.resolve fs.workingDirectory snapshot) with
    | .error f => return .failed f
    | .ok codebase =>
      let started ← clock
      match config.analyze codebase .none { token } with
      | .error e => return presentFailure o.json e
      | .ok run => return present o.json run.report ((← clock) - started)

end Command

end LeastAccess
