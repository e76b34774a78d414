import LeastAccess.Analysis
import LeastAccess.Logging

/-!
# The journal of a run

Events as log entries: a severity, named fields and a message. A journal can be bound to further fields,
which are then part of the entries of the resolver.
-/

namespace LeastAccess

/-- An entry of a journal. -/
structure LogEntry where
  severity : Severity
  fields : List (String × Json)
  message : String

namespace Journal

/-- The entry of an event while a declaration is resolved. -/
def resolverEntry (d : Declaration) (event : ResolverEvent) : LogEntry :=
  let declaration := ("declaration", Json.text d.id)
  match event with
  | .visited ⟨site, level⟩ =>
    match site.origin with
    | .descriptor file => ⟨.trace, [declaration, ("file", .text file)], "referenced from descriptor"⟩
    | .source =>
      ⟨.trace, [declaration, ("file", .text site.file), ("line", .number site.line)],
        "ref level = " ++ level.presentable⟩
  | .indexFailed complaint => ⟨.warn, [("err", .text complaint), declaration], "usage scan failed"⟩
  | .forced rule => ⟨.trace, [declaration, ("provider", .text rule.id)], "subclassed by framework"⟩
  | .keeps reason =>
    ⟨.trace, [declaration, ("reason", .text reason.name)], d.name ++ ": keeps current level"⟩
  | .effective level sites =>
    ⟨.trace, [declaration, ("sites", .nat sites)],
      d.name ++ ": effective level is '" ++ level.presentable ++ "'"⟩

/-- The entry of an event of a run; `bound` are the fields that the resolver's entries carry. -/
def entry (bound : List (String × Json)) : Analysis.Event → LogEntry
  | .started declarations concurrency =>
    ⟨.debug, [("declarations", .nat declarations), ("concurrency", .number concurrency)],
      "Resolving declarations"⟩
  | .resolving d event =>
    let e := resolverEntry d event
    { e with fields := bound ++ e.fields }
  | .withdrew id => ⟨.debug, [("declaration", .text id)], "suggestion withdrawn by member levels"⟩
  | .completed stats => ⟨.info, stats.toMembers, "Visibility analysis complete"⟩
  | .stopped stats reason =>
    ⟨.warn, stats.toMembers ++ reason.toList.map fun r => ("reason", .text r),
      "Visibility analysis cancelled"⟩

end Journal

end LeastAccess
