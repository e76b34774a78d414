import LeastAccess.Codebase
import LeastAccess.Graph.Containment

/-!
# The integrity of a snapshot

A snapshot that has the right form can still be inconsistent. `Codebase.referenceIssues` lists, in document
order, the ids that were declared before, the containers that are unknown or are no types, and the usages of
unknown declarations or in unknown types. Where there are none, `Codebase.containmentIssues` lists the
declarations whose chain of containers never ends.
-/

namespace LeastAccess

namespace UsageSection

/-- The key of a section in a snapshot. -/
def key : UsageSection → String
  | .ordinary => "usages"
  | .functional => "functionalUsages"

end UsageSection

/-- A reference in a snapshot that leads nowhere, or an id that is not unique. -/
inductive ReferenceIssue where
  | duplicateId (id : String)
  | unknownContainer (id container : String)
  | containerIsNoType (id container : String)
  | unknownDeclaration (part : UsageSection) (id : String)
  | unknownEnclosingType (part : UsageSection) (id : String) (position : Nat) (typeId : String)
  deriving DecidableEq, Repr

namespace ReferenceIssue

def text : ReferenceIssue → String
  | .duplicateId id => "declarations: duplicate id '" ++ id ++ "'"
  | .unknownContainer id container => id ++ ": unknown container '" ++ container ++ "'"
  | .containerIsNoType id container => id ++ ": container '" ++ container ++ "' is not a type"
  | .unknownDeclaration part id => part.key ++ ": unknown declaration '" ++ id ++ "'"
  | .unknownEnclosingType part id position typeId =>
    part.key ++ "." ++ id ++ "[" ++ toString position ++ "]: unknown enclosing type '" ++ typeId ++ "'"

end ReferenceIssue

/-- A declaration whose chain of containers runs into a cycle, and where it enters the cycle. -/
structure CycleIssue where
  id : String
  entry : String
  deriving DecidableEq, Repr

namespace CycleIssue

def text (i : CycleIssue) : String := i.id ++ ": containment cycle through '" ++ i.entry ++ "'"

end CycleIssue

/-- The first item that occurred before, or is among those seen. -/
def firstRepeat (seen : List String) : List String → Option String
  | [] => none
  | x :: rest => if seen.contains x then some x else firstRepeat (x :: seen) rest

namespace Graph

/-- The ids of declarations that were declared before. -/
def duplicateIds (seen : List String) : List Declaration → List ReferenceIssue
  | [] => []
  | d :: rest =>
    (if seen.contains d.id then [.duplicateId d.id] else []) ++ duplicateIds (d.id :: seen) rest

/-- What is wrong with the container of a declaration. -/
def containerIssue? (g : Graph) (d : Declaration) : Option ReferenceIssue :=
  match d.containerId with
  | none => none
  | some id =>
    match g.find? id with
    | none => some (.unknownContainer d.id id)
    | some container => if container.isType then none else some (.containerIsNoType d.id id)

/-- Whether an id is that of a type. -/
def declaresType (g : Graph) (id : String) : Bool := (g.find? id).any (·.isType)

/-- What is wrong with the type around a usage site. -/
def siteIssue? (g : Graph) (part : UsageSection) (id : String) (position : Nat) (site : UsageSite) :
    Option ReferenceIssue :=
  match site.enclosingTypeId with
  | none => none
  | some typeId =>
    if g.declaresType typeId then none else some (.unknownEnclosingType part id position typeId)

/-- What is wrong with the usages of one id. -/
def entryIssues (g : Graph) (part : UsageSection) (entry : String × List UsageSite) :
    List ReferenceIssue :=
  (if (g.find? entry.1).isNone then [.unknownDeclaration part entry.1] else []) ++
    entry.2.zipIdx.filterMap fun (site, position) => g.siteIssue? part entry.1 position site

/-- Where the chain of containers of a declaration enters a cycle. Every step of a chain stays within the
declared ids, so a chain that is longer than there are declarations repeats one of them. -/
def cycleEntry? (g : Graph) (id : String) : Option String := firstRepeat [] (g.chain id)

end Graph

namespace Codebase

/-- The references that lead nowhere. -/
def referenceIssues (c : Codebase) : List ReferenceIssue :=
  Graph.duplicateIds [] c.graph.declarations ++
    c.graph.declarations.filterMap c.graph.containerIssue? ++
    c.usages.ordinary.flatMap (c.graph.entryIssues .ordinary) ++
    c.usages.functional.flatMap (c.graph.entryIssues .functional)

/-- The declarations whose chain of containers never ends. -/
def containmentIssues (c : Codebase) : List CycleIssue :=
  c.graph.declarations.filterMap fun d => (c.graph.cycleEntry? d.id).map fun entry => ⟨d.id, entry⟩

end Codebase

end LeastAccess
