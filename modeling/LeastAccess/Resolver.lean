import LeastAccess.Codebase
import LeastAccess.EntryPoint
import LeastAccess.Requirement
import LeastAccess.Resolution
import LeastAccess.Scan
import LeastAccess.Subclassing

/-!
# Resolving a declaration

`screen` decides what can be decided without looking at usages: a declaration without modifiers or with an
unknown container, a constant that is not wanted, everything that must keep its level. What is left is
scanned from a floor, and `conclude` turns the scans into a resolution. A failure of the index comes first,
then a cancellation. A declaration without any usage that is no entry point is left alone, and a
declaration outside every type cannot be private.

`resolve` also answers what happened on the way, as events in order.
-/

namespace LeastAccess

/-- How it is analysed. -/
structure Policy where
  entryPoints : List EntryPointRule := []
  subclassing : List SubclassingRule := []
  options : Options := {}

namespace Policy

/-- The entry point rules as one rule. -/
def entryPoint (p : Policy) : EntryPointRule := .anyOf p.entryPoints

/-- The first rule by which a framework overrides a member of a type. -/
def forcingRule? (p : Policy) (g : Graph) (member container : Declaration) : Option SubclassingRule :=
  p.subclassing.find? (·.forces g container member.id)

end Policy

/-! ## What needs no usages -/

/-- Whether the members of a type cannot take another level. -/
def Declaration.fixesMembers (container : Declaration) : Bool :=
  container.typeKind.any TypeKind.fixesMembers || container.isLocal

/-- Why a declaration keeps its level for what it is, without regard to where it is. -/
def ownKeepReason? (d : Declaration) (m : Modifiers) : Option KeepReason :=
  if m.isPrivate || m.isNative then some .privateOrNative
  else if d.isSynthetic || !d.isPhysical then some .synthetic
  else if d.isMethod && d.hasSuperSignature then some .overrides
  else if d.isMethod && d.isOverridden then some .overridden
  else if d.kind == .enumConstant then some .enumConstant
  else if d.isType && (d.isAnonymous || d.isLocal || d.isTypeParameter) then some .specialType
  else none

/-- Why a declaration keeps its level for the type it is in. -/
def containerKeepReason? (g : Graph) (p : Policy) (d container : Declaration) : Option KeepReason :=
  if container.fixesMembers then some .fixedContainer
  else if d.isMethod && (p.forcingRule? g d container).isSome then some .frameworkSubclassed
  else none

/-- Why a declaration keeps its level whatever its usages. -/
def keepReason? (g : Graph) (p : Policy) (d : Declaration) (m : Modifiers)
    (container : Option Declaration) : Option KeepReason :=
  (ownKeepReason? d m).or (container.bind (containerKeepReason? g p d))

/-- The floor of a scan: none for a declaration that is no entry point. -/
inductive Screening where
  | settled (resolution : Resolution)
  | scan (access : Level) (container : Option Declaration) (floor : Option Level)

/-- Looks at a declaration with modifiers whose container is known. -/
def screenIn (g : Graph) (p : Policy) (d : Declaration) (m : Modifiers)
    (container : Option Declaration) : Screening :=
  match keepReason? g p d m container with
  | some reason => .settled (.kept m.access reason)
  | none =>
    if p.entryPoint.covers g d then
      match p.entryPoint.floor? g d with
      | none => .settled (.kept m.access .entryPoint)
      | some floor => .scan m.access container (some floor)
    else .scan m.access container none

/-- Looks at a declaration before its usages. -/
def screen (g : Graph) (p : Policy) (d : Declaration) : Screening :=
  match d.modifiers with
  | none => .settled (.unresolvable .missingModifiers)
  | some m =>
    if !p.options.constants && d.isConstant m then .settled .excluded
    else
      match d.containerId with
      | none => screenIn g p d m none
      | some id =>
        match g.find? id with
        | none => .settled (.unresolvable .danglingContainer)
        | some container => screenIn g p d m (some container)

/-! ## The scan -/

/-- The level that a usage site requires; what a descriptor names has to be public. -/
def siteLevel (g : Graph) (o : Options) (member : Declaration) (container : Option Declaration)
    (site : UsageSite) : Level :=
  if site.isDescriptor then .pub else requiredLevel g o site member container

/-- The level to suggest: outside every type there is no private access. -/
def effectiveLevel (o : Options) (d : Declaration) (container : Option Declaration) (joined : Level) :
    Level :=
  if joined = .priv && container.isNone then o.packageLocal d else joined

/-- The resolution after the scans. -/
def conclude (o : Options) (d : Declaration) (access : Level) (container : Option Declaration)
    (isEntryPoint : Bool) (scans : Scans) : Resolution :=
  let accumulator := scans.tally.accumulator
  if scans.hasFailed then .unresolvable .providerFailure
  else if scans.feed.token.isCancelled then .cancelled
  else if !accumulator.foundUsage && !isEntryPoint then .kept access .unused
  else .resolved (effectiveLevel o d container accumulator.level) accumulator.sitesVisited

/-- The sites of a functional type's second scan; other declarations have no second scan. -/
def Codebase.functionalSites? (c : Codebase) (d : Declaration) : Option (List UsageSite) :=
  if d.isType && d.isFunctional then some (c.usages.sites .functional d.id) else none

theorem Codebase.functionalSites?_eq_none_iff {c : Codebase} {d : Declaration} :
    c.functionalSites? d = none ↔ (d.isType && d.isFunctional) = false := by
  simp [functionalSites?]

theorem Codebase.getD_functionalSites? (c : Codebase) (d : Declaration) : (c.functionalSites? d).getD [] =
    if d.isType && d.isFunctional then c.usages.sites .functional d.id else [] := by
  unfold functionalSites?
  split <;> rfl

/-- The scans of a declaration before their first move. -/
def Codebase.scansOf (c : Codebase) (d : Declaration) (floor : Option Level) (feed : Feed) : Scans :=
  .start (c.usages.sites .ordinary d.id) (c.functionalSites? d) (floor.getD .priv) feed

/-- What the scans of a declaration go by. -/
def Codebase.inquiry (c : Codebase) (o : Options) (x : Disturbance) (d : Declaration)
    (container : Option Declaration) : Inquiry where
  declarationId := d.id
  judge := siteLevel c.graph o d container
  disturbance := x

/-! ## Events -/

/-- What happens while a declaration is resolved. -/
inductive ResolverEvent where
  | visited (visit : Visit)
  | indexFailed (complaint : String)
  | forced (rule : SubclassingRule)
  | keeps (reason : KeepReason)
  | effective (level : Level) (sites : Nat)

/-- The events that end a resolution. -/
def closingEvents (g : Graph) (p : Policy) (x : Disturbance) (d : Declaration) :
    Resolution → List ResolverEvent
  | .resolved level sites => [.effective level sites]
  | .kept _ reason =>
    let forced := match reason, d.containerId.bind g.find? with
      | .frameworkSubclassed, some container => (p.forcingRule? g d container).toList.map .forced
      | _, _ => []
    forced ++ [.keeps reason]
  | .unresolvable .providerFailure => [.indexFailed x.complaint]
  | _ => []

/-- A resolution, with what it leaves to the run, what happened, and how many turns it took. -/
structure Outcome where
  resolution : Resolution
  feed : Feed
  events : List ResolverEvent
  turns : Nat

/-- The turns of a declaration whose usages are not looked at: one, in which it is passed on. -/
def turnsWithoutScan : Nat := 1

/-- The turns of a declaration with scans: when both have stopped, two turns pass until this is known. -/
def turnsWithScans (scans : Scans) : Nat := scans.turns + 2 + turnsWithoutScan

/-- Resolves one declaration. -/
def resolve (c : Codebase) (p : Policy) (x : Disturbance) (d : Declaration) (feed : Feed) : Outcome :=
  match screen c.graph p d with
  | .settled resolution =>
    ⟨resolution, feed, closingEvents c.graph p x d resolution, turnsWithoutScan⟩
  | .scan access container floor =>
    let scans := (c.scansOf d floor feed).run (c.inquiry p.options x d container)
    let resolution := conclude p.options d access container floor.isSome scans
    ⟨resolution, scans.feed,
      scans.tally.visits.map .visited ++ closingEvents c.graph p x d resolution, turnsWithScans scans⟩

end LeastAccess
