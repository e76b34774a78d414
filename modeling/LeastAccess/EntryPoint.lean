import LeastAccess.Annotations
import LeastAccess.Graph.Basic

/-!
# Entry points

A declaration that is reached other than by references, for instance by a test runner, must not be
tightened below the floor of the rule that says so; a rule without a floor keeps the current level. Rules
can be combined: the combination covers what one of its parts covers. Its floor is the broadest floor of
the parts that cover the declaration, and it has none as soon as one of these has none.

Main statements: `coversAny_eq`, `floors_eq` (the two walks over the parts as list operations).
-/

namespace LeastAccess

/-- An annotation that marks entry points, with the floor it gives, if any. -/
structure EntryPointMarker where
  name : String
  minLevel : Option Level := none
  deriving DecidableEq

/-- A rule that says which declarations are entry points. -/
inductive EntryPointRule where
  /-- Declarations that carry one of some annotations. -/
  | annotated (annotations : List EntryPointMarker)
  /-- Static methods called `main` of top-level types. -/
  | mainMethods
  /-- One answer for every declaration. -/
  | fixed (covers : Bool) (floor : Option Level)
  /-- What one of some rules covers. -/
  | anyOf (rules : List EntryPointRule)

namespace EntryPointRule

/-- The name of a sort of rule. -/
def id : EntryPointRule → String
  | .annotated _ => "annotations"
  | .mainMethods => "main-methods"
  | .fixed _ _ => "fixed"
  | .anyOf _ => "composite"

/-- The annotations of a rule that a declaration carries. -/
def carried (annotations : List EntryPointMarker) (d : Declaration) :
    List EntryPointMarker :=
  annotations.filter fun a => Annotations.anyNamed d.annotations a.name

/-- A static method `main` whose container is a top-level type. -/
def isMainMethod (g : Graph) (d : Declaration) : Bool :=
  d.isMethod && d.name == "main" && d.isStatic &&
    match d.containerId with
    | none => false
    | some container => (g.find? container).any (·.containerId.isNone)

/-- The floor of several: the broadest one, and none if one is missing or there is none at all. -/
def joinFloors (floors : List (Option Level)) : Option Level :=
  if floors.any Option.isNone then none else Level.broadest? (floors.filterMap fun f => f)

mutual

/-- Whether a rule covers a declaration. -/
def covers (g : Graph) (d : Declaration) : EntryPointRule → Bool
  | .annotated annotations => !(carried annotations d).isEmpty
  | .mainMethods => isMainMethod g d
  | .fixed covers _ => covers
  | .anyOf rules => coversAny g d rules

/-- Whether one of some rules covers a declaration. -/
def coversAny (g : Graph) (d : Declaration) : List EntryPointRule → Bool
  | [] => false
  | rule :: rest => covers g d rule || coversAny g d rest

end

mutual

/-- The least level a rule leaves to a declaration; none where it keeps the current one. -/
def floor? (g : Graph) (d : Declaration) : EntryPointRule → Option Level
  | .annotated annotations => joinFloors ((carried annotations d).map (·.minLevel))
  | .mainMethods => none
  | .fixed _ floor => floor
  | .anyOf rules => joinFloors (floors g d rules)

/-- The floors of the rules that cover a declaration. -/
def floors (g : Graph) (d : Declaration) : List EntryPointRule → List (Option Level)
  | [] => []
  | rule :: rest => if covers g d rule then floor? g d rule :: floors g d rest else floors g d rest

end

theorem coversAny_eq (g : Graph) (d : Declaration) (rules : List EntryPointRule) :
    coversAny g d rules = rules.any (covers g d) := by
  induction rules with
  | nil => rfl
  | cons rule rest ih => rw [coversAny, ih, List.any_cons]

theorem floors_eq (g : Graph) (d : Declaration) (rules : List EntryPointRule) :
    floors g d rules = (rules.filter (covers g d)).map (floor? g d) := by
  induction rules with
  | nil => rfl
  | cons rule rest ih =>
    rw [floors, List.filter_cons]
    split <;> simp [ih]

end EntryPointRule

end LeastAccess
