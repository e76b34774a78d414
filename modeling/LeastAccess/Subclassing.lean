import LeastAccess.Annotations
import LeastAccess.Graph.Basic

/-!
# Subclassing by frameworks

A framework that subclasses a type at run time relies on the methods it overrides. A rule names the
annotation that makes it subclass a type, and either forces every method of the type or those that carry
one of some annotations. Forced methods keep their level.
-/

namespace LeastAccess

/-- When a framework subclasses a type, and which methods it then overrides. -/
structure SubclassingRule where
  marker : String
  /-- Without a list every method is overridden. -/
  methodAnnotations : Option (List String) := none
  deriving DecidableEq

/-- The members that a rule forces. -/
inductive ForcedMembers where
  | all
  | some (ids : List String)
  deriving DecidableEq

namespace ForcedMembers

/-- Whether a member is among them. -/
def includes : ForcedMembers → String → Bool
  | .all, _ => true
  | .some ids, id => ids.contains id

end ForcedMembers

namespace SubclassingRule

/-- The name of a rule. -/
def id (r : SubclassingRule) : String := "subclassed-by:" ++ r.marker

/-- Whether the framework subclasses a type. -/
def appliesTo (r : SubclassingRule) (d : Declaration) : Bool :=
  d.isType && Annotations.anyNamed d.annotations r.marker

/-- Whether a method carries one of the annotations the framework intercepts. -/
def intercepts (annotations : List String) (d : Declaration) : Bool :=
  d.isMethod && annotations.any (Annotations.anyNamed d.annotations)

/-- The members of a type that the framework overrides, if there are any. -/
def forcedMembers (r : SubclassingRule) (g : Graph) (container : Declaration) :
    Option ForcedMembers :=
  match r.methodAnnotations with
  | none => some .all
  | some annotations =>
    match ((g.membersOf container.id).filter (intercepts annotations)).map (·.id) with
    | [] => none
    | ids => some (.some ids.eraseDups)

/-- Whether the framework subclasses a type and thereby forces a member of it. -/
def forces (r : SubclassingRule) (g : Graph) (container : Declaration) (memberId : String) : Bool :=
  r.appliesTo container && (r.forcedMembers g container).any (·.includes memberId)

end SubclassingRule

end LeastAccess
