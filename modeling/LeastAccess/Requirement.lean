import LeastAccess.Graph.Containment
import LeastAccess.Graph.Inheritance
import LeastAccess.Options
import LeastAccess.UsageSite

/-!
# The level that one usage requires

`requiredLevel` is the narrowest level at which one usage site still reaches a declaration. The rules, in
order:

1. A reference that the front end could not resolve proves nothing, so the level is public.
2. A reference from the nest of the declaring type can use private access. Package access is needed
   in reference lists and annotation arguments, for abstract members, for calls on an instance of a
   subtype, and in nested types unless the options allow more.
3. A reference from the same package, unqualified or through a type of that package, needs package access.
4. Any other explicit qualifier needs public access.
5. A reference from a strict subtype needs protected access, unless it calls a constructor.
6. Everything else needs public access.
-/

namespace LeastAccess

namespace UsageSite

/-- The type around the reference, if it is declared. -/
def enclosing? (g : Graph) (s : UsageSite) : Option Declaration := s.enclosingTypeId.bind g.find?

/-- The package of an expression qualifier's type, if that is declared. -/
def qualifierPackage? (g : Graph) (s : UsageSite) : Option String :=
  (s.qualifier.typeId?.bind g.find?).map (·.packageName)

/-- Whether the qualifier's static type is a strict subtype of the declaring type. -/
def isOnSubtype (g : Graph) (s : UsageSite) (container : Declaration) : Bool :=
  s.qualifier.typeId?.any (g.inherits · container.id)

/-- Whether the reference stands in the package of a declaration and is not qualified by a type of
another package. -/
def isInPackageOf (g : Graph) (s : UsageSite) (member : Declaration) : Bool :=
  s.packageName == member.packageName &&
    (!s.qualifier.isExpression || s.qualifierPackage? g == some s.packageName)

end UsageSite

/-- Whether code in one type is in the nest of the declaring type: it encloses that type, or lies in it
without being static. -/
def isLocalAccess (g : Graph) (enclosing container : Declaration) : Bool :=
  g.encloses enclosing.id container.id ||
    (!enclosing.isStatic && g.encloses container.id enclosing.id)

namespace UsageSite

/-- Whether the reference stands in the nest of the declaring type. -/
def isInNest (g : Graph) (s : UsageSite) (container : Declaration) : Bool :=
  (s.enclosing? g).any (isLocalAccess g · container)

/-- Whether the reference stands in a strict subtype of the declaring type and calls no constructor. -/
def isInSubtype (g : Graph) (s : UsageSite) (container : Declaration) : Bool :=
  (s.enclosing? g).any fun enclosing => g.inherits enclosing.id container.id && !s.isConstructorCall

end UsageSite

/-- The level that a reference from the nest of the declaring type requires. -/
def localLevel (g : Graph) (o : Options) (site : UsageSite) (member container : Declaration) : Level :=
  if site.context ≠ .normal then o.packageLocal member
  else if member.isAbstract || site.isOnSubtype g container then o.packageLocal member
  else if !o.privateForInners && container.isInnerType then o.packageLocal member
  else .priv

/-- The level that a reference from outside the nest requires. -/
def outsideLevel (g : Graph) (o : Options) (site : UsageSite) (member : Declaration)
    (container : Option Declaration) : Level :=
  if site.isInPackageOf g member then o.packageLocal member
  else if site.qualifier.isExpression then .pub
  else if container.any (site.isInSubtype g) then .prot
  else .pub

/-- The narrowest level at which a usage site reaches a member of a type; top-level declarations have no
such type. -/
def requiredLevel (g : Graph) (o : Options) (site : UsageSite) (member : Declaration)
    (container : Option Declaration) : Level :=
  if !site.resolved then .pub
  else
    match container with
    | some type =>
      if site.isInNest g type then localLevel g o site member type
      else outsideLevel g o site member container
    | none => outsideLevel g o site member none

theorem pkg_le_outsideLevel (g : Graph) (o : Options) (site : UsageSite) (member : Declaration)
    (container : Option Declaration) : Level.pkg ≤ outsideLevel g o site member container := by
  unfold outsideLevel
  split
  · exact o.pkg_le_packageLocal member
  · split
    · decide
    · split <;> decide

end LeastAccess
