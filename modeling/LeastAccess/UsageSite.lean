import LeastAccess.Binary64.Basic

/-!
# Usage sites

One place in the analysed program that refers to a declaration.
-/

namespace LeastAccess

/-- How a reference is qualified. An expression has a static type, unless that is unknown. -/
inductive Qualifier where
  | none
  | this
  | super
  | expression (typeId : Option String)
  deriving DecidableEq

namespace Qualifier

def isExpression : Qualifier → Bool
  | .expression _ => true
  | _ => false

/-- The static type of an expression qualifier. -/
def typeId? : Qualifier → Option String
  | .expression typeId => typeId
  | _ => Option.none

def name : Qualifier → String
  | .none => "none"
  | .this => "this"
  | .super => "super"
  | .expression _ => "expression"

end Qualifier

/-- Where in its type a reference stands. -/
inductive SiteContext where
  | normal
  | referenceList
  | annotationArgument
  deriving DecidableEq

namespace SiteContext

def name : SiteContext → String
  | .normal => "normal"
  | .referenceList => "reference-list"
  | .annotationArgument => "annotation-argument"

def all : List SiteContext := [.normal, .referenceList, .annotationArgument]

def ofName? (s : String) : Option SiteContext := all.find? (·.name == s)

@[simp] theorem ofName?_name (c : SiteContext) : ofName? c.name = some c := by cases c <;> decide

end SiteContext

/-- What kind of file a reference comes from. A descriptor, such as a configuration file, reaches
public declarations only. -/
inductive Origin where
  | source
  | descriptor (file : String)
  deriving DecidableEq

/-- A reference to a declaration. -/
structure UsageSite where
  origin : Origin := .source
  file : String
  line : Binary64 := .zero
  /-- The package of the file. -/
  packageName : String := ""
  /-- The innermost type around the reference. -/
  enclosingTypeId : Option String := none
  qualifier : Qualifier := .none
  context : SiteContext := .normal
  /-- The creation of an instance, or a call of another constructor. -/
  isConstructorCall : Bool := false
  /-- Whether the front end knows what the reference refers to. -/
  resolved : Bool := true
  deriving DecidableEq

namespace UsageSite

/-- Whether the reference comes from a descriptor. -/
def isDescriptor (s : UsageSite) : Bool :=
  match s.origin with
  | .descriptor _ => true
  | .source => false

end UsageSite

end LeastAccess
