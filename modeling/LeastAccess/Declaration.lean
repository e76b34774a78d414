import LeastAccess.Level

/-!
# Declarations

What a front end says about one declaration of a program: what it is, where it is declared, its modifiers
and the facts about overriding that the analysis needs. A declaration without modifiers has no known
current level.
-/

namespace LeastAccess

/-- What is declared. -/
inductive DeclarationKind where
  | type
  | method
  | field
  | enumConstant
  deriving DecidableEq, Repr

namespace DeclarationKind

def name : DeclarationKind → String
  | .type => "type"
  | .method => "method"
  | .field => "field"
  | .enumConstant => "enum-constant"

def all : List DeclarationKind := [.type, .method, .field, .enumConstant]

def ofName? (s : String) : Option DeclarationKind := all.find? (·.name == s)

@[simp] theorem ofName?_name (k : DeclarationKind) : ofName? k.name = some k := by
  cases k <;> decide

end DeclarationKind

/-- What sort of type a type is. -/
inductive TypeKind where
  | cls
  | interface
  | enum
  | annotationType
  deriving DecidableEq, Repr

namespace TypeKind

def name : TypeKind → String
  | .cls => "class"
  | .interface => "interface"
  | .enum => "enum"
  | .annotationType => "annotation"

def all : List TypeKind := [.cls, .interface, .enum, .annotationType]

def ofName? (s : String) : Option TypeKind := all.find? (·.name == s)

@[simp] theorem ofName?_name (k : TypeKind) : ofName? k.name = some k := by cases k <;> decide

/-- The members of a class can take any level; those of the other types cannot. -/
def fixesMembers : TypeKind → Bool
  | .cls => false
  | _ => true

end TypeKind

/-- The modifier list of a declaration. `access` is the current level. -/
structure Modifiers where
  access : Level
  isPrivate : Bool := false
  isNative : Bool := false
  isStatic : Bool := false
  isFinal : Bool := false
  isAbstract : Bool := false
  hasInitializer : Bool := false
  deriving DecidableEq, Repr

/-- A declaration of the analysed program. -/
structure Declaration where
  id : String
  name : String
  kind : DeclarationKind
  /-- Only types have one. -/
  typeKind : Option TypeKind := none
  /-- Empty for the default package. -/
  packageName : String := ""
  /-- The type around the declaration; a top-level type has none. -/
  containerId : Option String := none
  modifiers : Option Modifiers := none
  annotations : List String := []
  isSynthetic : Bool := false
  isPhysical : Bool := true
  isConstructor : Bool := false
  isAnonymous : Bool := false
  isLocal : Bool := false
  isTypeParameter : Bool := false
  /-- A type that a lambda can stand for. -/
  isFunctional : Bool := false
  superTypeIds : List String := []
  hasSuperSignature : Bool := false
  isOverridden : Bool := false
  deriving DecidableEq, Repr

namespace Declaration

/-- The current level. -/
def access? (d : Declaration) : Option Level := d.modifiers.map (·.access)

def isType (d : Declaration) : Bool := d.kind == .type

def isMethod (d : Declaration) : Bool := d.kind == .method

def isStatic (d : Declaration) : Bool := d.modifiers.any (·.isStatic)

def isAbstract (d : Declaration) : Bool := d.modifiers.any (·.isAbstract)

/-- A type that no type contains and that is declared outside every method. -/
def isTopLevelType (d : Declaration) : Bool :=
  d.isType && d.containerId.isNone && !d.isLocal && !d.isAnonymous

/-- A type inside another one. -/
def isInnerType (d : Declaration) : Bool := d.containerId.isSome || d.isAnonymous

/-- A static final field with an initializer. -/
def isConstant (d : Declaration) (m : Modifiers) : Bool :=
  d.kind == .field && m.isStatic && m.isFinal && m.hasInitializer

end Declaration

end LeastAccess
