import LeastAccess.Level

/-!
# Resolutions

What the analysis finds out about one declaration. Only a resolved or a kept declaration has a level.
-/

namespace LeastAccess

/-- Why a declaration keeps its current level. -/
inductive KeepReason where
  | privateOrNative
  | synthetic
  | overrides
  | overridden
  | enumConstant
  | specialType
  | fixedContainer
  | frameworkSubclassed
  | entryPoint
  | unused
  deriving DecidableEq, Repr

namespace KeepReason

def name : KeepReason → String
  | .privateOrNative => "private-or-native"
  | .synthetic => "synthetic"
  | .overrides => "overrides"
  | .overridden => "overridden"
  | .enumConstant => "enum-constant"
  | .specialType => "special-type"
  | .fixedContainer => "fixed-container"
  | .frameworkSubclassed => "framework-subclassed"
  | .entryPoint => "entry-point"
  | .unused => "unused"

end KeepReason

/-- Why nothing can be said about a declaration. -/
inductive Obstacle where
  | missingModifiers
  | danglingContainer
  | providerFailure
  deriving DecidableEq, Repr

namespace Obstacle

def name : Obstacle → String
  | .missingModifiers => "missing-modifiers"
  | .danglingContainer => "dangling-container"
  | .providerFailure => "provider-failure"

end Obstacle

/-- What the analysis finds out about a declaration. -/
inductive Resolution where
  /-- The narrowest level, and how many usages it was joined from. -/
  | resolved (level : Level) (sitesVisited : Nat)
  /-- The current level stays. -/
  | kept (level : Level) (reason : KeepReason)
  /-- A constant that is not to be analysed. -/
  | excluded
  | unresolvable (obstacle : Obstacle)
  | cancelled
  deriving DecidableEq, Repr

namespace Resolution

/-- The level of a declaration that has one. -/
def level? : Resolution → Option Level
  | .resolved level _ => some level
  | .kept level _ => some level
  | _ => none

/-- The status in reports. -/
def status : Resolution → String
  | .resolved _ _ => "resolved"
  | .kept _ _ => "kept"
  | .excluded => "excluded"
  | .unresolvable _ => "unresolvable"
  | .cancelled => "cancelled"

/-- The reason in reports. -/
def reason? : Resolution → Option String
  | .kept _ reason => some reason.name
  | .excluded => some "constant"
  | .unresolvable obstacle => some obstacle.name
  | _ => none

def isCancelled : Resolution → Bool
  | .cancelled => true
  | _ => false

end Resolution

end LeastAccess
