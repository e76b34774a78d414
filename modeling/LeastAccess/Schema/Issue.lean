import LeastAccess.Json.Basic

/-!
# Issues

What a document does wrong, and where. A place is a path of keys and positions from the root. Some faults
leave a value that can be used further, for instance a text that is too short; others leave none.
-/

namespace LeastAccess

/-- One step from a document into a part of it. -/
inductive PathStep where
  | key (name : String)
  | index (n : Nat)
  deriving DecidableEq, Repr

namespace PathStep

def text : PathStep → String
  | .key name => name
  | .index n => toString n

end PathStep

/-- What is wrong with a part of a document. -/
inductive Fault where
  | missing
  | wrongKind (expected received : String)
  /-- Something else where one of some words belongs. -/
  | notAWord (options : List String) (received : String)
  | unknownWord (options : List String) (received : String)
  | notThe (value : String)
  | emptyText
  | notWhole
  | notPositive
  | negative
  | unknownVariant (options : List String)
  | refused (message : String)
  deriving DecidableEq, Repr

namespace Fault

/-- Words in quotes, with bars between them. -/
def alternatives (options : List String) : String :=
  " | ".intercalate (options.map fun s => "'" ++ s ++ "'")

def message : Fault → String
  | .missing => "Required"
  | .wrongKind expected received => "Expected " ++ expected ++ ", received " ++ received
  | .notAWord options received => "Expected " ++ alternatives options ++ ", received " ++ received
  | .unknownWord options received =>
    "Invalid enum value. Expected " ++ alternatives options ++ ", received '" ++ received ++ "'"
  | .notThe value => "Invalid literal value, expected " ++ value
  | .emptyText => "String must contain at least 1 character(s)"
  | .notWhole => "Expected integer, received float"
  | .notPositive => "Number must be greater than 0"
  | .negative => "Number must be greater than or equal to 0"
  | .unknownVariant options => "Invalid discriminator value. Expected " ++ alternatives options
  | .refused message => message

end Fault

/-- A fault at a place. -/
structure Issue where
  path : List PathStep
  fault : Fault
  deriving DecidableEq, Repr

namespace Issue

/-- An issue at the root. -/
def here (fault : Fault) : Issue := ⟨[], fault⟩

/-- The issue of a part as an issue of the whole. -/
def under (step : PathStep) (i : Issue) : Issue := { i with path := step :: i.path }

/-- The place and the message; a place without a name is left out. -/
def text (i : Issue) : String :=
  let place := ".".intercalate (i.path.map PathStep.text)
  if place.isEmpty then i.fault.message else place ++ ": " ++ i.fault.message

end Issue

end LeastAccess
