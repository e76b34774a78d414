/-!
# Annotation names

An annotation is named with or without a leading `@`, by its qualified or its simple name. Two qualified
names must be equal; a simple name on either side matches by the simple name alone.
-/

namespace LeastAccess.Annotations

/-- The name without one leading `@`. -/
def stripAt : List Char → List Char
  | '@' :: rest => rest
  | cs => cs

/-- What follows the last point. -/
def afterLastPoint (cs : List Char) : List Char := (cs.reverse.takeWhile (· != '.')).reverse

/-- The simple name of an annotation. -/
def simpleName (name : String) : String := String.ofList (afterLastPoint (stripAt name.toList))

/-- Whether two names, without their `@`, mean the same annotation. -/
def sameName (a b : List Char) : Bool :=
  a == b ||
    (!(a.contains '.' && b.contains '.') &&
      afterLastPoint (stripAt a) == afterLastPoint (stripAt b))

/-- Whether an annotation as it stands in the program is one that was asked for. -/
def isNamed (actual wanted : String) : Bool :=
  sameName (stripAt actual.toList) (stripAt wanted.toList)

/-- Whether one of the annotations of a declaration is the wanted one. -/
def anyNamed (annotations : List String) (wanted : String) : Bool :=
  annotations.any (isNamed · wanted)

end LeastAccess.Annotations
