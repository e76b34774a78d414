import LeastAccess.Declaration

/-!
# Suggestions

A declaration whose level can be narrowed, with the edit of its modifiers that does it.
-/

namespace LeastAccess

/-- A narrower level for a declaration. -/
structure Suggestion where
  declarationId : String
  name : String
  current : Level
  suggested : Level
  deriving DecidableEq, Repr

namespace Suggestion

def ofDeclaration (d : Declaration) (current suggested : Level) : Suggestion :=
  { declarationId := d.id, name := d.name, current, suggested }

def message (s : Suggestion) : String := "Access can be " ++ s.suggested.presentable

/-- The modifier to take away. -/
def removes (s : Suggestion) : Option String := s.current.keyword?

/-- The modifier to add. -/
def adds (s : Suggestion) : Option String := s.suggested.keyword?

end Suggestion

end LeastAccess
