import LeastAccess.Graph.Basic
import LeastAccess.UsageIndex

/-!
# Codebases

What is analysed: the declarations of a program, and where each of them is used.
-/

namespace LeastAccess

/-- A program as the analysis sees it. -/
structure Codebase where
  graph : Graph
  usages : UsageIndex := {}
  deriving DecidableEq

end LeastAccess
