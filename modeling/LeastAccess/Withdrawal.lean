import LeastAccess.Accumulator
import LeastAccess.Graph.Containment

/-!
# Withdrawing suggestions

A type must not become less visible than what it contains, directly or in nested types. `withdraw` visits
the types from the innermost outwards. A type whose own level is below the join of its contents is
withdrawn; in any case the join of both goes into the level of the type around it. Because a nested type is
deeper than the type around it, every level is final before it is read.

Main statements: `typesInnermostFirst_perm` (every type is visited exactly once) and
`typesInnermostFirst_pairwise` (after all that are deeper).
-/

namespace LeastAccess

/-- The types of a graph, deeper ones first, otherwise in document order. -/
def Graph.typesInnermostFirst (g : Graph) : List Declaration :=
  let depths := (g.declarations.filter (·.isType)).map fun t => (g.depth t.id, t)
  (depths.mergeSort fun a b => b.1 ≤ a.1).map Prod.snd

theorem Graph.typesInnermostFirst_perm (g : Graph) :
    g.typesInnermostFirst.Perm (g.declarations.filter (·.isType)) := by
  unfold typesInnermostFirst
  refine ((List.mergeSort_perm _ _).map Prod.snd).trans ?_
  rw [List.map_map]
  exact List.Perm.of_eq (List.map_id _)

/-- No type comes after one that is less deep. -/
theorem Graph.typesInnermostFirst_pairwise (g : Graph) :
    g.typesInnermostFirst.Pairwise fun a b => g.depth b.id ≤ g.depth a.id := by
  unfold typesInnermostFirst
  rw [List.pairwise_map]
  let deeper (a b : Nat × Declaration) : Bool := decide (b.1 ≤ a.1)
  let depths := (g.declarations.filter (·.isType)).map fun t => (g.depth t.id, t)
  have sorted : (depths.mergeSort deeper).Pairwise fun a b => deeper a b = true := by
    refine List.pairwise_mergeSort (fun a b c hab hbc => ?_) (fun a b => ?_) depths
    · exact decide_eq_true (Nat.le_trans (of_decide_eq_true hbc) (of_decide_eq_true hab))
    · simpa [deeper] using Nat.le_total b.1 a.1
  have depth_eq : ∀ x ∈ depths.mergeSort deeper, x.1 = g.depth x.2.id := by
    intro x hx
    obtain ⟨t, _, rfl⟩ := List.mem_map.1 ((List.mergeSort_perm _ _).mem_iff.1 hx)
    rfl
  refine sorted.imp_of_mem fun {a b} ha hb hab => ?_
  rw [← depth_eq a ha, ← depth_eq b hb]
  exact of_decide_eq_true hab

/-- The levels of the types so far, and the types withdrawn so far. -/
structure Withdrawals where
  levels : ContainerLevels
  withdrawn : List String := []

namespace Withdrawals

/-- Adds a type, once. -/
def add (w : Withdrawals) (id : String) : Withdrawals :=
  if w.withdrawn.contains id then w else { w with withdrawn := w.withdrawn ++ [id] }

/-- Visits one type, whose own level may be known. -/
def visit (suggested : String → Option Level) (w : Withdrawals) (type : Declaration) : Withdrawals :=
  match w.levels.get? type.id with
  | none => w
  | some contents =>
    let own := suggested type.id
    let w := if own.any (· < contents) then w.add type.id else w
    match type.containerId with
    | none => w
    | some container =>
      let effective := match own with
        | some own => max own contents
        | none => contents
      { w with levels := w.levels.accumulate container effective }

end Withdrawals

/-- The types to withdraw, innermost first, and the levels of all types with what they contain. -/
def withdraw (g : Graph) (levels : ContainerLevels) (suggested : String → Option Level) : Withdrawals :=
  g.typesInnermostFirst.foldl (Withdrawals.visit suggested) { levels }

end LeastAccess
