import LeastAccess.Graph.Basic

/-!
# Inheritance

`inherits` searches the super types of a type breadth first. The graph may be anything: super types may
form cycles, repeat, or have no declaration. The search ends all the same. An id that is met again is
dropped, so the queue shrinks. An id met for the first time lengthens the queue only if it is declared,
and then one declaration fewer is unvisited.

`Inherits` is what the search decides: one or more steps from a type to a super type.

Main statements: `not_inherits_self`, and the measure lemma `unvisited_lt`.
-/

namespace LeastAccess.Graph

/-- One or more steps from a type to a direct super type lead from the first id to the second. -/
inductive Reaches (g : Graph) : String → String → Prop where
  | direct {id super : String} (h : super ∈ g.superTypesOf id) : Reaches g id super
  | step {id super base : String} (h : super ∈ g.superTypesOf id) (rest : Reaches g super base) :
      Reaches g id base

/-- A strict subtype relation: a type is none of its own subtypes, not even around a cycle. -/
def Inherits (g : Graph) (id base : String) : Prop := id ≠ base ∧ Reaches g id base

/-- The declarations whose ids the search has not visited. -/
def unvisited (g : Graph) (visited : List String) : List Declaration :=
  g.declarations.filter fun d => !visited.contains d.id

theorem unvisited_le (g : Graph) (visited : List String) (id : String) :
    (g.unvisited (id :: visited)).length ≤ (g.unvisited visited).length := by
  unfold unvisited
  rw [← List.countP_eq_length_filter, ← List.countP_eq_length_filter]
  exact List.countP_mono_left fun d _ h => by
    simp only [List.contains_cons, Bool.not_or, Bool.and_eq_true] at h
    exact h.2

/-- Visiting a declared id leaves fewer declarations unvisited. -/
theorem unvisited_lt {g : Graph} {visited : List String} {id : String} {d : Declaration}
    (hf : g.find? id = some d) (hv : visited.contains id = false) :
    (g.unvisited (id :: visited)).length < (g.unvisited visited).length := by
  have hd := mem_of_find? hf
  have hid := find?_id hf
  have split : g.unvisited (id :: visited) = (g.unvisited visited).filter fun d => !(d.id == id) := by
    unfold unvisited
    rw [List.filter_filter]
    simp only [List.contains_cons, Bool.not_or]
  rw [split]
  refine List.length_filter_lt_length_iff_exists.2 ⟨d, ?_, by simp [hid]⟩
  unfold unvisited
  exact List.mem_filter.2 ⟨hd, by rw [hid, hv]; rfl⟩

theorem superTypesOf_eq_nil {g : Graph} {id : String} (h : g.find? id = none) :
    g.superTypesOf id = [] := by
  rw [superTypesOf, h]

/-- The search with the ids it has visited and the ids it still has to look at. -/
def search (g : Graph) (base : String) (visited : List String) : List String → Bool
  | [] => false
  | id :: queue =>
    if _h : visited.contains id then search g base visited queue
    else if id = base then true
    else search g base (id :: visited) (queue ++ g.superTypesOf id)
  termination_by queue => ((g.unvisited visited).length, queue.length)
  decreasing_by
    · exact Prod.Lex.right _ (Nat.lt_succ_self _)
    · cases hf : g.find? id with
      | some d =>
        refine Prod.Lex.left _ _ (unvisited_lt hf ?_)
        simpa using _h
      | none =>
        rw [superTypesOf_eq_nil hf, List.append_nil]
        rcases Nat.lt_or_eq_of_le (unvisited_le g visited id) with h | h
        · exact Prod.Lex.left _ _ h
        · rw [h]
          exact Prod.Lex.right _ (Nat.lt_succ_self _)

/-- Whether a type is a strict subtype of another one. -/
def inherits (g : Graph) (id base : String) : Bool :=
  if id = base then false else g.search base [id] (g.superTypesOf id)

theorem not_inherits_self (g : Graph) (id : String) : g.inherits id id = false := by
  simp [inherits]

end LeastAccess.Graph
