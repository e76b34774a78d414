import LeastAccess.Graph.Inheritance
import LeastAccess.Proofs.Graph.Nesting

/-!
# Walks that end

A walk outwards, the recursion that counts the types around a declaration, and the search of super types,
each as a relation that sets no bound on the number of its steps. A walk is in the relation if and only if
it ends. On a graph without a cycle of containers all walks outwards end, and the search of super types ends
on every graph. They answer what `encloses`, `depth` and `inherits` answer.

* `Acyclic.outwards_induction` — a property that goes from containers to their contents holds everywhere
* `walk_encloses`, `countsTo_depth` — walks outwards end
* `searched_search`, `searched_inherits` — so does the search of super types
-/

namespace LeastAccess.Graph

variable {g : Graph}

/-! ## Outwards -/

/-- A walk from an id outwards in search of a type ends with an answer. -/
inductive Walk (g : Graph) (outer : String) : String → Bool → Prop
  | found : Walk g outer outer true
  | outside {id : String} (hne : id ≠ outer) (hc : g.containerOf? id = none) : Walk g outer id false
  | step {id container : String} {answer : Bool} (hne : id ≠ outer)
      (hc : g.containerOf? id = some container) (rest : Walk g outer container answer) :
      Walk g outer id answer

/-- Counting the types around a declaration ends with a number. -/
inductive CountsTo (g : Graph) : String → Nat → Prop
  | outermost {id : String} (hc : g.containerOf? id = none) : CountsTo g id 0
  | step {id container : String} {n : Nat} (hc : g.containerOf? id = some container)
      (rest : CountsTo g container n) : CountsTo g id (n + 1)

/-- A property that holds outside all types and goes from containers to their contents holds of every id. -/
theorem Acyclic.outwards_induction (h : g.Acyclic) {motive : String → Prop}
    (outermost : ∀ id, g.containerOf? id = none → motive id)
    (step : ∀ id container, g.containerOf? id = some container → motive container → motive id)
    (id : String) : motive id := by
  -- the depth falls by one with every step outwards
  induction hn : g.depth id generalizing id with
  | zero =>
    cases hc : g.containerOf? id with
    | none => exact outermost id hc
    | some container =>
      rw [depth_of_container h hc] at hn
      cases hn
  | succ n ih =>
    cases hc : g.containerOf? id with
    | none => exact outermost id hc
    | some container =>
      rw [depth_of_container h hc] at hn
      exact step id container hc (ih container (Nat.succ.inj hn))

theorem chain_of_containerOf?_eq_none {id : String} (hc : g.containerOf? id = none) : g.chain id = [id] :=
  chainFrom_of_containerOf?_eq_none hc _

/-- On a graph without a cycle of containers every walk outwards ends. -/
theorem walk_encloses (h : g.Acyclic) (outer inner : String) :
    g.Walk outer inner (g.encloses outer inner) := by
  induction inner using h.outwards_induction with
  | outermost id hc =>
    rw [encloses, chain_of_containerOf?_eq_none hc]
    by_cases hid : id = outer
    · subst hid
      simpa using Walk.found
    · simpa [Ne.symm hid] using Walk.outside hid hc
  | step id container hc ih =>
    by_cases hid : id = outer
    · subst hid
      rw [encloses_self]
      exact .found
    · have hrest : g.encloses outer id = g.encloses outer container := by
        simp [encloses, chain_of_container h hc, Ne.symm hid]
      exact .step hid hc (hrest ▸ ih)

/-- So does every count. -/
theorem countsTo_depth (h : g.Acyclic) (id : String) : g.CountsTo id (g.depth id) := by
  induction id using h.outwards_induction with
  | outermost id hc =>
    rw [depth, chain_of_containerOf?_eq_none hc]
    exact .outermost hc
  | step id container hc ih =>
    rw [depth_of_container h hc]
    exact .step hc ih

theorem checkDepths_eq_ok (h : g.Acyclic) : g.checkDepths = .ok () := by
  rw [checkDepths, if_pos]
  simp [hasOutermost_of_acyclic h]

/-! ## Super types -/

/-- A search of super types that has visited some ids and has a queue of others ends with an answer. -/
inductive Searched (g : Graph) (base : String) : List String → List String → Bool → Prop
  | exhausted {visited : List String} : Searched g base visited [] false
  | again {visited queue : List String} {id : String} {answer : Bool} (hv : id ∈ visited)
      (rest : Searched g base visited queue answer) : Searched g base visited (id :: queue) answer
  | found {visited queue : List String} (hv : base ∉ visited) : Searched g base visited (base :: queue) true
  | step {visited queue : List String} {id : String} {answer : Bool} (hv : id ∉ visited) (hne : id ≠ base)
      (rest : Searched g base (id :: visited) (queue ++ g.superTypesOf id) answer) :
      Searched g base visited (id :: queue) answer

/-- On every graph the search of super types ends. -/
theorem searched_search (g : Graph) (base : String) (visited queue : List String) :
    g.Searched base visited queue (g.search base visited queue) := by
  fun_induction search g base visited queue with
  | case1 => exact .exhausted
  | case2 visited id queue hv ih => exact .again (List.contains_iff_mem.mp hv) ih
  | case3 visited queue hv => exact .found (fun h => hv (List.contains_iff_mem.mpr h))
  | case4 visited id queue hv hne ih => exact .step (fun h => hv (List.contains_iff_mem.mpr h)) hne ih

theorem searched_inherits (g : Graph) {id base : String} (hne : id ≠ base) :
    g.Searched base [id] (g.superTypesOf id) (g.inherits id base) := by
  rw [inherits, if_neg hne]
  exact searched_search g base [id] _

end LeastAccess.Graph
