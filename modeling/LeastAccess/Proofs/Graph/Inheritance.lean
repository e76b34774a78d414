import Mathlib.Algebra.Order.BigOperators.Group.List
import Mathlib.Algebra.Order.Group.Nat
import Mathlib.Logic.Relation
import LeastAccess.Proofs.Graph.Supertypes

/-!
# The search of super types decides the relation

The loop of the search turn by turn, with no bound on the number of its turns. It drops an id from the
front of its queue with every turn. A turn that visits an id for the first time puts that id's super types
at the end, so the queue may grow, and ids that have been visited may come again. But the super types of an
id are queued only once: what is in the queue, with what the ids not yet visited can still bring, gets less
with every turn. The number of turns is therefore at most the number of steps to a super type in the graph.

* `Turn.left_lt`, `Turns.le_left` — what is left gets less, so the number of turns is bounded
* `Turn.search_eq`, `Turns.search_eq` — no turn changes what the search is going to answer
* `inherits_decides_chains` — the loop ends, with the answer whether steps to a super type lead from the one
  type to the other one, a different one
-/

namespace LeastAccess

namespace Graph

variable {g : Graph} {base : String}

/-! ## The loop -/

/-- What the loop holds between two turns: the ids it has visited, and those it has yet to look at. -/
structure Search where
  visited : List String
  queue : List String

/-- The loop begins with the direct super types. The type itself counts as visited. -/
def Search.start (g : Graph) (id : String) : Search := ⟨[id], g.superTypesOf id⟩

/-- A turn that does not end the loop. -/
inductive Turn (g : Graph) (base : String) : Search → Search → Prop
  | again {visited queue : List String} {id : String} (hv : id ∈ visited) :
      Turn g base ⟨visited, id :: queue⟩ ⟨visited, queue⟩
  | visit {visited queue : List String} {id : String} (hv : id ∉ visited) (hne : id ≠ base) :
      Turn g base ⟨visited, id :: queue⟩ ⟨id :: visited, queue ++ g.superTypesOf id⟩

/-- A number of turns, one after the other. -/
inductive Turns (g : Graph) (base : String) : Nat → Search → Search → Prop
  | none {s : Search} : Turns g base 0 s s
  | more {n : Nat} {s next last : Search} (turn : Turn g base s next) (rest : Turns g base n next last) :
      Turns g base (n + 1) s last

/-- The loop ends here, with an answer. -/
inductive Search.Ends (base : String) : Search → Bool → Prop
  | exhausted {visited : List String} : Ends base ⟨visited, []⟩ false
  | found {visited queue : List String} (hv : base ∉ visited) : Ends base ⟨visited, base :: queue⟩ true

/-! ## What is left -/

/-- The steps to a super type that go from declarations not yet visited. -/
def stepsLeft (g : Graph) (visited : List String) : Nat :=
  ((g.unvisited visited).flatMap fun d => g.superTypesOf d.id).length

/-- What is in the queue, and what can still come into it. -/
def Search.left (g : Graph) (s : Search) : Nat := s.queue.length + g.stepsLeft s.visited

theorem unvisited_cons (visited : List String) (id : String) :
    g.unvisited (id :: visited) = (g.unvisited visited).filter fun d => d.id ≠ id := by
  unfold unvisited
  rw [List.filter_filter]
  exact List.filter_congr fun d _ => by simp

/-- Visiting an id takes its super types away from what can still come. -/
theorem stepsLeft_cons {visited : List String} {id : String} (hv : id ∉ visited) :
    g.stepsLeft (id :: visited) + (g.superTypesOf id).length ≤ g.stepsLeft visited := by
  unfold stepsLeft
  rw [List.length_flatMap, List.length_flatMap, unvisited_cons,
    ← List.sum_map_filter_add_sum_map_filter_not (fun d => d.id ≠ id) _ (g.unvisited visited)]
  refine Nat.add_le_add_left ?_ _
  cases hf : g.find? id with
  | none =>
    rw [superTypesOf_eq_nil hf]
    exact Nat.zero_le _
  | some d =>
    -- the declaration that the id finds is among those that are not kept
    have hid : d.id = id := find?_id hf
    have hd : d ∈ g.unvisited visited := List.mem_filter.mpr ⟨mem_of_find? hf, by simpa [hid] using hv⟩
    have hmem : d ∈ (g.unvisited visited).filter fun d => ¬d.id ≠ id :=
      List.mem_filter.mpr ⟨hd, by simpa using hid⟩
    have hle := List.single_le_sum (fun _ _ => Nat.zero_le _) _
      (List.mem_map_of_mem (f := fun d => (g.superTypesOf d.id).length) hmem)
    rwa [hid] at hle

theorem Turn.left_lt {s next : Search} (h : Turn g base s next) : next.left g < s.left g := by
  cases h with
  | again hv => simp [Search.left]
  | @visit visited queue id hv hne =>
    have hle : g.stepsLeft (id :: visited) + (g.superTypesOf id).length ≤ g.stepsLeft visited :=
      stepsLeft_cons hv
    simp only [Search.left, List.length_append, List.length_cons]
    omega

theorem Turns.le_left {n : Nat} {s last : Search} (h : Turns g base n s last) : n ≤ s.left g := by
  induction h with
  | none => exact Nat.zero_le _
  | more turn rest ih =>
    have hlt := turn.left_lt
    omega

theorem left_start_le (id : String) : (Search.start g id).left g ≤ g.stepsLeft [] := by
  have hle : g.stepsLeft [id] + (g.superTypesOf id).length ≤ g.stepsLeft [] :=
    stepsLeft_cons List.not_mem_nil
  show (g.superTypesOf id).length + g.stepsLeft [id] ≤ g.stepsLeft []
  omega

/-! ## What is answered -/

theorem Turn.search_eq {s next : Search} (h : Turn g base s next) :
    g.search base next.visited next.queue = g.search base s.visited s.queue := by
  cases h with
  | again hv => simp [search, hv]
  | visit hv hne => simp [search, hv, hne]

theorem Turns.search_eq {n : Nat} {s last : Search} (h : Turns g base n s last) :
    g.search base last.visited last.queue = g.search base s.visited s.queue := by
  induction h with
  | none => rfl
  | more turn rest ih => rw [ih, turn.search_eq]

/-- Where no turn is possible, the loop ends with what the search answers. -/
theorem turn_or_ends (g : Graph) (base : String) (s : Search) :
    (∃ next, Turn g base s next) ∨ s.Ends base (g.search base s.visited s.queue) := by
  obtain ⟨visited, queue⟩ := s
  cases queue with
  | nil =>
    right
    rw [search]
    exact .exhausted
  | cons id queue =>
    by_cases hv : id ∈ visited
    · exact Or.inl ⟨_, .again hv⟩
    · by_cases hne : id = base
      · subst hne
        right
        have hfound : g.search id visited (id :: queue) = true := by simp [search, hv]
        rw [hfound]
        exact .found hv
      · exact Or.inl ⟨_, .visit hv hne⟩

/-! ## The relation -/

/-- Steps to a super type, one or more. -/
theorem reaches_iff_transGen {id : String} :
    Reaches g id base ↔ Relation.TransGen (fun id super => super ∈ g.superTypesOf id) id base := by
  constructor
  · intro h
    induction h with
    | direct hsuper => exact .single hsuper
    | step hsuper _ ih => exact .head hsuper ih
  · intro h
    induction h using Relation.TransGen.head_induction_on with
    | single hsuper => exact .direct hsuper
    | head hsuper _ ih => exact .step hsuper ih

theorem inherits_iff_transGen {id : String} : g.inherits id base = true ↔
    id ≠ base ∧ Relation.TransGen (fun id super => super ∈ g.superTypesOf id) id base := by
  rw [inherits_iff, Inherits, reaches_iff_transGen]

end Graph

/-- **The search of super types always ends, and answers whether they are reached.** The declarations may be
any: super types may form cycles, repeat, be the type itself or have no declaration, and ids may be shared. -/
theorem inherits_decides_chains (g : Graph) :
    -- no more turns than steps in the graph, and where there is no turn more, the answer
    (∀ type base : String, type ≠ base → ∀ (n : Nat) (s : Graph.Search),
      Graph.Turns g base n (.start g type) s →
        n ≤ g.stepsLeft [] ∧
          ((∃ next, Graph.Turn g base s next) ∨ s.Ends base (g.inherits type base))) ∧
    (∀ type base : String, g.inherits type base = true ↔
      type ≠ base ∧ Relation.TransGen (fun id super => super ∈ g.superTypesOf id) type base) ∧
    (∀ id : String, g.inherits id id = false) ∧
    (∀ a b c : String, g.inherits a b = true → g.inherits b c = true → a ≠ c →
      g.inherits a c = true) := by
  refine ⟨?_, fun type base => Graph.inherits_iff_transGen, g.not_inherits_self, ?_⟩
  · intro type base hne n s hturns
    refine ⟨Nat.le_trans hturns.le_left (Graph.left_start_le type), ?_⟩
    have hanswer : g.inherits type base = g.search base s.visited s.queue := by
      rw [Graph.inherits, if_neg hne, hturns.search_eq, Graph.Search.start]
    rw [hanswer]
    exact Graph.turn_or_ends g base s
  · intro a b c hab hbc hne
    obtain ⟨-, hab⟩ := Graph.inherits_iff_transGen.mp hab
    obtain ⟨-, hbc⟩ := Graph.inherits_iff_transGen.mp hbc
    exact Graph.inherits_iff_transGen.mpr ⟨hne, hab.trans hbc⟩

/-- Two types that are super types of each other. The one is its own super type as well and has a super type
that is not declared, the other one names the first twice. -/
def Sample.circle : Graph where
  declarations :=
    [{ id := "A", name := "A", kind := .type, superTypeIds := ["A", "B", "?"] },
      { id := "B", name := "B", kind := .type, superTypeIds := ["A", "A"] }]

theorem circle_inherits_from_undeclared :
    let g := Sample.circle
    (∃ s, Graph.Turns g "?" 4 (.start g "B") s ∧ 4 ≤ g.stepsLeft [] ∧ s.Ends "?" true) ∧
      g.inherits "B" "?" = true ∧ g.inherits "B" "B" = false := by
  intro g
  obtain ⟨hends, hreached, hself, htrans⟩ := inherits_decides_chains g
  have hBA : g.inherits "B" "A" = true := (hreached "B" "A").mpr ⟨by decide, .single (by decide)⟩
  have hA : g.inherits "A" "?" = true := (hreached "A" "?").mpr ⟨by decide, .single (by decide)⟩
  have hB : g.inherits "B" "?" = true := htrans "B" "A" "?" hBA hA (by decide)
  have hturns : Graph.Turns g "?" 4 (.start g "B") ⟨["A", "B"], ["?"]⟩ :=
    -- all but the first turn drop an id that has come again
    .more (.visit (by decide) (by decide)) <| .more (.again (by decide)) <| .more (.again (by decide)) <|
      .more (.again (by decide)) .none
  obtain ⟨hbound, hnext | hends⟩ := hends "B" "?" (by decide) 4 _ hturns
  · obtain ⟨_, _ | ⟨-, hne⟩⟩ := hnext
    · contradiction
    · exact absurd rfl hne
  · rw [hB] at hends
    exact ⟨⟨_, hturns, hbound, hends⟩, hB, hself "B"⟩

end LeastAccess
