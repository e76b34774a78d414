import Mathlib.Data.Set.Card
import LeastAccess.Graph.Register
import LeastAccess.Proofs.Graph.Walks

/-!
# One forest

Three views of containment: the search outwards from a declaration, the depths that a register remembers, and
the members that it has filed by their types. On a graph without a cycle of containers they are views of one
forest. The search decides the reflexive and transitive closure of the step to the container. What a register
remembers of depths is true, so an answer is the same whether it is remembered or not, and it counts what
encloses the declaration.

* `encloses_iff_reflTransGen` — the search decides the closure
* `encard_enclosing` — the depth counts what encloses a declaration
* `Remembers.depthOf`, `Remembers.afterDepthsOf` — one question to a register, and any number of them
* `containment_is_one_forest` — all of it together
-/

namespace LeastAccess

namespace Graph

variable {g : Graph}

/-! ## The closure of the container relation -/

theorem Encloses.iff_reflTransGen {outer inner : String} : Encloses g outer inner ↔
    Relation.ReflTransGen (fun id container => g.containerOf? id = some container) inner outer := by
  constructor
  · intro h
    induction h with
    | refl => exact .refl
    | step hc _ ih => exact .head hc ih
  · intro h
    induction h using Relation.ReflTransGen.head_induction_on with
    | refl => exact .refl outer
    | head hc _ ih => exact .step hc ih

theorem encloses_iff_reflTransGen (h : g.Acyclic) {outer inner : String} :
    g.encloses outer inner = true ↔
      Relation.ReflTransGen (fun id container => g.containerOf? id = some container) inner outer := by
  rw [encloses_iff h, Encloses.iff_reflTransGen]

/-- Ids that enclose each other are one id. -/
theorem Acyclic.encloses_antisymm (h : g.Acyclic) {a b : String} (hab : Encloses g a b)
    (hba : Encloses g b a) : a = b := by
  rcases hab.eq_or_contains with heq | ⟨container, hc, hac⟩
  · exact heq
  · -- otherwise `b` lies in a type that it encloses
    exact absurd ⟨container, hc, hba.trans hac⟩ (h b)

/-! ## Depth -/

/-- What properly encloses a declaration is less deep. -/
theorem depth_lt_of_encloses (h : g.Acyclic) {outer inner : String} (hne : outer ≠ inner)
    (he : Encloses g outer inner) : g.depth outer < g.depth inner := by
  induction he with
  | refl => exact absurd rfl hne
  | @step container inner hc rest ih =>
    rw [depth_of_container h hc]
    by_cases hcontainer : outer = container
    · rw [hcontainer]
      omega
    · have hlt := ih hcontainer
      omega

/-- The depth counts what encloses a declaration, apart from the declaration itself. -/
theorem encard_enclosing (h : g.Acyclic) (id : String) :
    {outer | outer ≠ id ∧ g.encloses outer id = true}.encard = g.depth id := by
  have hset : {outer | outer ≠ id ∧ g.encloses outer id = true} =
      ((g.chain id).toFinset.erase id : Finset String) := by
    ext outer
    simp [encloses, and_comm]
  have hnodup : (g.chain id).Nodup := nodup_chainFrom h _ id
  rw [hset, Set.encard_coe_eq_coe_finsetCard,
    Finset.card_erase_of_mem (List.mem_toFinset.mpr (self_mem_chain g id)),
    List.toFinset_card_of_nodup hnodup, depth]

/-! ## Remembered depths -/

/-- What is known of depths is true. -/
def Knows (g : Graph) (known : ById Nat) : Prop :=
  ∀ id depth, known.get? id = some depth → depth = g.depth id

theorem Knows.set {known : ById Nat} (hk : g.Knows known) (id : String) :
    g.Knows (known.set id (g.depth id)) := by
  intro x depth hx
  rw [ById.get?_set] at hx
  split at hx
  · next heq =>
    rw [heq]
    exact (Option.some.inj hx).symm
  · exact hk x depth hx

/-- Where the chain of containers ends within some steps, the depth is found within them, and what is known
afterwards is true. -/
theorem Knows.depthFrom {n : Nat} {known : ById Nat} {id : String} (h : g.Acyclic) (hk : g.Knows known)
    (hend : g.EndsWithin n id) :
    ∃ known', g.depthFrom n known id = .ok (g.depth id, known') ∧ g.Knows known' := by
  fun_induction g.depthFrom n known id with
  | case1 n id depth hknown => exact ⟨known, by rw [hk id depth hknown], hk⟩
  | case2 n id hknown hc =>
    have hzero : g.depth id = 0 := by
      rw [depth, chain_of_containerOf?_eq_none hc]
      rfl
    exact ⟨known.set id 0, by rw [hzero], hzero ▸ hk.set id⟩
  | case3 id hknown container hc =>
    have hnone : g.containerOf? id = none := hend
    rw [hc] at hnone
    cases hnone
  | case4 id hknown container hc n e herror ih =>
    obtain ⟨_, hfrom, -⟩ := ih ((endsWithin_succ_iff hc).mp hend)
    rw [herror] at hfrom
    cases hfrom
  | case5 id hknown container hc n depth known' hfound ih =>
    obtain ⟨_, hfrom, hk'⟩ := ih ((endsWithin_succ_iff hc).mp hend)
    rw [hfound] at hfrom
    cases hfrom
    have hsucc := depth_of_container h hc
    exact ⟨known'.set id (g.depth container + 1), by rw [hsucc], hsucc ▸ hk'.set id⟩

end Graph

/-! ## A register that has been asked -/

/-- A register of a graph knows the members of every type, and nothing but the truth of depths. -/
structure Register.Remembers (r : Register) (g : Graph) : Prop where
  graph : r.graph = g
  members : r.members = (Register.ofGraph g).members
  depths : g.Knows r.depths

namespace Register

variable {g : Graph} {r : Register}

theorem remembers_ofGraph (g : Graph) : (ofGraph g).Remembers g := ⟨rfl, rfl, fun _ _ h => nomatch h⟩

/-- A register that is asked for a depth answers it, and it goes on to know nothing but the truth. -/
theorem Remembers.depthOf (h : r.Remembers g) (ha : g.Acyclic) (id : String) :
    ∃ r', r.depthOf id = .ok (g.depth id, r') ∧ r'.Remembers g := by
  obtain ⟨depths', hfrom, hk⟩ :=
    h.depths.depthFrom ha (Graph.hasOutermost_iff.mp (Graph.hasOutermost_of_acyclic ha id))
  refine ⟨{ r with depths := depths' }, ?_, h.graph, h.members, hk⟩
  rw [Register.depthOf, h.graph, hfrom]

theorem Remembers.afterDepthOf (h : r.Remembers g) (ha : g.Acyclic) (id : String) :
    (r.afterDepthOf id).Remembers g := by
  obtain ⟨r', hdepth, hr'⟩ := h.depthOf ha id
  rw [Register.afterDepthOf, hdepth]
  exact hr'

/-- So it does when it is asked for any number of depths. -/
theorem Remembers.afterDepthsOf (h : r.Remembers g) (ha : g.Acyclic) (ids : List String) :
    (r.afterDepthsOf ids).Remembers g := by
  induction ids generalizing r with
  | nil => exact h
  | cons id ids ih => exact ih (h.afterDepthOf ha id)

theorem Remembers.membersOf (h : r.Remembers g) (id : String) :
    r.membersOf id = g.declarations.filter fun d => d.containerId = some id := by
  have hmembers : r.membersOf id = (ofGraph g).membersOf id := by
    rw [Register.membersOf, h.members, Register.membersOf]
  rw [hmembers, membersOf_ofGraph, Graph.membersOf]
  exact List.filter_congr fun d _ => beq_eq_decide d.containerId (some id)

end Register

/-- **Containment is one forest, whatever was asked before.** On a graph without a cycle of containers, the
search outwards ends for all ids with whether the one is reached from the other by steps to the container.
So enclosure is a partial order in which whatever encloses an id is on one line, and depths grow inwards. A
register of the graph, when it has been asked for any depths, goes on to answer the depth, which is how many
other ids enclose the one in question. The members that it has of a type are the declarations that name the
type as their container, in order. -/
theorem containment_is_one_forest {g : Graph} (h : g.Acyclic) :
    (∀ outer inner : String, g.Walk outer inner (g.encloses outer inner) ∧
      (g.encloses outer inner = true ↔
        Relation.ReflTransGen (fun id container => g.containerOf? id = some container) inner outer)) ∧
    (∀ id : String, g.encloses id id = true) ∧
    (∀ a b c : String, g.encloses a b = true → g.encloses b c = true → g.encloses a c = true) ∧
    (∀ a b : String, g.encloses a b = true → g.encloses b a = true → a = b) ∧
    (∀ a b id : String, g.encloses a id = true → g.encloses b id = true →
      g.encloses a b = true ∨ g.encloses b a = true) ∧
    (∀ outer inner : String, outer ≠ inner → g.encloses outer inner = true →
      g.depth outer < g.depth inner) ∧
    ∀ asked : List String,
      let r := (Register.ofGraph g).afterDepthsOf asked
      (∀ id, (∃ r', r.depthOf id = .ok (g.depth id, r')) ∧
        {outer | outer ≠ id ∧ g.encloses outer id = true}.encard = g.depth id) ∧
      ∀ id, r.membersOf id = g.declarations.filter fun d => d.containerId = some id := by
  have hencloses {outer inner : String} : g.encloses outer inner = true ↔ Graph.Encloses g outer inner :=
    Graph.encloses_iff h
  refine ⟨fun outer inner => ⟨Graph.walk_encloses h outer inner, Graph.encloses_iff_reflTransGen h⟩,
    g.encloses_self, ?_, ?_, ?_, ?_, ?_⟩
  · intro a b c hab hbc
    exact hencloses.mpr ((hencloses.mp hab).trans (hencloses.mp hbc))
  · intro a b hab hba
    exact h.encloses_antisymm (hencloses.mp hab) (hencloses.mp hba)
  · intro a b id ha hb
    exact ((hencloses.mp ha).linear (hencloses.mp hb)).imp hencloses.mpr hencloses.mpr
  · intro outer inner hne he
    exact Graph.depth_lt_of_encloses h hne (hencloses.mp he)
  · intro asked r
    have hr : r.Remembers g := (Register.remembers_ofGraph g).afterDepthsOf h asked
    refine ⟨fun id => ⟨?_, Graph.encard_enclosing h id⟩, hr.membersOf⟩
    obtain ⟨r', hdepth, -⟩ := hr.depthOf h id
    exact ⟨r', hdepth⟩

/-- A field in a nested type with another field before and after the nested type, and a type in one that is
not declared. -/
def Sample.forest : Graph where
  declarations :=
    [{ id := "f", name := "f", kind := .field, containerId := some "T" },
      { id := "n", name := "n", kind := .field, containerId := some "N" },
      { id := "N", name := "N", kind := .type, containerId := some "T" },
      { id := "T", name := "T", kind := .type },
      { id := "X", name := "X", kind := .type, containerId := some "?" },
      { id := "g", name := "g", kind := .field, containerId := some "T" }]

/-- The depth of the nested type is asked for before that of its field, and so is a depth in between. -/
theorem nested_field_in_one_forest :
    let g := Sample.forest
    let r := (Register.ofGraph g).afterDepthsOf ["N", "X", "N"]
    g.Acyclic ∧ r.depths.get? "T" = some 0 ∧ r.depths.get? "n" = none ∧
      (∃ r', r.depthOf "n" = .ok (2, r')) ∧
      {outer | outer ≠ "n" ∧ g.encloses outer "n" = true}.encard = 2 ∧
      (g.encloses "N" "T" = true ∨ g.encloses "T" "N" = true) ∧ g.depth "T" < g.depth "n" ∧
      (r.membersOf "T").map (·.id) = ["f", "N", "g"] := by
  intro g r
  have h : g.Acyclic := Graph.acyclic_of_hasOutermost (by decide)
  obtain ⟨-, -, -, -, hlinear, hless, hasked⟩ := containment_is_one_forest h
  obtain ⟨hdepth, hmembers⟩ := hasked ["N", "X", "N"]
  have htwo : g.depth "n" = 2 := by decide
  have hanswer := hdepth "n"
  rw [htwo] at hanswer
  refine ⟨h, by decide, by decide, hanswer.1, hanswer.2, ?_, hless "T" "n" (by decide) (by decide), ?_⟩
  · exact hlinear "N" "T" "n" (by decide) (by decide)
  · rw [hmembers "T"]
    decide

end LeastAccess
