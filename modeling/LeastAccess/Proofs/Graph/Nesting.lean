import LeastAccess.Graph.Containment
import Mathlib.Data.List.Nodup

/-!
# Nesting

Containment without a cycle is a forest. `chain` then reaches the outermost type, it grows by one when a
declaration is looked at instead of its container, and the types around a declaration lie on one line.

* `chain_of_container`, `depth_of_container` — one step outwards
* `Encloses.linear` — of two types around a declaration one encloses the other
* `exists_isOutermost`, `IsOutermost.unique` — every declaration has one outermost type
-/

namespace LeastAccess.Graph

variable {g : Graph}

/-- A type contains a declaration, directly or in nested types. -/
def Contains (g : Graph) (outer inner : String) : Prop :=
  ∃ container, g.containerOf? inner = some container ∧ Encloses g outer container

/-- Nothing contains itself. -/
def Acyclic (g : Graph) : Prop := ∀ id, ¬ g.Contains id id

/-- A type with no type around it that encloses a declaration. -/
def IsOutermost (g : Graph) (root id : String) : Prop :=
  Encloses g root id ∧ g.containerOf? root = none

/-! ## Enclosure -/

theorem Contains.encloses {outer inner : String} (h : g.Contains outer inner) :
    Encloses g outer inner := by
  obtain ⟨container, hc, rest⟩ := h
  exact .step hc rest

theorem containerOf?_of_mem (hu : g.UniqueIds) {d : Declaration} (hd : d ∈ g.declarations) :
    g.containerOf? d.id = d.containerId := by
  rw [containerOf?, find?_eq_some_of_mem hu hd]
  rfl

theorem contains_of_containerId (hu : g.UniqueIds) {d : Declaration} (hd : d ∈ g.declarations)
    {id : String} (hc : d.containerId = some id) : g.Contains id d.id :=
  ⟨id, by rw [containerOf?_of_mem hu hd, hc], .refl id⟩

/-- What a type in another one contains is in the other one. -/
theorem Contains.trans {a b id : String} (h : g.Contains a b) (h' : g.Contains b id) :
    g.Contains a id := by
  obtain ⟨container, hc, rest⟩ := h'
  exact ⟨container, hc, h.encloses.trans rest⟩

/-- Enclosure is a matter of the containers alone. -/
theorem Encloses.congr {g' : Graph} (hcontainer : ∀ id, g'.containerOf? id = g.containerOf? id)
    {outer inner : String} (h : Encloses g outer inner) : Encloses g' outer inner := by
  induction h with
  | refl => exact .refl _
  | step hc _ ih => exact .step ((hcontainer _).trans hc) ih

theorem Contains.congr {g' : Graph} (hcontainer : ∀ id, g'.containerOf? id = g.containerOf? id)
    {outer inner : String} (h : g.Contains outer inner) : g'.Contains outer inner := by
  obtain ⟨container, hc, he⟩ := h
  exact ⟨container, (hcontainer inner).trans hc, he.congr hcontainer⟩

/-- What encloses a declaration is the declaration itself or contains it. -/
theorem Encloses.eq_or_contains {outer inner : String} (h : Encloses g outer inner) :
    outer = inner ∨ g.Contains outer inner := by
  cases h with
  | refl => exact Or.inl rfl
  | step hc rest => exact Or.inr ⟨_, hc, rest⟩

/-- Of two types around a declaration one encloses the other. -/
theorem Encloses.linear {a b id : String} (ha : Encloses g a id) (hb : Encloses g b id) :
    Encloses g a b ∨ Encloses g b a := by
  induction ha with
  | refl => exact Or.inr hb
  | step hc rest ih =>
    cases hb with
    | refl => exact Or.inl (.step hc rest)
    | step hc' rest' =>
      rw [hc] at hc'
      cases hc'
      exact ih rest'

theorem Encloses.eq_of_containerOf?_eq_none {outer inner : String} (h : Encloses g outer inner)
    (hn : g.containerOf? inner = none) : outer = inner := by
  cases h with
  | refl => rfl
  | step hc rest =>
    rw [hn] at hc
    cases hc

/-! ## Chains of containers -/

/-- Some steps outwards lead to a declaration without a container. -/
def EndsWithin (g : Graph) (n : Nat) (id : String) : Prop :=
  (g.chainFrom n id).getLast?.bind g.containerOf? = none

theorem hasOutermost_iff {id : String} :
    g.hasOutermost id = true ↔ g.EndsWithin g.declarations.length id := Option.isNone_iff_eq_none

theorem chainFrom_of_containerOf?_eq_none {id : String} (hn : g.containerOf? id = none) (n : Nat) :
    g.chainFrom n id = [id] := by
  cases n with
  | zero => rfl
  | succ n => rw [chainFrom, hn]

theorem chainFrom_succ_of_container {id container : String} (hc : g.containerOf? id = some container)
    (n : Nat) : g.chainFrom (n + 1) id = id :: g.chainFrom n container := by
  rw [chainFrom, hc]

theorem chainFrom_ne_nil (g : Graph) (n : Nat) (id : String) : g.chainFrom n id ≠ [] :=
  List.ne_nil_of_mem (self_mem_chainFrom g n id)

theorem endsWithin_of_containerOf?_eq_none {id : String} (hn : g.containerOf? id = none) (n : Nat) :
    g.EndsWithin n id := by
  rw [EndsWithin, chainFrom_of_containerOf?_eq_none hn]
  exact hn

theorem endsWithin_succ_iff {id container : String} (hc : g.containerOf? id = some container) {n : Nat} :
    g.EndsWithin (n + 1) id ↔ g.EndsWithin n container := by
  rw [EndsWithin, chainFrom_succ_of_container hc, EndsWithin, List.getLast?_cons,
    List.getLast?_eq_some_getLast (chainFrom_ne_nil g n container)]
  rfl

/-- A chain without an end has a step for each of its places, and all of its ids are declared. -/
theorem length_chainFrom_of_not_endsWithin {n : Nat} {id : String} (h : ¬ g.EndsWithin n id) :
    (g.chainFrom n id).length = n + 1 ∧ ∀ x ∈ g.chainFrom n id, x ∈ g.ids := by
  induction n generalizing id with
  | zero =>
    cases hc : g.containerOf? id with
    | none => exact absurd (endsWithin_of_containerOf?_eq_none hc 0) h
    | some container =>
      refine ⟨rfl, fun x hx => ?_⟩
      rw [List.mem_singleton.mp hx]
      exact mem_ids_of_containerOf? hc
  | succ n ih =>
    cases hc : g.containerOf? id with
    | none => exact absurd (endsWithin_of_containerOf?_eq_none hc _) h
    | some container =>
      obtain ⟨hlen, hids⟩ := ih fun hend => h ((endsWithin_succ_iff hc).mpr hend)
      rw [chainFrom_succ_of_container hc]
      refine ⟨by rw [List.length_cons, hlen], ?_⟩
      intro x hx
      rcases List.mem_cons.mp hx with rfl | hx
      · exact mem_ids_of_containerOf? hc
      · exact hids x hx

/-- There are too few declarations for a chain without repetition that has no end. -/
theorem hasOutermost_of_nodup {id : String} (h : (g.chain id).Nodup) : g.hasOutermost id = true := by
  rw [hasOutermost_iff]
  by_contra hend
  obtain ⟨hlen, hids⟩ := length_chainFrom_of_not_endsWithin hend
  -- one more id than there are declarations
  have hle := h.length_le_of_subset hids
  rw [chain, hlen, ids, List.length_map] at hle
  omega

theorem nodup_chainFrom (h : g.Acyclic) (n : Nat) (id : String) : (g.chainFrom n id).Nodup := by
  induction n generalizing id with
  | zero => exact List.nodup_singleton id
  | succ n ih =>
    cases hc : g.containerOf? id with
    | none =>
      rw [chainFrom_of_containerOf?_eq_none hc]
      exact List.nodup_singleton id
    | some container =>
      rw [chainFrom_succ_of_container hc]
      refine List.nodup_cons.mpr ⟨fun hmem => ?_, ih container⟩
      exact h id ⟨container, hc, encloses_of_mem_chainFrom hmem⟩

theorem hasOutermost_of_acyclic (h : g.Acyclic) (id : String) : g.hasOutermost id = true :=
  hasOutermost_of_nodup (nodup_chainFrom h _ id)

/-- A chain that has come to its end stays as it is when one more step is allowed. -/
theorem EndsWithin.chainFrom_succ {n : Nat} {id : String} (h : g.EndsWithin n id) :
    g.chainFrom (n + 1) id = g.chainFrom n id := by
  induction n generalizing id with
  | zero =>
    have hn : g.containerOf? id = none := h
    rw [chainFrom_of_containerOf?_eq_none hn, chainFrom_of_containerOf?_eq_none hn]
  | succ n ih =>
    cases hc : g.containerOf? id with
    | none => rw [chainFrom_of_containerOf?_eq_none hc, chainFrom_of_containerOf?_eq_none hc]
    | some container =>
      rw [chainFrom_succ_of_container hc, chainFrom_succ_of_container hc,
        ih ((endsWithin_succ_iff hc).mp h)]

theorem chain_of_container (h : g.Acyclic) {id container : String}
    (hc : g.containerOf? id = some container) : g.chain id = id :: g.chain container := by
  have hend := hasOutermost_iff.mp (hasOutermost_of_acyclic h id)
  have hpos : g.declarations.length ≠ 0 := by
    intro hzero
    have hmem := mem_ids_of_containerOf? hc
    rw [ids, List.length_eq_zero_iff.mp hzero] at hmem
    exact List.not_mem_nil hmem
  obtain ⟨n, hn⟩ := Nat.exists_eq_succ_of_ne_zero hpos
  rw [hn, endsWithin_succ_iff hc] at hend
  rw [chain, chain, hn, chainFrom_succ_of_container hc, hend.chainFrom_succ]

/-- The search answers exactly the relation. -/
theorem encloses_iff (h : g.Acyclic) {outer inner : String} :
    g.encloses outer inner = true ↔ Encloses g outer inner := by
  refine ⟨.of_encloses, fun he => ?_⟩
  rw [encloses, List.contains_iff_mem]
  induction he with
  | refl => exact self_mem_chain g _
  | step hc _ ih =>
    rw [chain_of_container h hc]
    exact List.mem_cons_of_mem _ ih

/-- A declaration is one deeper than the type around it. -/
theorem depth_of_container (h : g.Acyclic) {id container : String}
    (hc : g.containerOf? id = some container) : g.depth id = g.depth container + 1 := by
  have hpos := List.length_pos_of_mem (self_mem_chain g container)
  rw [depth, depth, chain_of_container h hc, List.length_cons]
  omega

/-- A cycle through a declaration is also one through its container. -/
theorem Contains.of_container {id container : String} (h : g.Contains id id)
    (hc : g.containerOf? id = some container) : g.Contains container container := by
  obtain ⟨container', hc', rest⟩ := h
  rw [hc] at hc'
  cases hc'
  have hout : Encloses g container id := .step hc (.refl container)
  rcases rest.eq_or_contains with rfl | ⟨outer, ho, rest⟩
  · exact ⟨id, hc, .refl id⟩
  · exact ⟨outer, ho, hout.trans rest⟩

/-- A declaration whose chain comes to an end does not contain itself. -/
theorem EndsWithin.not_contains_self {n : Nat} {id : String} (h : g.EndsWithin n id) :
    ¬ g.Contains id id := by
  induction n generalizing id with
  | zero =>
    rintro ⟨container, hc, -⟩
    have hn : g.containerOf? id = none := h
    rw [hn] at hc
    cases hc
  | succ n ih =>
    intro hself
    have ⟨container, hc, _⟩ := hself
    exact ih ((endsWithin_succ_iff hc).mp h) (hself.of_container hc)

/-- Containment has no cycle if the chains of all declarations come to an end. -/
theorem acyclic_of_hasOutermost (h : ∀ d ∈ g.declarations, g.hasOutermost d.id = true) : g.Acyclic := by
  intro id hself
  have ⟨_, hc, _⟩ := hself
  obtain ⟨d, hd, rfl⟩ := List.mem_map.mp (mem_ids_of_containerOf? hc)
  exact (hasOutermost_iff.mp (h d hd)).not_contains_self hself

/-! ## Outermost types -/

theorem exists_isOutermost_of_hasOutermost {id : String} (h : g.hasOutermost id = true) :
    ∃ root, g.IsOutermost root id := by
  have hend := hasOutermost_iff.mp h
  have hne := chainFrom_ne_nil g g.declarations.length id
  rw [EndsWithin, List.getLast?_eq_some_getLast hne] at hend
  exact ⟨_, encloses_of_mem_chainFrom (List.getLast_mem hne), hend⟩

/-- Every declaration has an outermost type around it. -/
theorem exists_isOutermost (h : g.Acyclic) (id : String) : ∃ root, g.IsOutermost root id :=
  exists_isOutermost_of_hasOutermost (hasOutermost_of_acyclic h id)

theorem IsOutermost.unique {r r' id : String} (h : g.IsOutermost r id) (h' : g.IsOutermost r' id) :
    r = r' := by
  rcases h.1.linear h'.1 with hr | hr
  · exact hr.eq_of_containerOf?_eq_none h'.2
  · exact (hr.eq_of_containerOf?_eq_none h.2).symm

/-- The outermost type of a type is that of everything in it. -/
theorem IsOutermost.of_encloses {root outer inner : String} (h : g.IsOutermost root outer)
    (he : Encloses g outer inner) : g.IsOutermost root inner :=
  ⟨h.1.trans he, h.2⟩

end LeastAccess.Graph
