import LeastAccess.Graph.Inheritance

/-!
# Super types

What the breadth-first search finds is a super type: every id in its queue is reached from the type it
started at, so an id that it recognises is reached as well. A search that finds nothing has visited a set
of ids that no step to a super type leads out of, so it has missed nothing.

* `inherits_iff` — the search answers exactly the relation, whatever the order of the super types
-/

namespace LeastAccess.Graph

variable {g : Graph}

/-- The search finds only what is queued or what a queued id reaches. -/
theorem exists_mem_of_search {base : String} {visited queue : List String}
    (h : g.search base visited queue = true) : ∃ id ∈ queue, id = base ∨ Reaches g id base := by
  fun_induction search g base visited queue with
  | case1 => cases h
  | case2 visited id queue hv ih =>
    obtain ⟨found, hmem, hr⟩ := ih h
    exact ⟨found, List.mem_cons_of_mem _ hmem, hr⟩
  | case3 visited queue hv => exact ⟨base, List.mem_cons_self, Or.inl rfl⟩
  | case4 visited id queue hv hne ih =>
    obtain ⟨found, hmem, hr⟩ := ih h
    rcases List.mem_append.mp hmem with hmem | hsuper
    · exact ⟨found, List.mem_cons_of_mem _ hmem, hr⟩
    · refine ⟨id, List.mem_cons_self, Or.inr ?_⟩
      rcases hr with rfl | hr
      · exact .direct hsuper
      · exact .step hsuper hr

/-- What the search answers is in the relation. -/
theorem Inherits.of_inherits {id base : String} (h : g.inherits id base = true) :
    Inherits g id base := by
  rw [inherits] at h
  split at h
  · cases h
  · next hne =>
    obtain ⟨super, hsuper, hr⟩ := exists_mem_of_search h
    refine ⟨hne, ?_⟩
    rcases hr with rfl | hr
    · exact .direct hsuper
    · exact .step hsuper hr

/-- A search that finds nothing ends with ids that are left by no step to a super type, provided that such
steps from the visited ids lead to visited or queued ones. -/
theorem exists_closed_of_search {base : String} {visited queue : List String}
    (h : g.search base visited queue = false) (hbase : base ∉ visited)
    (hvisited : ∀ id ∈ visited, ∀ super ∈ g.superTypesOf id, super ∈ visited ∨ super ∈ queue) :
    ∃ closed : List String, visited ⊆ closed ∧ queue ⊆ closed ∧ base ∉ closed ∧
      ∀ id ∈ closed, ∀ super ∈ g.superTypesOf id, super ∈ closed := by
  fun_induction search g base visited queue with
  | case1 visited =>
    refine ⟨visited, List.Subset.refl _, List.nil_subset _, hbase, fun id hid super hsuper => ?_⟩
    exact (hvisited id hid super hsuper).resolve_right List.not_mem_nil
  | case2 visited id queue hv ih =>
    rw [List.contains_iff_mem] at hv
    obtain ⟨closed, hsub, hqueue, hrest⟩ := ih h hbase fun id' hid super hsuper => by
      rcases hvisited id' hid super hsuper with hmem | hmem
      · exact Or.inl hmem
      · rcases List.mem_cons.mp hmem with rfl | hmem
        · exact Or.inl hv
        · exact Or.inr hmem
    exact ⟨closed, hsub, List.cons_subset.mpr ⟨hsub hv, hqueue⟩, hrest⟩
  | case3 => cases h
  | case4 visited id queue hv hne ih =>
    have hbase' : base ∉ id :: visited := by
      rw [List.mem_cons, not_or]
      exact ⟨Ne.symm hne, hbase⟩
    obtain ⟨closed, hsub, hqueue, hrest⟩ := ih h hbase' fun id' hid super hsuper => by
      rcases List.mem_cons.mp hid with rfl | hid
      · exact Or.inr (List.mem_append_right _ hsuper)
      · rcases hvisited id' hid super hsuper with hmem | hmem
        · exact Or.inl (List.mem_cons_of_mem _ hmem)
        · -- what was at the front of the queue has now been visited
          rcases List.mem_cons.mp hmem with rfl | hmem
          · exact Or.inl List.mem_cons_self
          · exact Or.inr (List.mem_append_left _ hmem)
    obtain ⟨hid, hvisited'⟩ := List.cons_subset.mp hsub
    exact ⟨closed, hvisited', List.cons_subset.mpr ⟨hid, (List.append_subset.mp hqueue).1⟩, hrest⟩

/-- No step to a super type leads out of such ids, so no number of steps does. -/
theorem Reaches.mem_of_closed {closed : List String}
    (hclosed : ∀ id ∈ closed, ∀ super ∈ g.superTypesOf id, super ∈ closed) {id base : String}
    (h : Reaches g id base) (hid : id ∈ closed) : base ∈ closed := by
  induction h with
  | direct hsuper => exact hclosed _ hid _ hsuper
  | step hsuper _ ih => exact ih (hclosed _ hid _ hsuper)

/-- **The search answers exactly the relation.** -/
theorem inherits_iff {id base : String} : g.inherits id base = true ↔ Inherits g id base := by
  refine ⟨Inherits.of_inherits, ?_⟩
  rintro ⟨hne, hr⟩
  rw [inherits, if_neg hne]
  cases hsearch : g.search base [id] (g.superTypesOf id) with
  | true => rfl
  | false =>
    have hbase : base ∉ [id] := fun hmem => hne (List.mem_singleton.mp hmem).symm
    obtain ⟨closed, hsub, -, hout, hclosed⟩ :=
      exists_closed_of_search hsearch hbase fun id' hid super hsuper => by
        obtain rfl := List.mem_singleton.mp hid
        exact Or.inr hsuper
    exact absurd (hr.mem_of_closed hclosed (hsub List.mem_cons_self)) hout

end LeastAccess.Graph
