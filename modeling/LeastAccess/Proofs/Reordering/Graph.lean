import LeastAccess.Proofs.Graph.Supertypes
import LeastAccess.Proofs.Json.KeyOrder
import LeastAccess.Proofs.Reordering.Shuffled
import LeastAccess.Proofs.Snapshot.Acceptance

/-!
# Graphs in another order

A declaration lists its annotations and its super types, a graph its declarations, and a codebase the usage
sites of each id. In another order they look up the same, since ids are unique, and contain and inherit the
same: containment goes by look-ups alone, and a search finds a super type whatever the order in which it
looks at them.

* `Reordered.find?` — looking up an id
* `Reordered.encloses_eq`, `Reordered.inherits_eq` — containment and inheritance
* `Codebase.Reordered.referencesResolve` — references lead somewhere in every order
-/

namespace LeastAccess

/-- The same declaration with its annotations and its super types in some other order. -/
inductive Declaration.Reordered (d : Declaration) : Declaration → Prop
  | intro {annotations superTypeIds : List String} (hannotations : d.annotations.Perm annotations)
      (hsuper : d.superTypeIds.Perm superTypeIds) : Reordered d { d with annotations, superTypeIds }

section

variable {d d' : Declaration}

theorem Declaration.Reordered.id_eq (h : d.Reordered d') : d.id = d'.id := by
  obtain ⟨-, -⟩ := h
  rfl

theorem Declaration.Reordered.symm (h : d.Reordered d') : d'.Reordered d := by
  obtain ⟨hannotations, hsuper⟩ := h
  exact ⟨hannotations.symm, hsuper.symm⟩

theorem Declaration.Reordered.isMethod_eq (h : d.Reordered d') : d.isMethod = d'.isMethod := by
  obtain ⟨-, -⟩ := h
  rfl

theorem Declaration.Reordered.isType_eq (h : d.Reordered d') : d.isType = d'.isType := by
  obtain ⟨-, -⟩ := h
  rfl

end

/-! ## Graphs -/

namespace Graph

/-- The same declarations in some other order. -/
def Reordered (g g' : Graph) : Prop := Shuffled Declaration.Reordered g.declarations g'.declarations

namespace Reordered

variable {g g' : Graph} {id outer inner base : String} {d d' : Declaration}

theorem perm_ids (h : g.Reordered g') : g.ids.Perm g'.ids := h.perm_map fun _ _ => Declaration.Reordered.id_eq

theorem symm (h : g.Reordered g') : g'.Reordered g := Shuffled.symm (fun _ _ => Declaration.Reordered.symm) h

theorem uniqueIds (h : g.Reordered g') (hu : g.UniqueIds) : g'.UniqueIds := h.perm_ids.nodup hu

section

variable (h : g.Reordered g') (hu : g.UniqueIds)

include h hu

/-- An id stands for the same declaration. -/
theorem find? (id : String) : Option.Rel Declaration.Reordered (g.find? id) (g'.find? id) := by
  cases hf : g'.find? id with
  | none =>
    rw [find?_eq_none_iff, ← h.perm_ids.mem_iff, ← find?_eq_none_iff] at hf
    rw [hf]
    exact .none
  | some d' =>
    obtain ⟨d, hd, hr⟩ := h.exists_left (mem_of_find? hf)
    rw [← find?_id hf, ← hr.id_eq, find?_eq_some_of_mem hu hd]
    exact .some hr

/-- A declaration is directly in the same declaration. -/
theorem rel_container (hr : d.Reordered d') :
    Option.Rel Declaration.Reordered (d.containerId.bind g.find?) (d'.containerId.bind g'.find?) := by
  obtain ⟨-, -⟩ := hr
  cases hc : d.containerId with
  | none => exact .none
  | some id => exact h.find? hu id

theorem exists_right (hd : d ∈ g.declarations) : ∃ d' ∈ g'.declarations, d.Reordered d' := by
  have hd := find?_eq_some_of_mem hu hd
  rcases rel_cases (h.find? hu d.id) with ⟨hf, -⟩ | ⟨e, d', hf, hf', hr⟩
  · rw [hf] at hd
    cases hd
  · rw [hf] at hd
    cases hd
    exact ⟨d', mem_of_find? hf', hr⟩

/-! ## Containment -/

theorem containerOf?_eq (id : String) : g.containerOf? id = g'.containerOf? id := by
  rw [containerOf?, containerOf?]
  rcases rel_cases (h.find? hu id) with ⟨hf, hf'⟩ | ⟨d, d', hf, hf', hr⟩
  · rw [hf, hf']
  · obtain ⟨-, -⟩ := hr
    rw [hf, hf']
    rfl

theorem contains_iff : g.Contains outer inner ↔ g'.Contains outer inner :=
  ⟨.congr fun id => (h.containerOf?_eq hu id).symm, .congr (h.containerOf?_eq hu)⟩

theorem acyclic (hacyclic : g.Acyclic) : g'.Acyclic := fun id hself =>
  hacyclic id ((h.contains_iff hu).mpr hself)

theorem encloses_eq (hacyclic : g.Acyclic) (outer inner : String) :
    g.encloses outer inner = g'.encloses outer inner := by
  rw [Bool.eq_iff_iff, encloses_iff hacyclic, encloses_iff (h.acyclic hu hacyclic)]
  exact ⟨.congr fun id => (h.containerOf?_eq hu id).symm, .congr (h.containerOf?_eq hu)⟩

/-! ## Inheritance -/

theorem perm_superTypesOf (id : String) : (g.superTypesOf id).Perm (g'.superTypesOf id) := by
  rw [superTypesOf, superTypesOf]
  rcases rel_cases (h.find? hu id) with ⟨hf, hf'⟩ | ⟨d, d', hf, hf', hr⟩
  · rw [hf, hf']
  · obtain ⟨-, hsuper⟩ := hr
    rw [hf, hf']
    exact hsuper

theorem reaches_iff : g.Reaches id base ↔ g'.Reaches id base := by
  have hmem (id super : String) : super ∈ g.superTypesOf id ↔ super ∈ g'.superTypesOf id :=
    (h.perm_superTypesOf hu id).mem_iff
  constructor
  · intro hr
    induction hr with
    | direct hsuper => exact .direct ((hmem _ _).mp hsuper)
    | step hsuper _ ih => exact .step ((hmem _ _).mp hsuper) ih
  · intro hr
    induction hr with
    | direct hsuper => exact .direct ((hmem _ _).mpr hsuper)
    | step hsuper _ ih => exact .step ((hmem _ _).mpr hsuper) ih

/-- The searches look at super types in different orders, and both of them find them all. -/
theorem inherits_eq (id base : String) : g.inherits id base = g'.inherits id base := by
  rw [Bool.eq_iff_iff, inherits_iff, inherits_iff, Inherits, Inherits, h.reaches_iff hu]

/-! ## Types -/

theorem hasType_iff : g.HasType id ↔ g'.HasType id := by
  rw [HasType, HasType]
  rcases rel_cases (h.find? hu id) with ⟨hf, hf'⟩ | ⟨d, d', hf, hf', hr⟩
  · simp [hf, hf']
  · simp [hf, hf', hr.isType_eq]

end

theorem wellFormed (h : g.Reordered g') (hw : g.WellFormed) : g'.WellFormed := by
  refine ⟨h.uniqueIds hw.uniqueIds, fun d' hd' id hc => ?_, h.acyclic hw.uniqueIds hw.acyclic⟩
  obtain ⟨d, hd, -, -⟩ := h.exists_left hd'
  exact (h.hasType_iff hw.uniqueIds).mp (hw.container_isType d hd id hc)

end Reordered

end Graph

/-! ## Codebases -/

/-- The same declarations in some other order, and under each id the same usage sites in some other order.
Ids without usages are listed in both or in neither. -/
structure Codebase.Reordered (c c' : Codebase) : Prop where
  graph : c.graph.Reordered c'.graph
  usages : ∀ part id, Option.Rel List.Perm ((c.usages.entries part).lookup id)
    ((c'.usages.entries part).lookup id)

namespace Codebase.Reordered

variable {c c' : Codebase}

theorem perm_sites (h : c.Reordered c') (part : UsageSection) (id : String) :
    (c.usages.sites part id).Perm (c'.usages.sites part id) := by
  rw [UsageIndex.sites, UsageIndex.sites]
  rcases rel_cases (h.usages part id) with ⟨hl, hl'⟩ | ⟨sites, sites', hl, hl', hperm⟩
  · rw [hl, hl']
  · rw [hl, hl']
    exact hperm

/-- What is listed for an id in one order is listed for it in the other one. -/
theorem exists_entry (h : c.Reordered c') (hkeys : ∀ part, ((c.usages.entries part).map Prod.fst).Nodup)
    (hkeys' : ∀ part, ((c'.usages.entries part).map Prod.fst).Nodup) {part : UsageSection}
    {entry : String × List UsageSite} (hentry : entry ∈ c'.usages.entries part) :
    ∃ sites, (entry.1, sites) ∈ c.usages.entries part ∧ sites.Perm entry.2 := by
  have hlookup : (c'.usages.entries part).lookup entry.1 = some entry.2 := by
    rw [Members.lookup_eq_get? (hkeys' part)]
    exact (Members.get?_eq_some_iff_mem (hkeys' part)).mpr hentry
  rcases rel_cases (h.usages part entry.1) with ⟨-, hl'⟩ | ⟨sites, sites', hl, hl', hperm⟩
  · rw [hlookup] at hl'
    cases hl'
  · rw [hlookup] at hl'
    cases hl'
    rw [Members.lookup_eq_get? (hkeys part)] at hl
    exact ⟨sites, Members.mem_of_get? hl, hperm⟩

/-- References that resolve do so in every order. -/
theorem referencesResolve (h : c.Reordered c') (hr : c.ReferencesResolve)
    (hkeys : ∀ part, ((c.usages.entries part).map Prod.fst).Nodup)
    (hkeys' : ∀ part, ((c'.usages.entries part).map Prod.fst).Nodup) : c'.ReferencesResolve := by
  have htype {id : String} : c.graph.HasType id ↔ c'.graph.HasType id := h.graph.hasType_iff hr.uniqueIds
  refine ⟨h.graph.uniqueIds hr.uniqueIds, ?_, ?_, ?_⟩
  · intro d' hd' id hc
    obtain ⟨d, hd, -, -⟩ := h.graph.exists_left hd'
    exact htype.mp (hr.containers d hd id hc)
  · intro part entry hentry
    obtain ⟨sites, hmem, -⟩ := h.exists_entry hkeys hkeys' hentry
    exact h.graph.perm_ids.mem_iff.mp (hr.usages part (entry.1, sites) hmem)
  · intro part entry hentry site hsite id henclosing
    obtain ⟨sites, hmem, hperm⟩ := h.exists_entry hkeys hkeys' hentry
    exact htype.mp (hr.enclosingTypes part (entry.1, sites) hmem site (hperm.mem_iff.mpr hsite) id henclosing)

end Codebase.Reordered

end LeastAccess
