import LeastAccess.Graph.Inheritance
import LeastAccess.Proofs.Snapshot.Acceptance
import LeastAccess.Suggestion
import Mathlib.Tactic.Simps.Basic

/-!
# Adopting suggestions

Whoever adopts suggestions writes the suggested levels into the modifiers of the declarations and leaves
everything else as it is. So ids, containers and super types stay, and with them all that is computed from
these.

* `find?_adopt`, `encloses_adopt`, `inherits_adopt` — the graph stays as it was
* `checkIntegrity_adopt` — what was accepted stays acceptable
-/

namespace LeastAccess

/-! ## Other levels -/

/-- Modifiers with another level. -/
def Modifiers.withAccess (m : Modifiers) (level : Level) : Modifiers :=
  { m with access := level, isPrivate := m.isPrivate || level == .priv }

namespace Declaration

/-- A declaration with another level. -/
def withAccess (d : Declaration) (level : Level) : Declaration :=
  { d with modifiers := d.modifiers.map (·.withAccess level) }

/-- A declaration at the level that is suggested for it, if there is one. -/
@[simps id kind typeKind packageName containerId annotations isAnonymous isLocal superTypeIds]
def adopt (suggestions : List Suggestion) (d : Declaration) : Declaration :=
  { d with
    modifiers :=
      match suggestions.find? (·.declarationId == d.id) with
      | some s => d.modifiers.map (·.withAccess s.suggested)
      | none => d.modifiers }

/-- A declaration for which nothing is suggested stays as it is. -/
theorem adopt_cases (suggestions : List Suggestion) (d : Declaration) :
    (d.adopt suggestions = d ∧ ∀ s ∈ suggestions, s.declarationId ≠ d.id) ∨
      ∃ s ∈ suggestions, s.declarationId = d.id ∧ d.adopt suggestions = d.withAccess s.suggested := by
  cases hs : suggestions.find? (·.declarationId == d.id) with
  | none =>
    refine Or.inl ⟨by rw [adopt, hs], fun s hmem hid => ?_⟩
    exact List.find?_eq_none.mp hs s hmem (beq_iff_eq.mpr hid)
  | some s =>
    exact Or.inr ⟨s, List.mem_of_find?_eq_some hs, by simpa using List.find?_some hs, by
      rw [adopt, hs, withAccess]⟩

section

variable (suggestions : List Suggestion) (d : Declaration)

@[simp] theorem isStatic_withAccess (level : Level) : (d.withAccess level).isStatic = d.isStatic := by
  rw [isStatic, withAccess, Option.any_map]
  rfl

@[simp] theorem isStatic_adopt : (d.adopt suggestions).isStatic = d.isStatic := by
  rcases d.adopt_cases suggestions with ⟨h, -⟩ | ⟨s, -, -, h⟩
  · rw [h]
  · rw [h, isStatic_withAccess]

@[simp] theorem isType_adopt : (d.adopt suggestions).isType = d.isType := rfl

@[simp] theorem isMethod_adopt : (d.adopt suggestions).isMethod = d.isMethod := rfl

@[simp] theorem isInnerType_adopt : (d.adopt suggestions).isInnerType = d.isInnerType := rfl

end

/-- Another level is the current one, where there was one before. -/
theorem access?_withAccess {d : Declaration} {current : Level} (h : d.access? = some current)
    (level : Level) : (d.withAccess level).access? = some level := by
  obtain ⟨m, hm, -⟩ := Option.map_eq_some_iff.mp h
  rw [withAccess, access?, hm]
  rfl

end Declaration

namespace Graph

/-- A graph whose declarations have adopted suggestions. -/
def adopt (g : Graph) (suggestions : List Suggestion) : Graph :=
  ⟨g.declarations.map (·.adopt suggestions)⟩

section

variable (g : Graph) (suggestions : List Suggestion)

/-! ## Look-ups -/

theorem declarations_adopt :
    (g.adopt suggestions).declarations = g.declarations.map (·.adopt suggestions) := rfl

@[simp] theorem ids_adopt : (g.adopt suggestions).ids = g.ids := by
  simp [ids, adopt, Function.comp_def]

@[simp] theorem find?_adopt (id : String) :
    (g.adopt suggestions).find? id = (g.find? id).map (·.adopt suggestions) := by
  simp only [find?, adopt, ← List.map_reverse, List.find?_map, Function.comp_def, Declaration.adopt_id]

@[simp] theorem containerOf?_adopt (id : String) :
    (g.adopt suggestions).containerOf? id = g.containerOf? id := by
  rw [containerOf?, find?_adopt, containerOf?]
  cases g.find? id <;> simp

@[simp] theorem superTypesOf_adopt (id : String) :
    (g.adopt suggestions).superTypesOf id = g.superTypesOf id := by
  rw [superTypesOf, find?_adopt, superTypesOf]
  cases g.find? id <;> simp

@[simp] theorem membersOf_adopt (id : String) :
    (g.adopt suggestions).membersOf id = (g.membersOf id).map (·.adopt suggestions) := by
  simp [membersOf, adopt, List.filter_map, Function.comp_def]

/-! ## Containment -/

@[simp] theorem chainFrom_adopt (n : Nat) (id : String) :
    (g.adopt suggestions).chainFrom n id = g.chainFrom n id := by
  induction n generalizing id with
  | zero => rfl
  | succ n ih =>
    rw [chainFrom, containerOf?_adopt, chainFrom]
    cases g.containerOf? id with
    | none => rfl
    | some container => simp only [ih]

@[simp] theorem chain_adopt (id : String) : (g.adopt suggestions).chain id = g.chain id := by
  have hlength : (g.adopt suggestions).declarations.length = g.declarations.length := by simp [adopt]
  rw [chain, hlength, chainFrom_adopt, chain]

@[simp] theorem encloses_adopt (outer inner : String) :
    (g.adopt suggestions).encloses outer inner = g.encloses outer inner := by
  rw [encloses, chain_adopt, encloses]

/-! ## Inheritance -/

@[simp] theorem search_adopt (base : String) (visited queue : List String) :
    (g.adopt suggestions).search base visited queue = g.search base visited queue := by
  -- both searches put the same super types into their queues
  fun_induction search g base visited queue with
  | case1 => rw [search]
  | case2 visited id queue h ih => rw [search, dif_pos h, ih]
  | case3 visited queue h => rw [search, dif_neg h, if_pos rfl]
  | case4 visited id queue h hne ih =>
    rw [search, dif_neg h, if_neg hne, superTypesOf_adopt, ih]

@[simp] theorem inherits_adopt (id base : String) :
    (g.adopt suggestions).inherits id base = g.inherits id base := by
  rw [inherits, superTypesOf_adopt, search_adopt, inherits]

end

/-! ## Contents -/

section

variable {g : Graph} {suggestions : List Suggestion} {outer inner : String}

theorem mem_declarations_adopt {d : Declaration} :
    d ∈ (g.adopt suggestions).declarations ↔ ∃ d' ∈ g.declarations, d'.adopt suggestions = d :=
  List.mem_map

theorem contains_adopt_iff : (g.adopt suggestions).Contains outer inner ↔ g.Contains outer inner :=
  ⟨.congr fun id => (containerOf?_adopt g suggestions id).symm,
    .congr fun id => containerOf?_adopt g suggestions id⟩

end

end Graph

/-! ## Snapshots -/

/-- A codebase whose declarations have adopted suggestions; the usages stay. -/
def Codebase.adopt (c : Codebase) (suggestions : List Suggestion) : Codebase :=
  { c with graph := c.graph.adopt suggestions }

section

variable (c : Codebase) (suggestions : List Suggestion)

@[simp] theorem Graph.duplicateIds_map_adopt (seen : List String) (ds : List Declaration) :
    duplicateIds seen (ds.map (·.adopt suggestions)) = duplicateIds seen ds := by
  induction ds generalizing seen with
  | nil => rfl
  | cons d ds ih => simp [duplicateIds, ih]

theorem Graph.containerIssue?_adopt (g : Graph) (d : Declaration) :
    (g.adopt suggestions).containerIssue? (d.adopt suggestions) = g.containerIssue? d := by
  rw [containerIssue?, containerIssue?, Declaration.adopt_containerId]
  cases d.containerId with
  | none => rfl
  | some id => cases hf : g.find? id <;> simp [hf]

@[simp] theorem Graph.entryIssues_adopt (g : Graph) (part : UsageSection) :
    (g.adopt suggestions).entryIssues part = g.entryIssues part := by
  funext entry
  have htype (id : String) : (g.adopt suggestions).declaresType id = g.declaresType id := by
    rw [declaresType, find?_adopt, declaresType]
    cases g.find? id <;> simp
  have hsite (position : Nat) (site : UsageSite) :
      (g.adopt suggestions).siteIssue? part entry.1 position site =
        g.siteIssue? part entry.1 position site := by
    rw [siteIssue?, siteIssue?]
    cases site.enclosingTypeId <;> simp [htype]
  simp [entryIssues, hsite]

/-- A snapshot stays acceptable. -/
theorem Snapshot.checkIntegrity_adopt {c c' : Codebase} (h : checkIntegrity c = .ok c')
    (suggestions : List Suggestion) :
    checkIntegrity (c.adopt suggestions) = .ok (c.adopt suggestions) := by
  obtain ⟨-, hreferences, hcycles⟩ := checkIntegrity_eq_ok h
  have hreferences' : (c.adopt suggestions).referenceIssues = [] := by
    rw [← hreferences, Codebase.referenceIssues, Codebase.referenceIssues]
    simp [Codebase.adopt, Graph.declarations_adopt, List.filterMap_map, Graph.containerIssue?_adopt]
  have hcycles' : (c.adopt suggestions).containmentIssues = [] := by
    rw [← hcycles, Codebase.containmentIssues, Codebase.containmentIssues]
    simp [Codebase.adopt, Graph.declarations_adopt, List.filterMap_map, Graph.cycleEntry?]
  rw [checkIntegrity, if_neg (not_not.mpr hreferences'), if_neg (not_not.mpr hcycles')]

end

end LeastAccess
