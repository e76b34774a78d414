import LeastAccess.Proofs.Graph.Nesting
import LeastAccess.Proofs.Graph.Supertypes
import LeastAccess.Resolver

/-!
# Which references a level admits

`Level.Admits` says who may refer to a declaration of a level: the outermost type around it, for package
access also its package, for protected access also the subtypes of the type it is in. The level that a
reference requires, and every broader one, admits the reference. Below public access such a reference is
in source code and understood by the front end.

* `sameNest_of_isLocalAccess` — both ways to be in a nest lead to the same outermost type
* `admits_of_siteLevel` — a level that a reference requires admits it
-/

namespace LeastAccess

/-! ## Nests -/

/-- Two types with the same outermost type around them. -/
def Graph.SameNest (g : Graph) (a b : String) : Prop :=
  ∃ root, g.IsOutermost root a ∧ g.IsOutermost root b

namespace Graph

variable {g : Graph}

theorem SameNest.symm {a b : String} (h : g.SameNest a b) : g.SameNest b a := by
  obtain ⟨root, ha, hb⟩ := h
  exact ⟨root, hb, ha⟩

theorem SameNest.of_encloses (ha : g.Acyclic) {outer inner : String} (he : Encloses g outer inner) :
    g.SameNest outer inner := by
  obtain ⟨root, hroot⟩ := exists_isOutermost ha outer
  exact ⟨root, hroot, hroot.of_encloses he⟩

/-- Whichever of two types encloses the other, they are in the same nest. -/
theorem sameNest_of_isLocalAccess (ha : g.Acyclic) {enclosing container : Declaration}
    (h : isLocalAccess g enclosing container = true) : g.SameNest enclosing.id container.id := by
  rw [isLocalAccess, Bool.or_eq_true, Bool.and_eq_true] at h
  rcases h with he | ⟨_, he⟩
  · exact .of_encloses ha (.of_encloses he)
  · exact (SameNest.of_encloses ha (.of_encloses he)).symm

end Graph

/-! ## Admission -/

namespace UsageSite

/-- A reference from the outermost type around a declaration. -/
def SharesNest (g : Graph) (s : UsageSite) (d : Declaration) : Prop :=
  ∃ enclosing container, s.enclosing? g = some enclosing ∧ d.containerId = some container ∧
    g.SameNest enclosing.id container

/-- A reference from a subtype of the type around a declaration, with no expression before it and calling
no constructor. -/
structure Inherits (g : Graph) (s : UsageSite) (d : Declaration) : Prop where
  subtype : ∃ enclosing container, s.enclosing? g = some enclosing ∧ d.containerId = some container ∧
    g.Inherits enclosing.id container
  unqualified : s.qualifier.isExpression = false
  noConstructorCall : s.isConstructorCall = false

end UsageSite

/-- Who may refer to a declaration of a level. -/
def Level.Admits (g : Graph) (level : Level) (d : Declaration) (s : UsageSite) : Prop :=
  match level with
  | .priv => s.SharesNest g d
  | .pkg => s.SharesNest g d ∨ s.packageName = d.packageName
  | .prot => s.SharesNest g d ∨ s.packageName = d.packageName ∨ s.Inherits g d
  | .pub => True

namespace Level

variable {g : Graph} {level : Level} {d : Declaration} {s : UsageSite}

theorem admits_of_sharesNest (h : s.SharesNest g d) : level.Admits g d s := by
  cases level with
  | priv => exact h
  | pkg => exact Or.inl h
  | prot => exact Or.inl h
  | pub => trivial

theorem admits_of_samePackage (hle : pkg ≤ level) (h : s.packageName = d.packageName) :
    level.Admits g d s := by
  cases level with
  | priv => exact absurd hle (by decide)
  | pkg => exact Or.inr h
  | prot => exact Or.inr (Or.inl h)
  | pub => trivial

theorem admits_of_inherits (hle : prot ≤ level) (h : s.Inherits g d) : level.Admits g d s := by
  cases level with
  | priv => exact absurd hle (by decide)
  | pkg => exact absurd hle (by decide)
  | prot => exact Or.inr (Or.inr h)
  | pub => trivial

end Level

/-! ## Requirements -/

section

variable {g : Graph} {o : Options} {s : UsageSite} {d : Declaration} {container : Option Declaration}
  {level : Level}

theorem containerId_of_bind_find? {type : Declaration} (h : d.containerId.bind g.find? = some type) :
    d.containerId = some type.id := by
  obtain ⟨id, hid, hf⟩ := Option.bind_eq_some_iff.mp h
  rw [hid, Graph.find?_id hf]

/-- A reference that stands in the nest of the declaring type shares it. -/
theorem UsageSite.sharesNest_of_isInNest (ha : g.Acyclic) {type : Declaration}
    (hc : d.containerId.bind g.find? = some type) (h : s.isInNest g type = true) : s.SharesNest g d := by
  obtain ⟨enclosing, henclosing, hlocal⟩ := (Option.any_eq_true _ _).mp h
  exact ⟨enclosing, type.id, henclosing, containerId_of_bind_find? hc,
    Graph.sameNest_of_isLocalAccess ha hlocal⟩

theorem UsageSite.inherits_of_isInSubtype {type : Declaration}
    (hc : d.containerId.bind g.find? = some type) (hq : s.qualifier.isExpression = false)
    (h : s.isInSubtype g type = true) : s.Inherits g d := by
  obtain ⟨enclosing, henclosing, hsub⟩ := (Option.any_eq_true _ _).mp h
  rw [Bool.and_eq_true, Bool.not_eq_true'] at hsub
  have hsubtype : g.Inherits enclosing.id type.id := .of_inherits hsub.1
  exact ⟨⟨enclosing, type.id, henclosing, containerId_of_bind_find? hc, hsubtype⟩, hq, hsub.2⟩

theorem admits_of_outsideLevel (hc : d.containerId.bind g.find? = container)
    (hle : outsideLevel g o s d container ≤ level) (hlt : level < .pub) : level.Admits g d s := by
  have hpkg := Level.le_trans (pkg_le_outsideLevel g o s d container) hle
  have hnot : ¬ Level.pub ≤ level := Level.not_le.mpr hlt
  rw [outsideLevel] at hle
  split at hle
  · next hin =>
    rw [UsageSite.isInPackageOf, Bool.and_eq_true, beq_iff_eq] at hin
    exact Level.admits_of_samePackage hpkg hin.1
  · split at hle
    · exact absurd hle hnot
    · next hexpression =>
      split at hle
      · next hsub =>
        obtain ⟨type, rfl, hsub⟩ := (Option.any_eq_true _ _).mp hsub
        exact Level.admits_of_inherits hle
          (UsageSite.inherits_of_isInSubtype hc (Bool.eq_false_iff.mpr hexpression) hsub)
      · exact absurd hle hnot

/-- A level that a reference requires admits it, and below public access the reference is understood. -/
theorem admits_of_requiredLevel (ha : g.Acyclic) (hc : d.containerId.bind g.find? = container)
    (hle : requiredLevel g o s d container ≤ level) (hlt : level < .pub) :
    s.resolved = true ∧ level.Admits g d s := by
  have hnot : ¬ Level.pub ≤ level := Level.not_le.mpr hlt
  unfold requiredLevel at hle
  split at hle
  · exact absurd hle hnot
  · next hresolved =>
    refine ⟨by simpa using hresolved, ?_⟩
    cases container with
    | none => exact admits_of_outsideLevel hc hle hlt
    | some type =>
      simp only [] at hle
      split at hle
      · next hnest => exact Level.admits_of_sharesNest (UsageSite.sharesNest_of_isInNest ha hc hnest)
      · exact admits_of_outsideLevel hc hle hlt

/-- So does the level that the scan finds for it, and the reference is in source code. -/
theorem admits_of_siteLevel (ha : g.Acyclic) (hc : d.containerId.bind g.find? = container)
    (hle : siteLevel g o d container s ≤ level) (hlt : level < .pub) :
    s.origin = .source ∧ s.resolved = true ∧ level.Admits g d s := by
  rw [siteLevel] at hle
  split at hle
  · exact absurd hle (Level.not_le.mpr hlt)
  · next hsource =>
    refine ⟨?_, admits_of_requiredLevel ha hc hle hlt⟩
    cases horigin : s.origin with
    | source => rfl
    | descriptor file => simp [UsageSite.isDescriptor, horigin] at hsource

end

end LeastAccess
