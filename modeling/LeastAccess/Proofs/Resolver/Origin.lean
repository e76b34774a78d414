import LeastAccess.Proofs.Requirement.Permission
import LeastAccess.Proofs.Resolver.PlainJoin

/-!
# Where a level comes from

A level that is found is one that some usage requires, or the one that takes the place of private access
outside every type. There is one exception: the floor of an entry point joins in as it stands, and no rule
looks at it again unless it is private access outside every type.

* `requirable_or_floorAlone` — a level below the current one can be required, or is a floor
-/

namespace LeastAccess

/-- A level is the floor of an entry point, and every usage requires less. -/
structure Policy.FloorAlone (p : Policy) (c : Codebase) (d : Declaration) (level : Level) : Prop where
  covers : p.entryPoint.covers c.graph d = true
  floor : p.entryPoint.floor? c.graph d = some level
  below : ∀ site ∈ c.sitesOf d,
    siteLevel c.graph p.options d (d.containerId.bind c.graph.find?) site < level

section

variable {c : Codebase} {p : Policy} {d : Declaration} {access current level : Level}
  {container : Option Declaration} {floor : Option Level}

/-- A join over the usages of a declaration is required by one of them, or it is the floor alone. -/
theorem joined_cases (hscreen : screen c.graph p d = .scan access container floor)
    (hused : (c.sitesOf d).isEmpty = false ∨ floor ≠ none) :
    let required := siteLevel c.graph p.options d container
    let joined := Level.join (floor.getD .priv) ((c.sitesOf d).map required)
    (∃ site ∈ c.sitesOf d, required site = joined) ∨ p.FloorAlone c d joined := by
  intro required joined
  by_cases hsite : ∃ site ∈ c.sitesOf d, required site = joined
  · exact Or.inl hsite
  refine Or.inr ?_
  obtain ⟨-, hcontainer⟩ := of_screen_eq_scan hscreen
  -- where no usage requires the join, it comes from the seed, and all usages require less
  have hbelow (site : UsageSite) (h : site ∈ c.sitesOf d) : required site < joined := by
    have hle : required site ≤ joined := Level.le_join (List.mem_map_of_mem h)
    by_contra hlt
    exact hsite ⟨site, h, Level.le_antisymm hle (Level.not_lt.mp hlt)⟩
  have hseed : joined = floor.getD .priv := by
    refine (Level.join_eq_or_mem _ _).resolve_right fun hmem => ?_
    obtain ⟨site, h, heq⟩ := List.mem_map.mp hmem
    exact hsite ⟨site, h, heq⟩
  cases floor with
  | none =>
    -- a usage cannot require less than private access
    have hne := List.isEmpty_eq_false_iff.mp (hused.resolve_right fun h => h rfl)
    obtain ⟨site, h⟩ := List.exists_mem_of_ne_nil _ hne
    exact absurd (hseed ▸ hbelow site h) (Level.not_lt.mpr (Level.priv_le _))
  | some level =>
    obtain ⟨hcovers, hfloor⟩ := startsFrom_of_screen hscreen
    refine ⟨hcovers, ?_, ?_⟩
    · rw [hfloor, hseed]
      rfl
    · rw [hcontainer]
      exact hbelow

/-- A level below the current one is joined from the usages and the floor, and takes effect. -/
theorem exists_scan_of_level?_lt (hl : (plainResolution c p d).level? = some level)
    (haccess : d.access? = some current) (hlt : level < current) :
    ∃ floor, screen c.graph p d = .scan current (d.containerId.bind c.graph.find?) floor ∧
      ((c.sitesOf d).isEmpty = false ∨ floor ≠ none) ∧
      level = effectiveLevel p.options d (d.containerId.bind c.graph.find?) (Level.join (floor.getD .priv)
        ((c.sitesOf d).map (siteLevel c.graph p.options d (d.containerId.bind c.graph.find?)))) := by
  have hnew := access?_ne_of_lt haccess hlt
  cases hscreen : screen c.graph p d with
  | settled resolution =>
    rw [plainResolution, hscreen] at hl
    exact absurd (level?_of_screen hscreen hl) hnew
  | scan access container floor =>
    obtain ⟨hstart, hcontainer⟩ := of_screen_eq_scan hscreen
    obtain rfl : access = current := Option.some.inj (hstart.symm.trans haccess)
    by_cases hused : (c.sitesOf d).isEmpty = false ∨ floor ≠ none
    · rw [plainResolution_of_used hscreen hused] at hl
      cases hl
      rw [hcontainer]
      exact ⟨floor, rfl, hused, rfl⟩
    · -- an unused declaration keeps its level
      rw [plainResolution_of_unused hscreen hused] at hl
      cases hl
      exact absurd hstart hnew

/-- What takes effect is as broad as the join. -/
theorem le_effectiveLevel {o : Options} : level ≤ effectiveLevel o d container level := by
  rw [effectiveLevel]
  split
  · next heffective =>
    rw [Bool.and_eq_true, decide_eq_true_eq] at heffective
    exact heffective.1 ▸ Level.priv_le _
  · exact Level.le_refl _

/-- A level below the current one can be required by usages, or it is a floor alone and is not private
access outside every type. -/
theorem requirable_or_floorAlone (hl : (plainResolution c p d).level? = some level)
    (haccess : d.access? = some current) (hlt : level < current) :
    Requirable p.options d (d.containerId.bind c.graph.find?) level ∨
      p.FloorAlone c d level ∧ (d.containerId.bind c.graph.find? = none → level ≠ .priv) := by
  obtain ⟨floor, hscreen, hused, rfl⟩ := exists_scan_of_level?_lt hl haccess hlt
  rw [effectiveLevel]
  split
  · exact Or.inl .packageLocal
  · next hinside =>
    rcases joined_cases hscreen hused with ⟨site, -, hsite⟩ | hfloor
    · exact Or.inl (hsite ▸ requirable_siteLevel)
    · refine Or.inr ⟨hfloor, fun hnone hpriv => hinside ?_⟩
      rw [Bool.and_eq_true, decide_eq_true_eq]
      exact ⟨hpriv, by rw [hnone]; rfl⟩

end

end LeastAccess
