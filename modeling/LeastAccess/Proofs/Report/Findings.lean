import LeastAccess.Proofs.Withdrawal.Contents
import LeastAccess.Proofs.Resolver.PlainJoin
import LeastAccess.Report
import Mathlib.Data.List.Induction
import Mathlib.Data.List.Nodup

/-!
# Findings as a map

When every declaration has one finding and ids are unique, findings are a map from ids to resolutions.
All that a report reads off them is determined by this map, so the order of the findings and the number
of sites that were looked at do not show in it.

* `resolutionOf?_of_mem` — looking up a declaration answers its finding
* `isBroadest_containerLevels` — the levels that a type gets directly
* `perm_resolutions` — the resolutions that the figures count
-/

namespace LeastAccess

/-! ## Contributions -/

/-- A finding contributes the same whatever the number of sites that were looked at. -/
theorem Finding.contribution?_eq_of_verdict {d : Declaration} {r r' : Resolution}
    (h : r.verdict = r'.verdict) :
    (Finding.mk d r).contribution? = (Finding.mk d r').contribution? := by
  cases r <;> cases r' <;> simp_all [Resolution.verdict, contribution?, Resolution.level?]

/-- A level that was found is contributed. -/
theorem Finding.contribution?_of_level? {d : Declaration} {r : Resolution} {level : Level}
    (h : r.level? = some level) : (Finding.mk d r).contribution? = some level := by
  cases r with
  | resolved => exact h
  | kept => exact h
  | excluded => cases h
  | unresolvable => cases h
  | cancelled => cases h

/-- What was not cancelled contributes the level that was found. -/
theorem Finding.contribution?_eq_level? {f : Finding} (h : f.resolution ≠ .cancelled) :
    f.contribution? = f.resolution.level? := by
  rw [contribution?]
  split
  · next hr => exact absurd hr h
  · rfl

namespace Findings

/-- A level that some finding contributes to a type directly. -/
def ContributeTo (fs : Findings) (id : String) (level : Level) : Prop :=
  ∃ f ∈ fs, f.declaration.containerId = some id ∧ f.contribution? = some level

theorem contributeTo_append_iff {fs : Findings} {f : Finding} {id : String} {level : Level} :
    ContributeTo (fs ++ [f]) id level ↔ ContributeTo fs id level ∨
      f.declaration.containerId = some id ∧ f.contribution? = some level := by
  constructor
  · rintro ⟨f', hmem, h⟩
    rcases List.mem_append.mp hmem with hmem | hmem
    · exact Or.inl ⟨f', hmem, h⟩
    · rw [List.mem_singleton.mp hmem] at h
      exact Or.inr h
  · rintro (⟨f', hmem, h⟩ | h)
    · exact ⟨f', List.mem_append_left _ hmem, h⟩
    · exact ⟨f, List.mem_append_right _ (List.mem_singleton.mpr rfl), h⟩

/-- A type directly gets the broadest level that is contributed to it. -/
theorem isBroadest_containerLevels (fs : Findings) (id : String) :
    IsBroadest (fs.ContributeTo id) (fs.containerLevels.get? id) := by
  induction fs using List.reverseRecOn with
  | nil => exact fun l ⟨f, hmem, _⟩ => absurd hmem List.not_mem_nil
  | append_singleton fs f ih =>
    rw [containerLevels_append]
    show IsBroadest _ ((Finding.contribute (containerLevels fs) f).get? id)
    -- the last finding adds to the type directly around its declaration, and to that only
    have hnone (h : ∀ l, ¬ (f.declaration.containerId = some id ∧ f.contribution? = some l)) :
        IsBroadest (ContributeTo (fs ++ [f]) id) ((containerLevels fs).get? id) :=
      ih.congr fun l => by rw [contributeTo_append_iff, or_iff_left (h l)]
    unfold Finding.contribute
    split
    · next container level hc hl =>
      rw [ContainerLevels.get?_accumulate]
      split
      · next heq =>
        subst heq
        have hlast : IsBroadest (· = level) (some level) := ⟨rfl, fun l hl => hl ▸ Level.le_refl _⟩
        refine (Withdrawals.isBroadest_raised ih hlast).congr fun l => ?_
        rw [contributeTo_append_iff, hl, Option.some.injEq, and_iff_right hc, eq_comm]
      · next hne =>
        refine hnone fun l h => hne ?_
        rw [hc] at h
        exact (Option.some.inj h.1).symm
    · next hno => exact hnone fun l h => hno id l h.1 h.2

/-! ## One finding for each declaration -/

/-- Every declaration of a graph has one finding. -/
def Match (g : Graph) (fs : Findings) : Prop := (fs.map (·.declaration)).Perm g.declarations

/-- What a declaration contributes to the types around it. -/
def contributionOf? (fs : Findings) (d : Declaration) : Option Level :=
  (fs.resolutionOf? d.id).bind fun resolution => Finding.contribution? ⟨d, resolution⟩

section

variable {g : Graph} {fs fs' : Findings} {f : Finding} {id : String}

theorem Match.mem_declarations (h : fs.Match g) (hf : f ∈ fs) : f.declaration ∈ g.declarations :=
  h.mem_iff.mp (List.mem_map_of_mem hf)

theorem Match.exists_mem (h : fs.Match g) {d : Declaration} (hd : d ∈ g.declarations) :
    ∃ f ∈ fs, f.declaration = d :=
  List.mem_map.mp (h.mem_iff.mpr hd)

theorem Match.perm_ids (h : fs.Match g) : (fs.map (·.declaration.id)).Perm g.ids := by
  have hids := h.map (·.id)
  rwa [List.map_map] at hids

theorem filter_eq_nil_of_notMem (hid : id ∉ fs.map (·.declaration.id)) :
    fs.filter (·.declaration.id == id) = [] := by
  rw [List.filter_eq_nil_iff]
  intro f hf heq
  exact hid (List.mem_map.mpr ⟨f, hf, beq_iff_eq.mp heq⟩)

/-- The only finding with the id of a declaration is that of the declaration. -/
theorem Match.filter_eq_singleton (hu : g.UniqueIds) (h : fs.Match g) (hf : f ∈ fs) :
    fs.filter (·.declaration.id == f.declaration.id) = [f] := by
  have hnodup := h.perm_ids.nodup_iff.mpr hu
  obtain ⟨before, after, rfl⟩ := List.append_of_mem hf
  rw [List.map_append, List.map_cons, List.nodup_middle, List.nodup_cons, List.mem_append,
    not_or] at hnodup
  obtain ⟨⟨hbefore, hafter⟩, -⟩ := hnodup
  have hself : (f :: after).filter (·.declaration.id == f.declaration.id) =
      f :: after.filter (·.declaration.id == f.declaration.id) :=
    List.filter_cons_of_pos (beq_self_eq_true f.declaration.id)
  rw [List.filter_append, hself, filter_eq_nil_of_notMem hbefore, filter_eq_nil_of_notMem hafter]
  rfl

/-- Looking up a declaration answers its finding. -/
theorem Match.resolutionOf?_of_mem (hu : g.UniqueIds) (h : fs.Match g) (hf : f ∈ fs) :
    fs.resolutionOf? f.declaration.id = some f.resolution := by
  rw [resolutionOf?, h.filter_eq_singleton hu hf]
  rfl

theorem Match.resolutionOf?_eq_none (h : fs.Match g) (hid : id ∉ g.ids) :
    fs.resolutionOf? id = none := by
  rw [← h.perm_ids.mem_iff] at hid
  rw [resolutionOf?, filter_eq_nil_of_notMem hid]
  rfl

theorem Match.levelOf?_eq (hu : g.UniqueIds) (h : fs.Match g) (id : String) :
    fs.levelOf? id = (fs.resolutionOf? id).bind (·.level?) := by
  by_cases hid : id ∈ fs.map (·.declaration.id)
  · obtain ⟨f, hf, rfl⟩ := List.mem_map.mp hid
    rw [h.resolutionOf?_of_mem hu hf, levelOf?, h.filter_eq_singleton hu hf]
    cases hl : f.resolution.level? <;> simp [hl]
  · rw [levelOf?, resolutionOf?, filter_eq_nil_of_notMem hid]
    rfl

/-- What is looked up was found. -/
theorem exists_mem_of_resolutionOf? {r : Resolution} (h : fs.resolutionOf? id = some r) :
    ∃ f ∈ fs, f.declaration.id = id ∧ f.resolution = r := by
  obtain ⟨f, hf, hr⟩ := Option.map_eq_some_iff.mp h
  obtain ⟨hmem, hid⟩ := List.mem_filter.mp (List.mem_of_getLast? hf)
  exact ⟨f, hmem, beq_iff_eq.mp hid, hr⟩

/-- What all findings say about their declarations, the map says about every id. -/
theorem Match.map_resolutionOf? {α : Type} (hu : g.UniqueIds) (h : fs.Match g)
    (view : Resolution → α) (answer : Declaration → α)
    (hview : ∀ f ∈ fs, view f.resolution = answer f.declaration) (id : String) :
    (fs.resolutionOf? id).map view = (g.find? id).map answer := by
  by_cases hid : id ∈ g.ids
  · obtain ⟨d, hd, rfl⟩ := List.mem_map.mp hid
    obtain ⟨f, hf, rfl⟩ := h.exists_mem hd
    rw [h.resolutionOf?_of_mem hu hf, Graph.find?_eq_some_of_mem hu hd, Option.map_some,
      Option.map_some, hview f hf]
  · rw [h.resolutionOf?_eq_none hid, Graph.find?_eq_none_iff.mpr hid]
    rfl

theorem Match.contributionOf?_eq (hu : g.UniqueIds) (h : fs.Match g) (hf : f ∈ fs) :
    fs.contributionOf? f.declaration = f.contribution? := by
  rw [contributionOf?, h.resolutionOf?_of_mem hu hf]
  rfl

/-- What is contributed to a type directly, read off the map. -/
theorem Match.contributeTo_iff (hu : g.UniqueIds) (h : fs.Match g) {level : Level} :
    fs.ContributeTo id level ↔
      ∃ d ∈ g.declarations, d.containerId = some id ∧ fs.contributionOf? d = some level := by
  constructor
  · rintro ⟨f, hf, hc, hl⟩
    exact ⟨f.declaration, h.mem_declarations hf, hc, by rw [h.contributionOf?_eq hu hf, hl]⟩
  · rintro ⟨d, hd, hc, hl⟩
    obtain ⟨f, hf, rfl⟩ := h.exists_mem hd
    exact ⟨f, hf, hc, by rw [← h.contributionOf?_eq hu hf, hl]⟩

theorem eraseDups_of_nodup {ids : List String} (h : ids.Nodup) : ids.eraseDups = ids := by
  induction ids with
  | nil => rfl
  | cons id rest ih =>
    obtain ⟨hid, hrest⟩ := List.nodup_cons.mp h
    have hkeep : rest.filter (fun other => !other == id) = rest := by
      rw [List.filter_eq_self]
      intro other hother
      have hne : other ≠ id := fun heq => hid (heq ▸ hother)
      simpa using hne
    rw [List.eraseDups_cons, hkeep, ih hrest]

/-- The figures count the resolution of every id once. -/
theorem Match.perm_resolutions (hu : g.UniqueIds) (h : fs.Match g) :
    fs.resolutions.Perm (g.ids.filterMap fs.resolutionOf?) := by
  have hnodup := h.perm_ids.nodup_iff.mpr hu
  rw [resolutions, ids, eraseDups_of_nodup hnodup]
  exact h.perm_ids.filterMap _

end

end Findings

end LeastAccess
