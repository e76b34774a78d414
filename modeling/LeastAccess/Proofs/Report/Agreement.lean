import LeastAccess.Proofs.Report.Findings

/-!
# Reports on agreeing findings

Two runs that find the same about every declaration report the same, in whatever order they found it and
however many sites they looked at.

* `ofFindings_eq_of_agree` — suggestions, withdrawn types and figures
-/

namespace LeastAccess

/-- Figures depend on how often each status occurs. -/
theorem Stats.ofResolutions_eq_of_perm {rs rs' : List Resolution} (suggestions withdrawn : Nat)
    (h : (rs.map (·.status)).Perm (rs'.map (·.status))) :
    ofResolutions rs suggestions withdrawn = ofResolutions rs' suggestions withdrawn := by
  have hlength : rs.length = rs'.length := by simpa using h.length_eq
  have hcount (status : String) :
      rs.countP (·.status == status) = rs'.countP (·.status == status) := by
    have := h.countP_eq (· == status)
    rwa [List.countP_map, List.countP_map] at this
  simp only [ofResolutions, hlength, hcount]

namespace Findings

/-- Findings that answer the same for every id, up to the number of sites that were looked at. -/
def Agree (fs fs' : Findings) : Prop :=
  ∀ id, (fs.resolutionOf? id).map (·.verdict) = (fs'.resolutionOf? id).map (·.verdict)

section

variable {g : Graph} {fs fs' : Findings}

theorem Agree.cases (ha : fs.Agree fs') (id : String) :
    fs.resolutionOf? id = none ∧ fs'.resolutionOf? id = none ∨
      ∃ r r', fs.resolutionOf? id = some r ∧ fs'.resolutionOf? id = some r' ∧ r.verdict = r'.verdict := by
  have h := ha id
  cases hr : fs.resolutionOf? id with
  | none =>
    cases hr' : fs'.resolutionOf? id with
    | none => exact Or.inl ⟨rfl, rfl⟩
    | some r' => simp [hr, hr'] at h
  | some r =>
    cases hr' : fs'.resolutionOf? id with
    | none => simp [hr, hr'] at h
    | some r' => exact Or.inr ⟨r, r', rfl, rfl, by simpa [hr, hr'] using h⟩

theorem Agree.symm (ha : fs.Agree fs') : fs'.Agree fs := fun id => (ha id).symm

/-- The level of a resolution does not depend on the number of sites. -/
theorem Agree.level?_eq (ha : fs.Agree fs') (id : String) :
    (fs.resolutionOf? id).bind (·.level?) = (fs'.resolutionOf? id).bind (·.level?) := by
  rcases ha.cases id with ⟨hr, hr'⟩ | ⟨r, r', hr, hr', hv⟩
  · rw [hr, hr']
  · rw [hr, hr', Option.bind_some, Option.bind_some, ← Resolution.level?_verdict, hv,
      Resolution.level?_verdict]

theorem Agree.levelOf?_eq (ha : fs.Agree fs') (hu : g.UniqueIds) (h : fs.Match g)
    (h' : fs'.Match g) : fs.levelOf? = fs'.levelOf? := by
  funext id
  rw [h.levelOf?_eq hu, h'.levelOf?_eq hu, ha.level?_eq]

theorem Agree.contributionOf?_eq (ha : fs.Agree fs') (d : Declaration) :
    fs.contributionOf? d = fs'.contributionOf? d := by
  rcases ha.cases d.id with ⟨hr, hr'⟩ | ⟨r, r', hr, hr', hv⟩
  · rw [contributionOf?, contributionOf?, hr, hr']
  · rw [contributionOf?, contributionOf?, hr, hr']
    exact Finding.contribution?_eq_of_verdict hv

theorem Agree.containerLevels_eq (ha : fs.Agree fs') (hu : g.UniqueIds) (h : fs.Match g)
    (h' : fs'.Match g) : fs.containerLevels = fs'.containerLevels := by
  refine ContainerLevels.ext fun id => (fs.isBroadest_containerLevels id).unique ?_
  refine (fs'.isBroadest_containerLevels id).congr fun l => ?_
  rw [h.contributeTo_iff hu, h'.contributeTo_iff hu]
  simp only [ha.contributionOf?_eq]

theorem Agree.perm_statuses (ha : fs.Agree fs') (hu : g.UniqueIds) (h : fs.Match g)
    (h' : fs'.Match g) :
    (fs.resolutions.map (·.status)).Perm (fs'.resolutions.map (·.status)) := by
  refine ((h.perm_resolutions hu).map _).trans (.trans (.of_eq ?_) ((h'.perm_resolutions hu).map _).symm)
  rw [List.map_filterMap, List.map_filterMap]
  refine List.filterMap_congr fun id _ => ?_
  rcases ha.cases id with ⟨hr, hr'⟩ | ⟨r, r', hr, hr', hv⟩
  · rw [hr, hr']
  · rw [hr, hr', Option.map_some, Option.map_some, ← Resolution.status_verdict, hv,
      Resolution.status_verdict]

end

end Findings

/-- **Agreeing findings make the same report.** -/
theorem Report.ofFindings_eq_of_agree {g : Graph} {fs fs' : Findings} (hu : g.UniqueIds)
    (h : fs.Match g) (h' : fs'.Match g) (ha : fs.Agree fs') (cancelled : Bool) :
    ofFindings g cancelled fs = { ofFindings g cancelled fs' with findings := fs } := by
  have hlevel := ha.levelOf?_eq hu h h'
  have hcandidate (d : Declaration) : fs.candidate? d = fs'.candidate? d := by
    rw [Findings.candidate?, Findings.candidate?, hlevel]
  have hstats (suggestions withdrawn : Nat) :
      Stats.ofResolutions fs.resolutions suggestions withdrawn =
        .ofResolutions fs'.resolutions suggestions withdrawn :=
    Stats.ofResolutions_eq_of_perm _ _ (ha.perm_statuses hu h h')
  simp only [ofFindings, hlevel, hcandidate, hstats, ha.containerLevels_eq hu h h']

end LeastAccess
