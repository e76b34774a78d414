import LeastAccess.Proofs.Run.Containment

/-!
# Verdicts are local

What a report says about a declaration depends on what was found for it, and for a type also on what was
found for all that it contains. Nothing else shows, since a contribution goes to the type around its
declaration and from there to the types around that one only. Neither containers nor types are assumed to be
declared here; ids have to be unique, and containment must not be circular.

* `mem_suggestions_at_iff`, `mem_withdrawn_at_iff` — a report, read at one declaration
* `AgreeWithin.mem_withdraw_iff` — the withdrawing pass looks at no more than what is contained
-/

namespace LeastAccess.Findings

variable {g : Graph} {fs fs' : Findings} {d : Declaration} {id : String} {level : Level} {cancelled : Bool}

/-! ## A report at one declaration -/

/-- A declaration is suggested if it is a candidate and not withdrawn. -/
theorem mem_suggestions_at_iff (hu : g.UniqueIds) (hd : d ∈ g.declarations) {s : Suggestion}
    (hs : s.declarationId = d.id) : s ∈ (Report.ofFindings g cancelled fs).suggestions ↔
      fs.candidate? d = some s ∧ d.id ∉ (withdraw g fs.containerLevels fs.levelOf?).withdrawn := by
  have hkeep : (!(withdraw g fs.containerLevels fs.levelOf?).withdrawn.contains s.declarationId) = true ↔
      d.id ∉ (withdraw g fs.containerLevels fs.levelOf?).withdrawn := by
    simp [hs]
  constructor
  · intro hmem
    obtain ⟨hcandidate, hout⟩ := List.mem_filter.mp hmem
    obtain ⟨other, hother, hs'⟩ := List.mem_filterMap.mp hcandidate
    have hid : other.id = d.id := (declarationId_of_candidate? hs').symm.trans hs
    rw [Graph.eq_of_id_eq hu hother hd hid] at hs'
    exact ⟨hs', hkeep.mp hout⟩
  · rintro ⟨hcandidate, hout⟩
    exact List.mem_filter.mpr ⟨List.mem_filterMap.mpr ⟨d, hd, hcandidate⟩, hkeep.mpr hout⟩

/-- A declaration is reported as withdrawn if it is a candidate and withdrawn. -/
theorem mem_withdrawn_at_iff (hu : g.UniqueIds) (hd : d ∈ g.declarations) :
    d.id ∈ (Report.ofFindings g cancelled fs).withdrawn ↔
      (∃ s, fs.candidate? d = some s) ∧ d.id ∈ (withdraw g fs.containerLevels fs.levelOf?).withdrawn := by
  constructor
  · intro hmem
    obtain ⟨s, hs, hid⟩ := List.mem_map.mp hmem
    obtain ⟨hcandidate, hin⟩ := List.mem_filter.mp hs
    obtain ⟨other, hother, hs'⟩ := List.mem_filterMap.mp hcandidate
    have hid' : other.id = d.id := (declarationId_of_candidate? hs').symm.trans hid
    rw [Graph.eq_of_id_eq hu hother hd hid'] at hs'
    rw [List.contains_iff_mem, hid] at hin
    exact ⟨⟨s, hs'⟩, hin⟩
  · rintro ⟨⟨s, hs⟩, hin⟩
    have hid := declarationId_of_candidate? hs
    refine List.mem_map.mpr ⟨s, List.mem_filter.mpr ⟨List.mem_filterMap.mpr ⟨d, hd, hs⟩, ?_⟩, hid⟩
    rw [List.contains_iff_mem, hid]
    exact hin

/-- Of a declaration without a level nothing is reported. -/
theorem candidate?_eq_none (h : fs.levelOf? d.id = none) : fs.candidate? d = none := by
  unfold candidate?
  rw [h]
  cases d.access? <;> rfl

/-- What is suggested depends on the level that was found. -/
theorem candidate?_congr (h : fs.levelOf? d.id = fs'.levelOf? d.id) : fs.candidate? d = fs'.candidate? d := by
  unfold candidate?
  rw [h]

/-! ## What is contained -/

/-- Two runs found the same for everything in a type. -/
def AgreeWithin (g : Graph) (fs fs' : Findings) (id : String) : Prop :=
  ∀ d ∈ g.declarations, g.Contains id d.id → fs.resolutionOf? d.id = fs'.resolutionOf? d.id

theorem AgreeWithin.symm (h : AgreeWithin g fs fs' id) : AgreeWithin g fs' fs id :=
  fun d hd hin => (h d hd hin).symm

/-- So they did for everything in a nested type. -/
theorem AgreeWithin.nested (h : AgreeWithin g fs fs' id) {inner : String} (hin : g.Contains id inner) :
    AgreeWithin g fs fs' inner :=
  fun d hd hd' => h d hd (hin.trans hd')

section

variable (hu : g.UniqueIds) (h : fs.Match g) (h' : fs'.Match g)

include hu h h'

theorem AgreeWithin.get?_containerLevels_eq (ha : AgreeWithin g fs fs' id) :
    fs.containerLevels.get? id = fs'.containerLevels.get? id := by
  refine (fs.isBroadest_containerLevels id).unique ((fs'.isBroadest_containerLevels id).congr fun l => ?_)
  rw [h.contributeTo_iff hu, h'.contributeTo_iff hu]
  have hsame {d : Declaration} (hd : d ∈ g.declarations) (hc : d.containerId = some id) :
      fs.contributionOf? d = fs'.contributionOf? d := by
    unfold contributionOf?
    rw [ha d hd (Graph.contains_of_containerId hu hd hc)]
  constructor
  · rintro ⟨d, hd, hc, hl⟩
    exact ⟨d, hd, hc, (hsame hd hc).trans hl⟩
  · rintro ⟨d, hd, hc, hl⟩
    exact ⟨d, hd, hc, (hsame hd hc).symm.trans hl⟩

theorem levelOf?_congr (heq : fs.resolutionOf? id = fs'.resolutionOf? id) :
    fs.levelOf? id = fs'.levelOf? id := by
  rw [h.levelOf?_eq hu, h'.levelOf?_eq hu, heq]

/-- What is collected for a type depends on what it contains. -/
theorem AgreeWithin.collect (ha : AgreeWithin g fs fs' id) (hl : fs.Collect g id level) :
    fs'.Collect g id level := by
  have hinside {type : Declaration} {id : String} (hmem : type ∈ g.typesInnermostFirst)
      (hc : type.containerId = some id) : type ∈ g.declarations ∧ g.Contains id type.id := by
    have htype := (Graph.mem_typesInnermostFirst_iff.mp hmem).1
    exact ⟨htype, Graph.contains_of_containerId hu htype hc⟩
  induction hl with
  | direct hget => exact .direct (ha.get?_containerLevels_eq hu h h' ▸ hget)
  | nested hmem hc _ ih => exact .nested hmem hc (ih (ha.nested (hinside hmem hc).2))
  | own hmem hc _ hown ih =>
    obtain ⟨htype, hin⟩ := hinside hmem hc
    have hsame := levelOf?_congr hu h h' (ha _ htype hin)
    exact .own hmem hc (ih (ha.nested hin)) (hsame ▸ hown)

theorem AgreeWithin.mem_withdraw (hacyclic : g.Acyclic) (hd : d ∈ g.declarations)
    (heq : fs.resolutionOf? d.id = fs'.resolutionOf? d.id)
    (ha : d.isType = true → AgreeWithin g fs fs' d.id)
    (hmem : d.id ∈ (withdraw g fs.containerLevels fs.levelOf?).withdrawn) :
    d.id ∈ (withdraw g fs'.containerLevels fs'.levelOf?).withdrawn := by
  rw [(summarizes_withdraw hu hacyclic fs.containerLevels fs.levelOf?).withdrawn] at hmem
  obtain ⟨type, htype, hid, own, hown, level, hcollect, hlt⟩ := hmem
  obtain ⟨hdeclared, hisType⟩ := Graph.mem_typesInnermostFirst_iff.mp htype
  obtain rfl := Graph.eq_of_id_eq hu hdeclared hd hid
  rw [(summarizes_withdraw hu hacyclic fs'.containerLevels fs'.levelOf?).withdrawn]
  refine ⟨type, htype, rfl, own, ?_, level, (ha hisType).collect hu h h' hcollect, hlt⟩
  rw [← levelOf?_congr hu h h' heq, hown]

/-- **Whether a declaration is withdrawn depends on it and on what it contains.** -/
theorem AgreeWithin.mem_withdraw_iff (hacyclic : g.Acyclic) (hd : d ∈ g.declarations)
    (heq : fs.resolutionOf? d.id = fs'.resolutionOf? d.id)
    (ha : d.isType = true → AgreeWithin g fs fs' d.id) :
    d.id ∈ (withdraw g fs.containerLevels fs.levelOf?).withdrawn ↔
      d.id ∈ (withdraw g fs'.containerLevels fs'.levelOf?).withdrawn :=
  ⟨mem_withdraw hu h h' hacyclic hd heq ha,
    mem_withdraw hu h' h hacyclic hd heq.symm fun htype => (ha htype).symm⟩

end

end LeastAccess.Findings
