import LeastAccess.Proofs.DocumentOrder
import LeastAccess.Proofs.Run.Answers

/-!
# Types and what they contain

No type is narrowed below what it contains, at any depth, and no suggestion is withdrawn for another
reason. The levels that the withdrawing pass collects are levels that contained declarations contribute,
and no contribution in a type is above all of them. A type in between passes the levels on, whatever its
own resolution is.

* `Findings.Match.exists_collect_iff` — what the pass collects against what is contained
* `narrowed_iff_contents_fit` — suggestions and withdrawn types of every run
-/

namespace LeastAccess

/-! ## Collected levels -/

namespace Findings

/-- Something in a type contributes a level above a given one. -/
def Exceed (g : Graph) (fs : Findings) (id : String) (own : Level) : Prop :=
  ∃ member ∈ g.declarations, g.Contains id member.id ∧
    ∃ level, fs.contributionOf? member = some level ∧ own < level

/-- The levels that the withdrawing pass collects. -/
def Collect (g : Graph) (fs : Findings) : String → Level → Prop :=
  Contents fs.containerLevels fs.levelOf? g.typesInnermostFirst

section

variable {g : Graph} {fs : Findings} {id : String} {level : Level}

theorem Match.contributionOf?_of_levelOf? (hu : g.UniqueIds) (h : fs.Match g) {d : Declaration}
    (hl : fs.levelOf? d.id = some level) : fs.contributionOf? d = some level := by
  rw [h.levelOf?_eq hu] at hl
  obtain ⟨resolution, hr, hl⟩ := Option.bind_eq_some_iff.mp hl
  rw [contributionOf?, hr]
  exact Finding.contribution?_of_level? hl

/-- Every collected level is contributed by something in the type. -/
theorem Collect.exists_contribution (hu : g.UniqueIds) (h : fs.Match g) (hl : fs.Collect g id level) :
    ∃ member ∈ g.declarations, g.Contains id member.id ∧ fs.contributionOf? member = some level := by
  induction hl with
  | @direct id level hget =>
    have hbroadest := fs.isBroadest_containerLevels id
    rw [hget] at hbroadest
    obtain ⟨member, hmem, hc, hl⟩ := (h.contributeTo_iff hu).mp hbroadest.1
    exact ⟨member, hmem, Graph.contains_of_containerId hu hmem hc, hl⟩
  | nested htype hc _ ih =>
    obtain ⟨member, hmem, hin, hl⟩ := ih
    have htype := (Graph.mem_typesInnermostFirst_iff.mp htype).1
    exact ⟨member, hmem, (Graph.contains_of_containerId hu htype hc).trans hin, hl⟩
  | own htype hc _ hown _ =>
    have htype := (Graph.mem_typesInnermostFirst_iff.mp htype).1
    exact ⟨_, htype, Graph.contains_of_containerId hu htype hc, h.contributionOf?_of_levelOf? hu hown⟩

/-- What is collected for a type is collected for the types around it. -/
theorem Collect.of_encloses (hw : g.WellFormed) {outer inner : String} (he : g.Encloses outer inner)
    {type : Declaration} (hf : g.find? inner = some type) (htype : type.isType = true)
    (hl : fs.Collect g inner level) : fs.Collect g outer level := by
  induction he generalizing type with
  | refl => exact hl
  | @step container inner hc _ ih =>
    have hmem := Graph.mem_of_find? hf
    have hid := Graph.find?_id hf
    subst hid
    rw [Graph.containerOf?_of_mem hw.uniqueIds hmem] at hc
    obtain ⟨around, haround, haroundType⟩ := hw.container_isType type hmem container hc
    exact ih haround haroundType (.nested (Graph.mem_typesInnermostFirst_iff.mpr ⟨hmem, htype⟩) hc hl)

/-- What something in a type contributes is not above all that is collected for the type. -/
theorem Match.exists_collect (hw : g.WellFormed) (h : fs.Match g) {member : Declaration}
    (hmem : member ∈ g.declarations) (hin : g.Contains id member.id)
    (hl : fs.contributionOf? member = some level) : ∃ l, fs.Collect g id l ∧ level ≤ l := by
  obtain ⟨container, hc, he⟩ := hin
  rw [Graph.containerOf?_of_mem hw.uniqueIds hmem] at hc
  obtain ⟨type, hf, htype⟩ := hw.container_isType member hmem container hc
  have hcontribute : fs.ContributeTo container level :=
    (h.contributeTo_iff hw.uniqueIds).mpr ⟨member, hmem, hc, hl⟩
  have hbroadest := fs.isBroadest_containerLevels container
  cases hget : fs.containerLevels.get? container with
  | none =>
    rw [hget] at hbroadest
    exact absurd hcontribute (hbroadest level)
  | some broadest =>
    rw [hget] at hbroadest
    exact ⟨broadest, Collect.of_encloses hw he hf htype (.direct hget), hbroadest.2 level hcontribute⟩

/-- Something above a level is collected for a type exactly if something in it contributes such a
level. -/
theorem Match.exists_collect_iff (hw : g.WellFormed) (h : fs.Match g) (own : Level) :
    (∃ l, fs.Collect g id l ∧ own < l) ↔ fs.Exceed g id own := by
  constructor
  · rintro ⟨l, hl, hlt⟩
    obtain ⟨member, hmem, hin, hcontribution⟩ := Collect.exists_contribution hw.uniqueIds h hl
    exact ⟨member, hmem, hin, l, hcontribution, hlt⟩
  · rintro ⟨member, hmem, hin, level, hl, hlt⟩
    obtain ⟨l, hcollect, hle⟩ := h.exists_collect hw hmem hin hl
    exact ⟨l, hcollect, Nat.lt_of_lt_of_le hlt hle⟩

/-! ## Suggestions and withdrawn types -/

/-- A declaration was found to do with a level below its current one. -/
def Narrow (fs : Findings) (d : Declaration) (current level : Level) : Prop :=
  d.access? = some current ∧ (fs.resolutionOf? d.id).bind (·.level?) = some level ∧ level < current

theorem Match.candidate?_eq_some_iff (hu : g.UniqueIds) (h : fs.Match g) {d : Declaration}
    {s : Suggestion} : fs.candidate? d = some s ↔
      ∃ current level, fs.Narrow d current level ∧ s = .ofDeclaration d current level := by
  rw [candidate?, h.levelOf?_eq hu]
  constructor
  · intro hs
    split at hs
    · next current level hc hl =>
      split at hs
      · next hlt => exact ⟨current, level, ⟨hc, hl, hlt⟩, (Option.some.inj hs).symm⟩
      · cases hs
    · cases hs
  · rintro ⟨current, level, ⟨hc, hl, hlt⟩, rfl⟩
    rw [hc, hl]
    exact if_pos hlt

/-- A declaration that could be narrowed is withdrawn if it is a type with too broad a content. -/
theorem Match.mem_withdrawn_iff (hw : g.WellFormed) (h : fs.Match g) {d : Declaration}
    (hd : d ∈ g.declarations) {current : Level} (hn : fs.Narrow d current level) :
    d.id ∈ (withdraw g fs.containerLevels fs.levelOf?).withdrawn ↔
      d.isType = true ∧ fs.Exceed g d.id level := by
  have hl : fs.levelOf? d.id = some level := (h.levelOf?_eq hw.uniqueIds d.id).trans hn.2.1
  rw [(summarizes_withdraw hw.uniqueIds hw.acyclic fs.containerLevels fs.levelOf?).withdrawn,
    ← h.exists_collect_iff hw]
  constructor
  · rintro ⟨type, htype, hid, own, hown, hcollect⟩
    obtain ⟨hmem, hisType⟩ := Graph.mem_typesInnermostFirst_iff.mp htype
    obtain rfl := Graph.eq_of_id_eq hw.uniqueIds hmem hd hid
    rw [hl] at hown
    cases hown
    exact ⟨hisType, hcollect⟩
  · rintro ⟨hisType, hcollect⟩
    exact ⟨d, Graph.mem_typesInnermostFirst_iff.mpr ⟨hd, hisType⟩, rfl, level, hl, hcollect⟩

theorem Match.mem_suggestions_iff (hw : g.WellFormed) (h : fs.Match g) {cancelled : Bool}
    {s : Suggestion} : s ∈ (Report.ofFindings g cancelled fs).suggestions ↔
      ∃ d ∈ g.declarations, ∃ current level, fs.Narrow d current level ∧
        s = .ofDeclaration d current level ∧ (d.isType = true → ¬ fs.Exceed g d.id level) := by
  constructor
  · intro hs
    obtain ⟨hs, hkeep⟩ := List.mem_filter.mp hs
    obtain ⟨d, hd, hcandidate⟩ := List.mem_filterMap.mp hs
    obtain ⟨current, level, hn, rfl⟩ := (h.candidate?_eq_some_iff hw.uniqueIds).mp hcandidate
    refine ⟨d, hd, current, level, hn, rfl, fun htype hexceed => ?_⟩
    have hin : d.id ∈ (withdraw g fs.containerLevels fs.levelOf?).withdrawn :=
      (h.mem_withdrawn_iff hw hd hn).mpr ⟨htype, hexceed⟩
    simp [Suggestion.ofDeclaration, hin] at hkeep
  · rintro ⟨d, hd, current, level, hn, rfl, hfit⟩
    have hout : d.id ∉ (withdraw g fs.containerLevels fs.levelOf?).withdrawn := by
      rw [h.mem_withdrawn_iff hw hd hn]
      rintro ⟨htype, hexceed⟩
      exact hfit htype hexceed
    refine List.mem_filter.mpr ⟨List.mem_filterMap.mpr ⟨d, hd, ?_⟩, ?_⟩
    · exact (h.candidate?_eq_some_iff hw.uniqueIds).mpr ⟨current, level, hn, rfl⟩
    · simp [Suggestion.ofDeclaration, hout]

theorem Match.mem_report_withdrawn_iff (hw : g.WellFormed) (h : fs.Match g) {cancelled : Bool} :
    id ∈ (Report.ofFindings g cancelled fs).withdrawn ↔
      ∃ d ∈ g.declarations, ∃ current level, fs.Narrow d current level ∧ id = d.id ∧
        d.isType = true ∧ fs.Exceed g d.id level := by
  constructor
  · intro hid
    obtain ⟨s, hs, rfl⟩ := List.mem_map.mp hid
    obtain ⟨hs, hin⟩ := List.mem_filter.mp hs
    obtain ⟨d, hd, hcandidate⟩ := List.mem_filterMap.mp hs
    obtain ⟨current, level, hn, rfl⟩ := (h.candidate?_eq_some_iff hw.uniqueIds).mp hcandidate
    exact ⟨d, hd, current, level, hn, rfl,
      (h.mem_withdrawn_iff hw hd hn).mp (List.contains_iff_mem.mp hin)⟩
  · rintro ⟨d, hd, current, level, hn, rfl, hexceed⟩
    refine List.mem_map.mpr ⟨.ofDeclaration d current level, List.mem_filter.mpr ⟨?_, ?_⟩, rfl⟩
    · exact List.mem_filterMap.mpr
        ⟨d, hd, (h.candidate?_eq_some_iff hw.uniqueIds).mpr ⟨current, level, hn, rfl⟩⟩
    · exact List.contains_iff_mem.mpr ((h.mem_withdrawn_iff hw hd hn).mpr hexceed)

/-- The level that a declaration was found to do with is unique. -/
theorem Narrow.unique {d : Declaration} {current current' level level' : Level}
    (h : fs.Narrow d current level) (h' : fs.Narrow d current' level') : level = level' :=
  Option.some.inj (h.2.1.symm.trans h'.2.1)

/-- The same of a declaration that could be narrowed. -/
theorem Narrow.mem_withdrawn_iff (hw : g.WellFormed) (h : fs.Match g) {cancelled : Bool} {d : Declaration}
    (hd : d ∈ g.declarations) {current : Level} (hn : fs.Narrow d current level) :
    d.id ∈ (Report.ofFindings g cancelled fs).withdrawn ↔
      d.isType = true ∧ fs.Exceed g d.id level := by
  rw [h.mem_report_withdrawn_iff hw]
  constructor
  · rintro ⟨d', hd', current', level', hn', hid, hexceed⟩
    obtain rfl := Graph.eq_of_id_eq hw.uniqueIds hd hd' hid
    obtain rfl := hn.unique hn'
    exact hexceed
  · exact fun hexceed => ⟨d, hd, current, level, hn, rfl, hexceed⟩

theorem declarationId_of_candidate? {d : Declaration} {s : Suggestion} (hs : fs.candidate? d = some s) :
    s.declarationId = d.id := by
  rw [candidate?] at hs
  split at hs
  · split at hs
    · cases hs
      rfl
    · cases hs
  · cases hs

/-- The candidates are in document order. -/
theorem sublist_candidates (fs : Findings) (ds : List Declaration) :
    ((ds.filterMap fs.candidate?).map (·.declarationId)).Sublist (ds.map (·.id)) := by
  induction ds with
  | nil => exact .slnil
  | cons d ds ih =>
    rw [List.filterMap_cons, List.map_cons]
    cases hs : fs.candidate? d with
    | none => exact ih.cons d.id
    | some s =>
      rw [List.map_cons, declarationId_of_candidate? hs]
      exact ih.cons_cons d.id

end

end Findings

namespace Config.Answers

variable {cfg : Config} {c : Codebase} {x : Disturbance} {discipline : Scans → Scans.Move → Prop}
  {report : Report}

theorem mem_suggestions_iff (h : cfg.Answers c x discipline report) (hw : c.graph.WellFormed)
    {s : Suggestion} : s ∈ report.suggestions ↔
      ∃ d ∈ c.graph.declarations, ∃ current level, report.findings.Narrow d current level ∧
        s = .ofDeclaration d current level ∧
          (d.isType = true → ¬ report.findings.Exceed c.graph d.id level) := by
  rw [h.eq_ofFindings]
  exact h.findings_match.mem_suggestions_iff hw

/-- A declaration that could be narrowed is withdrawn if it is a type with too broad a content. -/
theorem mem_withdrawn_iff (h : cfg.Answers c x discipline report) (hw : c.graph.WellFormed)
    {d : Declaration} (hd : d ∈ c.graph.declarations) {current level : Level}
    (hn : report.findings.Narrow d current level) :
    d.id ∈ report.withdrawn ↔ d.isType = true ∧ report.findings.Exceed c.graph d.id level := by
  rw [h.eq_ofFindings]
  exact hn.mem_withdrawn_iff hw h.findings_match hd

theorem exists_narrow_of_withdrawn (h : cfg.Answers c x discipline report) (hw : c.graph.WellFormed)
    {id : String} (hid : id ∈ report.withdrawn) : ∃ d ∈ c.graph.declarations, d.id = id ∧
      ∃ current level, report.findings.Narrow d current level := by
  rw [h.eq_ofFindings, h.findings_match.mem_report_withdrawn_iff hw] at hid
  obtain ⟨d, hd, current, level, hn, rfl, -⟩ := hid
  exact ⟨d, hd, rfl, current, level, hn⟩

/-- Suggestions are in document order. -/
theorem sublist_suggestions (h : cfg.Answers c x discipline report) :
    (report.suggestions.map (·.declarationId)).Sublist c.graph.ids := by
  rw [h.eq_ofFindings]
  exact (List.filter_sublist.map _).trans (report.findings.sublist_candidates c.graph.declarations)

theorem sublist_withdrawn (h : cfg.Answers c x discipline report) :
    report.withdrawn.Sublist c.graph.ids := by
  rw [h.eq_ofFindings]
  exact (List.filter_sublist.map _).trans (report.findings.sublist_candidates c.graph.declarations)

/-- In a complete run a level that was found is that of the plain join. -/
theorem level?_eq (h : cfg.Answers c x discipline report) (hu : c.graph.UniqueIds)
    (serves : ∀ r, x.fails r = false) (whole : report.cancelled = false) {d : Declaration}
    (hd : d ∈ c.graph.declarations) : (report.findings.resolutionOf? d.id).bind (·.level?) =
      (plainResolution c cfg.policy d).level? := by
  obtain ⟨f, hf, rfl⟩ := h.findings_match.exists_mem hd
  rw [h.findings_match.resolutionOf?_of_mem hu hf, Option.bind_some, ← Resolution.level?_verdict,
    h.verdict_eq serves whole hf, Resolution.level?_verdict]

/-- In a complete run nothing but such a level is contributed. -/
theorem contributionOf?_eq (h : cfg.Answers c x discipline report) (hu : c.graph.UniqueIds)
    (serves : ∀ r, x.fails r = false) (whole : report.cancelled = false) {d : Declaration}
    (hd : d ∈ c.graph.declarations) :
    report.findings.contributionOf? d = (plainResolution c cfg.policy d).level? := by
  rw [← h.level?_eq hu serves whole hd]
  obtain ⟨f, hf, rfl⟩ := h.findings_match.exists_mem hd
  have hne : f.resolution ≠ .cancelled := by
    intro hcancelled
    rw [(h.explains hf).isCancelled hcancelled] at whole
    cases whole
  rw [h.findings_match.contributionOf?_eq hu hf, Finding.contribution?_eq_level? hne,
    h.findings_match.resolutionOf?_of_mem hu hf, Option.bind_some]

end Config.Answers

/-- **Types make room for what they contain, and only for that.** In every report on an accepted
snapshot, a declaration that could be narrowed is suggested, unless it is a type in which something, at
any depth, contributes a broader level; then it is withdrawn. Both lists are in document order. -/
theorem narrowed_iff_contents_fit {v : Option Json} {c : Codebase} (accepted : Snapshot.parse v = .ok c)
    {cfg : Config} {x : Disturbance} {discipline : Scans → Scans.Move → Prop} {report : Report}
    (answers : cfg.Answers c x discipline report) :
    (∀ s, s ∈ report.suggestions ↔ ∃ d ∈ c.graph.declarations, ∃ current level,
      report.findings.Narrow d current level ∧ s = .ofDeclaration d current level ∧
        (d.isType = true → ¬ report.findings.Exceed c.graph d.id level)) ∧
    (∀ id, id ∈ report.withdrawn ↔ ∃ d ∈ c.graph.declarations, ∃ current level,
      report.findings.Narrow d current level ∧ id = d.id ∧
        d.isType = true ∧ report.findings.Exceed c.graph d.id level) ∧
    (report.suggestions.map (·.declarationId)).Sublist c.graph.ids ∧
    report.withdrawn.Sublist c.graph.ids := by
  have hw := Snapshot.wellFormed_of_parse accepted
  have hmatch := answers.findings_match
  have hreport := answers.eq_ofFindings
  refine ⟨fun s => ?_, fun id => ?_, ?_, ?_⟩
  · rw [hreport]
    exact hmatch.mem_suggestions_iff hw
  · rw [hreport]
    exact hmatch.mem_report_withdrawn_iff hw
  · rw [hreport]
    exact (List.filter_sublist.map _).trans (report.findings.sublist_candidates c.graph.declarations)
  · rw [hreport]
    exact (List.filter_sublist.map _).trans (report.findings.sublist_candidates c.graph.declarations)

/-- A type is withdrawn for one of its fields, while another field is narrowed. -/
theorem withdrawn_for_a_field :
    Snapshot.parse (some Sample.document) = .ok Sample.codebase ∧
      Sample.config.Answers Sample.codebase .none Scans.InTurn Sample.run.report ∧
      (∃ d ∈ Sample.codebase.graph.declarations, ∃ current level,
        Sample.run.report.findings.Narrow d current level ∧ "A" = d.id ∧
          d.isType = true ∧ Sample.run.report.findings.Exceed Sample.codebase.graph d.id level) ∧
      ∃ d ∈ Sample.codebase.graph.declarations, ∃ current level,
        Sample.run.report.findings.Narrow d current level ∧
          Suggestion.ofDeclaration Sample.field .pub .priv = .ofDeclaration d current level ∧
          (d.isType = true →
            ¬ Sample.run.report.findings.Exceed Sample.codebase.graph d.id level) := by
  obtain ⟨hsuggestions, hwithdrawn, -⟩ :=
    narrowed_iff_contents_fit Sample.parse_document Sample.answers_run
  refine ⟨Sample.parse_document, Sample.answers_run, ?_, ?_⟩
  · rw [← hwithdrawn, Sample.withdrawn_run]
    exact List.mem_singleton_self "A"
  · rw [← hsuggestions, Sample.suggestions_run]
    exact List.mem_cons_self

end LeastAccess
