import LeastAccess.Proofs.Requirement.Admission
import LeastAccess.Proofs.Resolver.Origin
import LeastAccess.Proofs.Run.Containment

/-!
# Suggestions admit every usage

A suggested level lies below the current one, so it was not kept but joined from all usages of its
declaration. Hence it is as broad as each of them requires, and it admits them all.

* `siteLevel_le_of_plainResolution` — the plain join is as broad as each usage requires
* `suggestion_admits_every_usage` — so is every suggestion of every run
-/

namespace LeastAccess

/-- The plain join of a declaration is as broad as each usage requires, unless it keeps its level. -/
theorem siteLevel_le_of_plainResolution {c : Codebase} {p : Policy} {d : Declaration} {current level : Level}
    (hl : (plainResolution c p d).level? = some level) (haccess : d.access? = some current)
    (hlt : level < current) {site : UsageSite} (hsite : site ∈ c.sitesOf d) :
    siteLevel c.graph p.options d (d.containerId.bind c.graph.find?) site ≤ level := by
  obtain ⟨floor, -, -, rfl⟩ := exists_scan_of_level?_lt hl haccess hlt
  exact Level.le_trans (Level.le_join (List.mem_map_of_mem hsite)) le_effectiveLevel

/-- A suggestion is for a level that was found by the plain join. -/
theorem Config.Answers.exists_of_mem_suggestions {cfg : Config} {c : Codebase} {x : Disturbance}
    {discipline : Scans → Scans.Move → Prop} {report : Report} (h : cfg.Answers c x discipline report)
    (hu : c.graph.UniqueIds) {s : Suggestion} (hs : s ∈ report.suggestions) :
    ∃ d ∈ c.graph.declarations, s.declarationId = d.id ∧ d.access? = some s.current ∧
      s.suggested < s.current ∧ (plainResolution c cfg.policy d).level? = some s.suggested := by
  have hmatch := h.findings_match
  rw [h.eq_ofFindings] at hs
  obtain ⟨d, hd, hcandidate⟩ := List.mem_filterMap.mp (List.mem_filter.mp hs).1
  obtain ⟨current, level, ⟨haccess, hl, hlt⟩, rfl⟩ := (hmatch.candidate?_eq_some_iff hu).mp hcandidate
  refine ⟨d, hd, rfl, haccess, hlt, ?_⟩
  show (plainResolution c cfg.policy d).level? = some level
  obtain ⟨f, hf, rfl⟩ := hmatch.exists_mem hd
  rw [hmatch.resolutionOf?_of_mem hu hf, Option.bind_some] at hl
  exact (h.explains hf).level?_eq hl

/-- **Suggestions admit every usage.** Whatever the configuration, the failures of the index, the
cancellations and the order of the acts: if a run over an accepted snapshot suggests a level, then every
usage of the declaration is an understood reference in source code that the level admits. -/
theorem suggestion_admits_every_usage {v : Option Json} {c : Codebase}
    (accepted : Snapshot.parse v = .ok c) {cfg : Config} {x : Disturbance}
    {discipline : Scans → Scans.Move → Prop} {report : Report}
    (answers : cfg.Answers c x discipline report) {s : Suggestion} (hs : s ∈ report.suggestions) :
    ∃ d ∈ c.graph.declarations, s.declarationId = d.id ∧
      ∀ site ∈ c.sitesOf d, site.origin = .source ∧ site.resolved = true ∧
        s.suggested.Admits c.graph d site := by
  have hw := Snapshot.wellFormed_of_parse accepted
  obtain ⟨d, hd, hid, haccess, hlt, hl⟩ := answers.exists_of_mem_suggestions hw.uniqueIds hs
  refine ⟨d, hd, hid, fun site hsite => ?_⟩
  have hle := siteLevel_le_of_plainResolution hl haccess hlt hsite
  exact admits_of_siteLevel hw.acyclic rfl hle (Nat.lt_of_lt_of_le hlt (Level.le_pub s.current))

/-- A field that is used in its own type only can be private, and that admits its usage. -/
theorem private_field_admits_every_usage :
    Snapshot.parse (some Sample.document) = .ok Sample.codebase ∧
      Sample.config.Answers Sample.codebase .none Scans.InTurn Sample.run.report ∧
      Suggestion.ofDeclaration Sample.field .pub .priv ∈ Sample.run.report.suggestions ∧
      ∃ d ∈ Sample.codebase.graph.declarations, "A.g" = d.id ∧
        ∀ site ∈ Sample.codebase.sitesOf d, site.origin = .source ∧ site.resolved = true ∧
          Level.priv.Admits Sample.codebase.graph d site := by
  have hs : Suggestion.ofDeclaration Sample.field .pub .priv ∈ Sample.run.report.suggestions := by
    rw [Sample.suggestions_run]
    exact List.mem_cons_self
  exact ⟨Sample.parse_document, Sample.answers_run, hs,
    suggestion_admits_every_usage Sample.parse_document Sample.answers_run hs⟩

end LeastAccess
