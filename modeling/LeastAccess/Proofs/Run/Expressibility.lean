import LeastAccess.Config.Reading
import LeastAccess.Proofs.Resolver.Origin
import LeastAccess.Proofs.Run.Soundness

/-!
# What can be suggested

A suggested level is one that a usage can require, so the declaration can have it and the options permit it.
The exception is the floor of an entry point when every usage requires less: it is suggested as it stands,
even where the declaration cannot have it or the options forbid it.

* `suggestion_is_expressible_or_floor` — a suggestion can be expressed, or it is a floor alone
* `suggestion_is_permitted_or_floor` — a suggestion is permitted, or it is a floor alone
-/

namespace LeastAccess

/-- A suggested level can be required by usages, or it is a floor alone. -/
theorem Config.Answers.requirable_or_floorAlone {cfg : Config} {c : Codebase} {x : Disturbance}
    {discipline : Scans → Scans.Move → Prop} {report : Report} (h : cfg.Answers c x discipline report)
    (hu : c.graph.UniqueIds) {s : Suggestion} (hs : s ∈ report.suggestions) :
    ∃ d ∈ c.graph.declarations, s.declarationId = d.id ∧
      (Requirable cfg.options d (d.containerId.bind c.graph.find?) s.suggested ∨
        cfg.policy.FloorAlone c d s.suggested ∧
          (d.containerId.bind c.graph.find? = none → s.suggested ≠ .priv)) := by
  obtain ⟨d, hd, hid, haccess, hlt, hl⟩ := h.exists_of_mem_suggestions hu hs
  exact ⟨d, hd, hid, LeastAccess.requirable_or_floorAlone hl haccess hlt⟩

/-! ## Levels that a declaration can have -/

/-- **A suggestion can be expressed, or it is a floor alone.** Outside every type private access is never
suggested. Protected access outside every type and private access for an abstract member are suggested only
as the floor of an entry point, when every usage requires less. -/
theorem suggestion_is_expressible_or_floor {v : Option Json} {c : Codebase}
    (accepted : Snapshot.parse v = .ok c) {cfg : Config} {x : Disturbance}
    {discipline : Scans → Scans.Move → Prop} {report : Report}
    (answers : cfg.Answers c x discipline report) {s : Suggestion} (hs : s ∈ report.suggestions) :
    ∃ d ∈ c.graph.declarations, s.declarationId = d.id ∧
      (d.containerId = none → s.suggested ≠ .priv) ∧
      (d.Expresses s.suggested ∨ cfg.policy.FloorAlone c d s.suggested) := by
  have hw := Snapshot.wellFormed_of_parse accepted
  obtain ⟨d, hd, hid, h⟩ := answers.requirable_or_floorAlone hw.uniqueIds hs
  refine ⟨d, hd, hid, fun hnone hpriv => ?_, h.imp (·.expresses rfl) And.left⟩
  rcases h with h | ⟨-, hne⟩
  · have hexpresses := h.expresses rfl
    rw [hpriv] at hexpresses
    exact hexpresses.1 hnone
  · exact hne (by rw [hnone]; rfl) hpriv

namespace Sample

/-- A snapshot without usages. -/
def unused (declarations : List Json) : Json :=
  .object [("version", .number .one), ("declarations", .list declarations)]

/-- What is annotated has a floor. -/
def floorDocument (level : Level) : Json :=
  .object
    [("analysis", .object [("concurrency", .number .one)]),
      ("entryPoints", .object
        [("annotations", .list [.object [("name", .text "Keep"), ("minLevel", .text level.name)]])])]

def floorAt (level : Level) : Config :=
  { concurrency := .one, annotations := [{ name := "Keep", minLevel := some level }] }

theorem parse_floorDocument (level : Level) :
    Config.parse (some (floorDocument level)) = .ok (floorAt level) := by
  cases level <;> decide +kernel

/-- The run of a single worker under a configuration. -/
def runUnder (cfg : Config) (c : Codebase) : Analysis.Run := Analysis.run c cfg.policy .none .one {}

theorem answers_runUnder {cfg : Config} (h : cfg.concurrency = .one) (c : Codebase) :
    cfg.Answers c .none Scans.InTurn (runUnder cfg c).report := by
  have hrun := Config.analyze_of_checkConcurrency (h ▸ Analysis.checkConcurrency_one) c .none {}
  rw [h] at hrun
  exact .executed hrun

/-- An annotated type that nothing uses. -/
def annotatedType : Declaration :=
  { declared "T" "T" .type "p" with typeKind := some .cls, annotations := ["Keep"] }

def annotatedTypeDocument : Json :=
  unused [entry "T" "T" "type" "public"
    [("typeKind", .text "class"), ("annotations", .list [.text "Keep"])]]

theorem parse_annotatedTypeDocument :
    Snapshot.parse (some annotatedTypeDocument) = .ok { graph := ⟨[annotatedType]⟩ } :=
  Snapshot.parse_of_toOption (by decide +kernel)

theorem suggestions_annotatedType :
    (runUnder (floorAt .prot) { graph := ⟨[annotatedType]⟩ }).report.suggestions =
      [.ofDeclaration annotatedType .pub .prot] := by
  have htypes : Graph.typesInnermostFirst ⟨[annotatedType]⟩ = [annotatedType] :=
    Graph.typesInnermostFirst_of_pairwise (by decide)
  rw [runUnder, Analysis.report_run_one, Report.ofFindings, withdraw, htypes]
  decide +kernel

/-- A type around everything else, and one in it. -/
def aroundType : Declaration := { declared "T" "T" .type "p" with typeKind := some .cls }

def insideType : Declaration :=
  { declared "T.N" "N" .type "p" with typeKind := some .cls, containerId := some "T" }

/-- An annotated abstract method that nothing uses. -/
def abstractMethod : Declaration :=
  { declared "T.m" "m" .method "p" with
    containerId := some "T", annotations := ["Keep"],
    modifiers := some { access := .pub, isAbstract := true } }

/-- An annotated field of the nested type that nothing uses. -/
def insideField : Declaration :=
  { declared "T.N.g" "g" .field "p" with containerId := some "T.N", annotations := ["Keep"] }

def annotatedMembers : Codebase := { graph := ⟨[insideType, aroundType, abstractMethod, insideField]⟩ }

def annotatedMembersDocument : Json :=
  unused
    [entry "T.N" "N" "type" "public" [("typeKind", .text "class"), ("containerId", .text "T")],
      entry "T" "T" "type" "public" [("typeKind", .text "class")],
      .object [("id", .text "T.m"), ("name", .text "m"), ("kind", .text "method"), ("package", .text "p"),
        ("containerId", .text "T"), ("annotations", .list [.text "Keep"]),
        ("modifiers", .object [("access", .text "public"), ("isAbstract", .bool true)])],
      entry "T.N.g" "g" "field" "public"
        [("containerId", .text "T.N"), ("annotations", .list [.text "Keep"])]]

theorem parse_annotatedMembersDocument :
    Snapshot.parse (some annotatedMembersDocument) = .ok annotatedMembers :=
  Snapshot.parse_of_toOption (by decide +kernel)

theorem suggestions_annotatedMembers : (runUnder (floorAt .priv) annotatedMembers).report.suggestions =
    [.ofDeclaration abstractMethod .pub .priv, .ofDeclaration insideField .pub .priv] := by
  have htypes : annotatedMembers.graph.typesInnermostFirst = [insideType, aroundType] :=
    Graph.typesInnermostFirst_of_pairwise (by decide)
  rw [runUnder, Analysis.report_run_one, Report.ofFindings, withdraw, htypes]
  decide +kernel

end Sample

/-- Protected access is suggested for a type outside every type, as the floor of an entry point. -/
theorem protected_suggested_outside_types :
    ¬ ∀ (v w : Option Json) (c : Codebase) (cfg : Config), Snapshot.parse v = .ok c →
      Config.parse w = .ok cfg → ∀ report, cfg.Answers c .none Scans.InTurn report →
        ∀ s ∈ report.suggestions, ∀ d ∈ c.graph.declarations, s.declarationId = d.id →
          d.Expresses s.suggested := by
  intro hexpresses
  have hs : Suggestion.ofDeclaration Sample.annotatedType .pub .prot ∈
      (Sample.runUnder (Sample.floorAt .prot) { graph := ⟨[Sample.annotatedType]⟩ }).report.suggestions := by
    rw [Sample.suggestions_annotatedType]
    exact List.mem_singleton_self _
  exact hexpresses _ _ _ _ Sample.parse_annotatedTypeDocument (Sample.parse_floorDocument .prot) _
    (Sample.answers_runUnder rfl _) _ hs Sample.annotatedType (List.mem_singleton_self _) rfl rfl

/-- Private access is suggested for an abstract method, and nothing but its floor accounts for it. -/
theorem private_abstract_method_is_floor :
    let report := (Sample.runUnder (Sample.floorAt .priv) Sample.annotatedMembers).report
    Snapshot.parse (some Sample.annotatedMembersDocument) = .ok Sample.annotatedMembers ∧
      (Sample.floorAt .priv).Answers Sample.annotatedMembers .none Scans.InTurn report ∧
      .ofDeclaration Sample.abstractMethod .pub .priv ∈ report.suggestions ∧
      (Sample.floorAt .priv).policy.FloorAlone Sample.annotatedMembers Sample.abstractMethod .priv := by
  intro report
  have answers : (Sample.floorAt .priv).Answers Sample.annotatedMembers .none Scans.InTurn report :=
    Sample.answers_runUnder rfl _
  have hs : Suggestion.ofDeclaration Sample.abstractMethod .pub .priv ∈ report.suggestions := by
    rw [Sample.suggestions_annotatedMembers]
    exact List.mem_cons_self
  refine ⟨Sample.parse_annotatedMembersDocument, answers, hs, ?_⟩
  obtain ⟨d, hd, hid, -, h⟩ :=
    suggestion_is_expressible_or_floor Sample.parse_annotatedMembersDocument answers hs
  obtain rfl : Sample.abstractMethod = d := Graph.eq_of_id_eq
    (Snapshot.wellFormed_of_parse Sample.parse_annotatedMembersDocument).uniqueIds (by decide) hd hid
  exact h.resolve_left fun hexpresses => absurd hexpresses.2 (by decide)

/-! ## Levels that the options permit -/

/-- **A suggestion is permitted, or it is a floor alone.** What the options forbid is suggested only as the
floor of an entry point, when every usage requires less. -/
theorem suggestion_is_permitted_or_floor {v : Option Json} {c : Codebase}
    (accepted : Snapshot.parse v = .ok c) {cfg : Config} {x : Disturbance}
    {discipline : Scans → Scans.Move → Prop} {report : Report}
    (answers : cfg.Answers c x discipline report) {s : Suggestion} (hs : s ∈ report.suggestions) :
    ∃ d ∈ c.graph.declarations, s.declarationId = d.id ∧
      (cfg.options.Permits d (d.containerId.bind c.graph.find?) s.suggested ∨
        cfg.policy.FloorAlone c d s.suggested) := by
  have hw := Snapshot.wellFormed_of_parse accepted
  obtain ⟨d, hd, hid, h⟩ := answers.requirable_or_floorAlone hw.uniqueIds hs
  exact ⟨d, hd, hid, h.imp (·.permits) And.left⟩

namespace Sample

/-- A field that is injected, and that nothing uses. -/
def injectedField : Declaration :=
  { declared "T.f" "f" .field "p" with containerId := some "T", annotations := ["javax.inject.Inject"] }

def injected : Codebase := { graph := ⟨[aroundType, injectedField]⟩ }

def injectedDocument : Json :=
  unused
    [entry "T" "T" "type" "public" [("typeKind", .text "class")],
      entry "T.f" "f" "field" "public"
        [("containerId", .text "T"), ("annotations", .list [.text "javax.inject.Inject"])]]

theorem parse_injectedDocument : Snapshot.parse (some injectedDocument) = .ok injected :=
  Snapshot.parse_of_toOption (by decide +kernel)

/-- Package access is not wanted for members. -/
def noPackageMembersDocument : Json :=
  .object [("analysis", .object
    [("concurrency", .number .one), ("suggestPackageLocalForMembers", .bool false)])]

def noPackageMembers : Config := { options := { packageForMembers := false }, concurrency := .one }

theorem parse_noPackageMembersDocument :
    Config.parse (some noPackageMembersDocument) = .ok noPackageMembers := by
  decide +kernel

theorem suggestions_injected : (runUnder noPackageMembers injected).report.suggestions =
    [.ofDeclaration injectedField .pub .pkg] := by
  have htypes : injected.graph.typesInnermostFirst = [aroundType] :=
    Graph.typesInnermostFirst_of_pairwise (by decide)
  rw [runUnder, Analysis.report_run_one, Report.ofFindings, withdraw, htypes]
  decide +kernel

end Sample

/-- Package access is suggested for a member although the options forbid it, as the usual floor of what is
injected. -/
theorem package_suggested_against_options :
    ¬ ∀ (v w : Option Json) (c : Codebase) (cfg : Config), Snapshot.parse v = .ok c →
      Config.parse w = .ok cfg → ∀ report, cfg.Answers c .none Scans.InTurn report →
        ∀ s ∈ report.suggestions, ∀ d ∈ c.graph.declarations, s.declarationId = d.id →
          cfg.options.Permits d (d.containerId.bind c.graph.find?) s.suggested := by
  intro hpermits
  have hs : Suggestion.ofDeclaration Sample.injectedField .pub .pkg ∈
      (Sample.runUnder Sample.noPackageMembers Sample.injected).report.suggestions := by
    rw [Sample.suggestions_injected]
    exact List.mem_singleton_self _
  have h : false = true := hpermits _ _ _ _ Sample.parse_injectedDocument
    Sample.parse_noPackageMembersDocument _ (Sample.answers_runUnder rfl _) _ hs Sample.injectedField
    (by decide) rfl
  cases h

/-- Private access is suggested for a member of a nested type, and nothing but its floor accounts for it. -/
theorem private_member_of_nested_type_is_floor :
    let report := (Sample.runUnder (Sample.floorAt .priv) Sample.annotatedMembers).report
    Snapshot.parse (some Sample.annotatedMembersDocument) = .ok Sample.annotatedMembers ∧
      (Sample.floorAt .priv).Answers Sample.annotatedMembers .none Scans.InTurn report ∧
      .ofDeclaration Sample.insideField .pub .priv ∈ report.suggestions ∧
      (Sample.floorAt .priv).policy.FloorAlone Sample.annotatedMembers Sample.insideField .priv := by
  intro report
  have answers : (Sample.floorAt .priv).Answers Sample.annotatedMembers .none Scans.InTurn report :=
    Sample.answers_runUnder rfl _
  have hs : Suggestion.ofDeclaration Sample.insideField .pub .priv ∈ report.suggestions := by
    rw [Sample.suggestions_annotatedMembers]
    exact List.mem_cons_of_mem _ List.mem_cons_self
  refine ⟨Sample.parse_annotatedMembersDocument, answers, hs, ?_⟩
  obtain ⟨d, hd, hid, h⟩ :=
    suggestion_is_permitted_or_floor Sample.parse_annotatedMembersDocument answers hs
  obtain rfl : Sample.insideField = d := Graph.eq_of_id_eq
    (Snapshot.wellFormed_of_parse Sample.parse_annotatedMembersDocument).uniqueIds (by decide) hd hid
  exact h.resolve_left fun hpermits => absurd (hpermits Sample.insideType rfl rfl) (by decide)

end LeastAccess
