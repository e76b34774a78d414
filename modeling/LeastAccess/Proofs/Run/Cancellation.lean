import LeastAccess.Proofs.Run.Containment
import LeastAccess.Proofs.Run.Schedules
import LeastAccess.Proofs.Schedule.SingleWorker

/-!
# Cancelled runs

What a cancelled run has found is what the complete run finds, and what it has not found is marked as
cancelled. A cancelled declaration stands in for itself with its current level in the types around it. That
can fall short of the level that the complete run finds for it, since a level that was found may be above
the current one. Then the cancelled run suggests a type that the complete run withdraws, and only then does
it suggest more.

* `cancellation_is_all_or_nothing` — the resolutions of cancelled runs
* `cancelled_run_suggests_less` — their suggestions
-/

namespace LeastAccess

/-! ## Resolutions -/

/-- A report against that of a complete run: every declaration is cancelled, and then the report says so,
or shows what it shows there. -/
structure Report.CutShort {α : Type} (g : Graph) (view : Resolution → α) (report complete : Report) :
    Prop where
  findings : (report.findings.map (·.declaration)).Perm g.declarations
  entries : ∀ id r, report.findings.resolutionOf? id = some r →
    r = .cancelled ∨ (complete.findings.resolutionOf? id).map view = some (view r)
  flagged : ∀ id, report.findings.resolutionOf? id = some .cancelled → report.cancelled = true

/-- Findings that are cancelled or show an answer, against findings that all show it. -/
theorem Findings.Match.cancelled_or_eq {α : Type} {g : Graph} {fs complete : Findings} (hu : g.UniqueIds)
    (h : fs.Match g) (h' : complete.Match g) {view : Resolution → α} (answer : Declaration → α)
    (hview : ∀ f ∈ fs, f.resolution = .cancelled ∨ view f.resolution = answer f.declaration)
    (hview' : ∀ f ∈ complete, view f.resolution = answer f.declaration) {id : String} {r : Resolution}
    (hr : fs.resolutionOf? id = some r) :
    r = .cancelled ∨ (complete.resolutionOf? id).map view = some (view r) := by
  obtain ⟨f, hf, rfl, rfl⟩ := exists_mem_of_resolutionOf? hr
  refine (hview f hf).imp_right fun hanswer => ?_
  rw [h'.map_resolutionOf? hu view answer hview', Graph.find?_eq_some_of_mem hu (h.mem_declarations hf),
    Option.map_some, hanswer]

namespace Config.Answers

variable {cfg : Config} {c : Codebase} {x x' : Disturbance}
  {discipline discipline' : Scans → Scans.Move → Prop} {report complete : Report}

/-- Where something was cancelled the report says so. -/
theorem isCancelled (h : cfg.Answers c x discipline report) {id : String}
    (hr : report.findings.resolutionOf? id = some .cancelled) : report.cancelled = true := by
  obtain ⟨f, hf, -, hcancelled⟩ := Findings.exists_mem_of_resolutionOf? hr
  exact (h.explains hf).isCancelled hcancelled

/-- Up to the number of sites that were looked at, whatever the order of the moves. -/
theorem cutShort_verdict (h : cfg.Answers c x discipline report)
    (h' : cfg.Answers c x' discipline' complete) (hu : c.graph.UniqueIds)
    (serves : ∀ r, x.fails r = false) (serves' : ∀ r, x'.fails r = false)
    (whole : complete.cancelled = false) : report.CutShort c.graph Resolution.verdict complete where
  findings := h.findings_match
  entries _ _ hr := h.findings_match.cancelled_or_eq hu h'.findings_match
    (fun d => (plainResolution c cfg.policy d).verdict)
    (fun _ hf => (h.verdict_cases serves hf).imp_left And.left)
    (fun _ hf => h'.verdict_eq serves' whole hf) hr
  flagged _ := h.isCancelled

/-- Exactly, when the scans take turns. -/
theorem cutShort (h : cfg.Answers c x Scans.InTurn report) (h' : cfg.Answers c x' Scans.InTurn complete)
    (hu : c.graph.UniqueIds) (serves : ∀ r, x.fails r = false) (serves' : ∀ r, x'.fails r = false)
    (whole : complete.cancelled = false) : report.CutShort c.graph id complete where
  findings := h.findings_match
  entries _ _ hr := h.findings_match.cancelled_or_eq hu h'.findings_match
    (undisturbedResolution c cfg.policy)
    (fun _ hf => (h.resolution_cases serves (fun _ _ hm => hm) hf).imp_left And.left)
    (fun _ hf => h'.resolution_eq serves' (fun _ _ hm => hm) whole hf) hr
  flagged _ := h.isCancelled

end Config.Answers

/-- In the executed run of a single worker the declarations that are not cancelled are the first ones. -/
theorem Config.resolveFirst_of_analyze {cfg : Config} (hone : cfg.concurrency = .one) {c : Codebase}
    (hu : c.graph.UniqueIds) {x : Disturbance} {feed : Feed} {run : Analysis.Run}
    (h : cfg.analyze c x feed = .ok run) : run.report.findings.ResolveFirst c.graph := by
  obtain ⟨acts, hplay⟩ := Schedule.exists_play_eq_progress (cfg.setting c x 1) Nat.one_pos feed
  have hfinished : ((Schedule.start (cfg.setting c x 1) feed).play (cfg.setting c x 1) acts).isComplete =
      true := by
    rw [hplay]
    rfl
  have hfirst := Schedule.resolveFirst_of_isComplete rfl hu hfinished
  rw [hplay] at hfirst
  rw [(Config.analyze_eq_ok_iff.mp h).2, hone, Analysis.report_run_one]
  exact hfirst

/-- **Cancellation is all or nothing.** Over an accepted snapshot, with an index that serves, there is a
complete run, and wherever a run is cancelled, its resolutions are those of the complete run or cancelled,
which its report says then. So it is in every complete schedule with any number of workers; its resolutions
may differ in the number of sites that were looked at, unless the scans of each declaration take turns. With
a single worker the declarations that are not cancelled are the first ones. -/
theorem cancellation_is_all_or_nothing {v : Option Json} {c : Codebase}
    (accepted : Snapshot.parse v = .ok c) (cfg : Config)
    (positive : Analysis.checkConcurrency cfg.concurrency = .ok ()) (x : Disturbance)
    (serves : ∀ r, x.fails r = false) (feed : Feed) :
    ∃ run complete : Analysis.Run, cfg.analyze c x feed = .ok run ∧
      cfg.analyze c .none {} = .ok complete ∧ complete.report.cancelled = false ∧
      run.report.CutShort c.graph id complete.report ∧
      (cfg.concurrency = .one → run.report.findings.ResolveFirst c.graph) ∧
      ∀ workers acts,
        let e := cfg.setting c x workers
        let s := (Schedule.start e feed).play e acts
        s.isComplete = true →
          (s.report e).CutShort c.graph Resolution.verdict complete.report ∧
            ((Schedule.start e feed).Follows e Scans.InTurn acts →
              (s.report e).CutShort c.graph id complete.report) ∧
            (workers = 1 → (s.report e).findings.ResolveFirst c.graph) := by
  have hu := (Snapshot.wellFormed_of_parse accepted).uniqueIds
  have hrun := Config.analyze_of_checkConcurrency positive c x feed
  have hcomplete := Config.analyze_of_checkConcurrency positive c .none {}
  have answers : cfg.Answers c x Scans.InTurn _ := .executed hrun
  have answers' : cfg.Answers c .none Scans.InTurn _ := .executed hcomplete
  have whole : (Analysis.progress c cfg.policy .none {}).feed.token.isCancelled = false :=
    Analysis.isCancelled_progress (fun _ => rfl) c cfg.policy rfl
  refine ⟨_, _, hrun, hcomplete, whole, answers.cutShort answers' hu serves (fun _ => rfl) whole,
    fun hone => Config.resolveFirst_of_analyze hone hu hrun, ?_⟩
  intro workers acts e s complete
  refine ⟨?_, fun follows => ?_, fun hone => ?_⟩
  · -- in any order of the moves only the verdicts are determined
    have scheduled : cfg.Answers c x (fun _ _ => True) (s.report e) :=
      .scheduled (Schedule.follows_of_forall (fun _ _ => trivial) acts) complete
    exact scheduled.cutShort_verdict answers' hu serves (fun _ => rfl) whole
  · have scheduled : cfg.Answers c x Scans.InTurn (s.report e) := .scheduled follows complete
    exact scheduled.cutShort answers' hu serves (fun _ => rfl) whole
  · exact Schedule.resolveFirst_of_isComplete (e := e) hone hu complete

namespace Sample

/-- The run is cancelled when the usages of the first field are looked for. -/
def interrupted : Disturbance := { Disturbance.none with cancels := (·.declarationId == "A.f") }

end Sample

/-- A run over the sample that is cancelled after the first type has found that type and nothing else. -/
theorem first_type_before_cancellation :
    Snapshot.parse (some Sample.document) = .ok Sample.codebase ∧
      Analysis.checkConcurrency Sample.config.concurrency = .ok () ∧
      ∃ run complete : Analysis.Run,
        Sample.config.analyze Sample.codebase Sample.interrupted {} = .ok run ∧
        Sample.config.analyze Sample.codebase .none {} = .ok complete ∧
        run.report.cancelled = true ∧ complete.report.cancelled = false ∧
        complete.report.findings.resolutionOf? "A" = some (.resolved .pkg 1) ∧
        run.report.findings.resolutionOf? "A.f" = some .cancelled ∧
        run.report.findings.ResolveFirst Sample.codebase.graph := by
  obtain ⟨run, complete, hrun, hcomplete, whole, hcut, hfirst, -⟩ :=
    cancellation_is_all_or_nothing Sample.parse_document Sample.config Analysis.checkConcurrency_one
      Sample.interrupted (fun _ => rfl) {}
  have hreport := (Config.analyze_eq_ok_iff.mp hrun).2
  have hA : run.report.findings.resolutionOf? "A" = some (.resolved .pkg 1) := by
    rw [hreport, Sample.config, Analysis.report_run_one]
    decide +kernel
  have hf : run.report.findings.resolutionOf? "A.f" = some .cancelled := by
    rw [hreport, Sample.config, Analysis.report_run_one]
    decide +kernel
  refine ⟨Sample.parse_document, Analysis.checkConcurrency_one, run, complete, hrun, hcomplete,
    hcut.flagged "A.f" hf, whole, ?_, hf, hfirst rfl⟩
  rcases hcut.entries "A" _ hA with hcancelled | hshow
  · cases hcancelled
  · simpa using hshow

/-! ## Suggestions -/

namespace Findings

/-- Something in a type stands in for itself with its current level, because it was cancelled, and that falls
short of the level that a complete run finds for it. -/
def Understate (g : Graph) (fs complete : Findings) (id : String) (own : Level) : Prop :=
  ∃ member ∈ g.declarations, g.Contains id member.id ∧
    fs.resolutionOf? member.id = some .cancelled ∧
    ∃ current level, member.access? = some current ∧
      (complete.resolutionOf? member.id).bind (·.level?) = some level ∧ current ≤ own ∧ own < level

/-- What contributes to the types around it has a level, and a current one. -/
def AreLevels (g : Graph) (fs : Findings) : Prop :=
  ∀ d ∈ g.declarations, ∀ level, fs.contributionOf? d = some level →
    (fs.resolutionOf? d.id).bind (·.level?) = some level ∧ ∃ current, d.access? = some current

end Findings

namespace Report.CutShort

variable {g : Graph} {report complete : Report} {d : Declaration} {current level own : Level} {id : String}

/-- A declaration that could be narrowed in a cancelled run could be in the complete one. -/
theorem narrow (h : report.CutShort g Resolution.verdict complete)
    (hn : report.findings.Narrow d current level) : complete.findings.Narrow d current level := by
  obtain ⟨haccess, hl, hlt⟩ := hn
  refine ⟨haccess, ?_, hlt⟩
  obtain ⟨r, hr, hl⟩ := Option.bind_eq_some_iff.mp hl
  rcases h.entries d.id r hr with rfl | hshow
  · cases hl
  · obtain ⟨r', hr', hv⟩ := Option.map_eq_some_iff.mp hshow
    rw [hr', Option.bind_some, ← Resolution.level?_verdict, hv, Resolution.level?_verdict, hl]

/-- Where the contents of a type fit in a cancelled run, those that do not fit in the complete run were
cancelled. -/
theorem exceed_iff (h : report.CutShort g Resolution.verdict complete) (hu : g.UniqueIds)
    (hmatch' : complete.findings.Match g) (hlevels : complete.findings.AreLevels g)
    (hfit : ¬ report.findings.Exceed g id own) :
    complete.findings.Exceed g id own ↔ report.findings.Understate g complete.findings id own := by
  have hmatch : report.findings.Match g := h.findings
  constructor
  · rintro ⟨member, hmem, hin, level, hcontribution, hlt⟩
    obtain ⟨hl, current, haccess⟩ := hlevels member hmem level hcontribution
    obtain ⟨f, hf, rfl⟩ := hmatch.exists_mem hmem
    have hr := hmatch.resolutionOf?_of_mem hu hf
    have hnot {l : Level} (hl : f.contribution? = some l) : ¬ own < l := fun hlt =>
      hfit ⟨f.declaration, hmem, hin, l, by rw [hmatch.contributionOf?_eq hu hf, hl], hlt⟩
    rcases h.entries _ _ hr with hcancelled | hshow
    · rw [hcancelled] at hr
      have hcurrent : f.contribution? = some current := by
        rw [Finding.contribution?, hcancelled]
        exact haccess
      exact ⟨f.declaration, hmem, hin, hr, current, level, haccess, hl,
        Level.not_lt.mp (hnot hcurrent), hlt⟩
    · -- what was not cancelled contributes the same in both runs
      obtain ⟨r', hr', hv⟩ := Option.map_eq_some_iff.mp hshow
      rw [Findings.contributionOf?, hr', Option.bind_some,
        Finding.contribution?_eq_of_verdict hv] at hcontribution
      exact absurd hlt (hnot hcontribution)
  · rintro ⟨member, hmem, hin, -, current, level, -, hl, -, hlt⟩
    refine ⟨member, hmem, hin, level, ?_, hlt⟩
    rw [← hmatch'.levelOf?_eq hu] at hl
    exact hmatch'.contributionOf?_of_levelOf? hu hl

end Report.CutShort

/-- In a complete run what contributes has a level, and a current one. -/
theorem Config.Answers.areLevels {cfg : Config} {c : Codebase} {x : Disturbance}
    {discipline : Scans → Scans.Move → Prop} {report : Report} (h : cfg.Answers c x discipline report)
    (hu : c.graph.UniqueIds) (serves : ∀ r, x.fails r = false) (whole : report.cancelled = false) :
    report.findings.AreLevels c.graph := by
  intro member hmem level hcontribution
  rw [h.contributionOf?_eq hu serves whole hmem] at hcontribution
  exact ⟨(h.level?_eq hu serves whole hmem).trans hcontribution,
    exists_access?_of_plainResolution hcontribution⟩

/-- **A cancelled run suggests no more than the complete one, where its levels hold.** Its suggestions for
declarations that the complete run does not withdraw are, in order, among those of the complete run. It
suggests a type that the complete run withdraws exactly if something in the type was cancelled whose current
level fits in the suggested one while the level that the complete run finds for it does not. -/
theorem cancelled_run_suggests_less {v : Option Json} {c : Codebase} (accepted : Snapshot.parse v = .ok c)
    {cfg : Config} {x x' : Disturbance} {discipline discipline' : Scans → Scans.Move → Prop}
    {report complete : Report} (answers : cfg.Answers c x discipline report)
    (answers' : cfg.Answers c x' discipline' complete) (serves : ∀ r, x.fails r = false)
    (serves' : ∀ r, x'.fails r = false) (whole : complete.cancelled = false) :
    (report.suggestions.filter fun s => s.declarationId ∉ complete.withdrawn).Sublist
        complete.suggestions ∧
      ∀ s ∈ report.suggestions, s.declarationId ∈ complete.withdrawn ↔
        report.findings.Understate c.graph complete.findings s.declarationId s.suggested := by
  have hw := Snapshot.wellFormed_of_parse accepted
  have hu := hw.uniqueIds
  have hmatch' := answers'.findings_match
  have hcut := answers.cutShort_verdict answers' hu serves serves' whole
  have hsuggestion {s : Suggestion} (hs : s ∈ report.suggestions) : ∃ d ∈ c.graph.declarations,
      ∃ current level, complete.findings.Narrow d current level ∧ s = .ofDeclaration d current level ∧
        (d.isType = true → ¬ report.findings.Exceed c.graph d.id level) := by
    obtain ⟨d, hd, current, level, hn, hs, hfit⟩ := (answers.mem_suggestions_iff hw).mp hs
    exact ⟨d, hd, current, level, hcut.narrow hn, hs, hfit⟩
  constructor
  · refine sublist_of_subset (·.declarationId) hu ?_ answers'.sublist_suggestions fun s hs => ?_
    · exact (List.filter_sublist.map _).trans answers.sublist_suggestions
    · obtain ⟨hs, hout⟩ := List.mem_filter.mp hs
      obtain ⟨d, hd, current, level, hn, rfl, -⟩ := hsuggestion hs
      have hout : d.id ∉ complete.withdrawn := of_decide_eq_true hout
      rw [answers'.mem_withdrawn_iff hw hd hn] at hout
      exact (answers'.mem_suggestions_iff hw).mpr
        ⟨d, hd, current, level, hn, rfl, fun htype hexceed => hout ⟨htype, hexceed⟩⟩
  · intro s hs
    obtain ⟨d, hd, current, level, hn, rfl, hfit⟩ := hsuggestion hs
    show d.id ∈ complete.withdrawn ↔ report.findings.Understate c.graph complete.findings d.id level
    have hlevels := answers'.areLevels hu serves' whole
    rw [answers'.mem_withdrawn_iff hw hd hn]
    constructor
    · rintro ⟨htype, hexceed⟩
      exact (hcut.exceed_iff hu hmatch' hlevels (hfit htype)).mp hexceed
    · intro hunder
      -- only types contain anything
      have ⟨member, hmem, hin, _⟩ := hunder
      have htype := hw.isType_of_contains hd hin
      exact ⟨htype, (hcut.exceed_iff hu hmatch' hlevels (hfit htype)).mpr hunder⟩

/-! ## A field that is cancelled -/

namespace Sample

/-- A type with a package-private field, which code that was not understood refers to. -/
def heldDocument : Json :=
  let notUnderstood : Json :=
    .list [.object [("file", .text "Main.java"), ("package", .text "p"), ("enclosingTypeId", .text "U"),
      ("resolved", .bool false)]]
  .object
    [("version", .number .one),
      ("declarations", .list
        [entry "T" "T" "type" "public" [("typeKind", .text "class")],
          entry "T.f" "f" "field" "package" [("containerId", .text "T")],
          entry "U" "U" "type" "public" [("typeKind", .text "class")]]),
      ("usages", .object [("T", usedIn "U" "p" "none"), ("T.f", notUnderstood)])]

/-- The type around the field. -/
def heldType : Declaration := { declared "T" "T" .type "p" with typeKind := some .cls }

def held : Codebase :=
  { graph :=
      ⟨[heldType,
        { declared "T.f" "f" .field "p" with
          containerId := some "T", modifiers := some { access := .pkg } },
        { declared "U" "U" .type "p" with typeKind := some .cls }]⟩
    usages :=
      { ordinary := [("T", [siteIn "U"]), ("T.f", [{ siteIn "U" with resolved := false }])]
        functional := [] } }

theorem parse_heldDocument : Snapshot.parse (some heldDocument) = .ok held :=
  Snapshot.parse_of_toOption (by decide +kernel)

/-- The run is cancelled when the usages of the field are looked for. -/
def beforeField : Disturbance := { Disturbance.none with cancels := (·.declarationId == "T.f") }

theorem typesInnermostFirst_held :
    held.graph.typesInnermostFirst = held.graph.declarations.filter (·.isType) :=
  Graph.typesInnermostFirst_of_pairwise (by decide)

/-- The type is suggested when its field is cancelled. -/
theorem suggestions_beforeField :
    (runOver held beforeField).report.suggestions = [.ofDeclaration heldType .pub .pkg] := by
  rw [runOver, Analysis.report_run_one, Report.ofFindings, withdraw, typesInnermostFirst_held]
  decide +kernel

/-- In the complete run nothing is. -/
theorem suggestions_held : (runOver held .none).report.suggestions = [] := by
  rw [runOver, Analysis.report_run_one, Report.ofFindings, withdraw, typesInnermostFirst_held]
  decide +kernel

theorem withdrawn_held : (runOver held .none).report.withdrawn = ["T"] := by
  rw [runOver, Analysis.report_run_one, Report.ofFindings, withdraw, typesInnermostFirst_held]
  decide +kernel

end Sample

/-- A cancelled run can suggest a type that the complete run withdraws: the field in it holds the type at its
current level only. -/
theorem suggested_type_of_cancelled_field :
    ¬ ∀ (v : Option Json) (c : Codebase), Snapshot.parse v = .ok c → ∀ (cfg : Config) (x : Disturbance),
      (∀ r, x.fails r = false) → ∀ run complete : Analysis.Run,
        cfg.analyze c x {} = .ok run → cfg.analyze c .none {} = .ok complete →
          complete.report.cancelled = false →
            run.report.suggestions.Sublist complete.report.suggestions := by
  intro hsublist
  have h := hsublist _ _ Sample.parse_heldDocument Sample.config Sample.beforeField (fun _ => rfl) _ _
    (Sample.analyze_eq_runOver _ _) (Sample.analyze_eq_runOver _ _) (Sample.cancelled_runOver _)
  rw [Sample.suggestions_beforeField, Sample.suggestions_held] at h
  exact absurd (List.sublist_nil.mp h) (List.cons_ne_nil _ _)

/-- The type is suggested because the current level of its field falls short. -/
theorem type_suggested_for_cancelled_field :
    let report := (Sample.runOver Sample.held Sample.beforeField).report
    let complete := (Sample.runOver Sample.held .none).report
    Snapshot.parse (some Sample.heldDocument) = .ok Sample.held ∧
      Sample.config.Answers Sample.held Sample.beforeField Scans.InTurn report ∧
      Sample.config.Answers Sample.held .none Scans.InTurn complete ∧ complete.cancelled = false ∧
      .ofDeclaration Sample.heldType .pub .pkg ∈ report.suggestions ∧
      report.findings.Understate Sample.held.graph complete.findings "T" .pkg := by
  intro report complete
  have answers := Sample.answers_runOver Sample.held Sample.beforeField
  have answers' := Sample.answers_runOver Sample.held .none
  have whole := Sample.cancelled_runOver Sample.held
  have hs : Suggestion.ofDeclaration Sample.heldType .pub .pkg ∈ report.suggestions := by
    rw [Sample.suggestions_beforeField]
    exact List.mem_singleton_self _
  obtain ⟨-, hiff⟩ := cancelled_run_suggests_less Sample.parse_heldDocument answers answers'
    (fun _ => rfl) (fun _ => rfl) whole
  refine ⟨Sample.parse_heldDocument, answers, answers', whole, hs, (hiff _ hs).mp ?_⟩
  rw [Sample.withdrawn_held]
  exact List.mem_singleton_self "T"

end LeastAccess
