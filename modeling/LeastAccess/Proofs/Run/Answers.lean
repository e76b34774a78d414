import LeastAccess.Config.Basic
import LeastAccess.Proofs.Report.Findings
import LeastAccess.Proofs.Schedule.Findings
import LeastAccess.Proofs.Snapshot.Acceptance

/-!
# What an analysis can answer

`Analysis.Reports` collects the reports of executed runs and of all complete schedules, with any number of
workers, failures of the index and cancellations at any time. `Policy.Reports` and `Config.Answers` are those
under a policy and under a configuration. Each of them reports on one finding for every declaration.

* `Reports.findings_match`, `Reports.explains` — what holds of the findings of every report
* `Reports.resolution_cases`, `Reports.verdict_cases` — the findings of a run whose index serves
* `Reports.resolution_eq`, `Reports.verdict_eq` — those of a run to which nothing happened
-/

namespace LeastAccess

/-! ## Executed runs -/

namespace Analysis

variable {c : Codebase} {p : Policy} {x : Disturbance}

/-- A turn does not revive a token. -/
theorem isCancelled_step {s : Progress} (h : s.feed.token.isCancelled = true) (d : Declaration) :
    (step c p x s d).feed.token.isCancelled = true := by
  rw [step, if_pos h]
  exact h

/-- What the resolver answers about each declaration is found by a run, unless it is cancelled before. -/
theorem finding_of_progress (holds : Declaration → Resolution → Prop)
    (answers : ∀ d ∈ c.graph.declarations, ∀ feed : Feed, feed.token.isCancelled = false →
      (resolve c p x d feed).resolution = .cancelled ∧
          (resolve c p x d feed).feed.token.isCancelled = true ∨
        holds d (resolve c p x d feed).resolution) (feed : Feed) :
    ∀ f ∈ (progress c p x feed).findings,
      f.resolution = .cancelled ∧ (progress c p x feed).feed.token.isCancelled = true ∨
        holds f.declaration f.resolution := by
  have key : ∀ ds ⊆ c.graph.declarations, ∀ f ∈ (ds.foldl (step c p x) { feed }).findings,
      f.resolution = .cancelled ∧ (ds.foldl (step c p x) { feed }).feed.token.isCancelled = true ∨
        holds f.declaration f.resolution := by
    intro ds hds
    induction ds using List.reverseRecOn with
    | nil => exact fun f hf => absurd hf List.not_mem_nil
    | append_singleton ds d ih =>
      obtain ⟨hds, hd⟩ := List.append_subset.mp hds
      rw [List.foldl_append, List.foldl_cons, List.foldl_nil]
      intro f hf
      cases hc : (ds.foldl (step c p x) { feed }).feed.token.isCancelled with
      | true =>
        refine (?_ : f.resolution = .cancelled ∨ _).imp_left fun hr => ⟨hr, isCancelled_step hc d⟩
        rw [step, if_pos hc] at hf
        rcases List.mem_append.mp hf with hf | hf
        · exact (ih hds f hf).imp_left And.left
        · rw [List.mem_singleton.mp hf]
          exact Or.inl rfl
      | false =>
        rw [step, if_neg (Bool.eq_false_iff.mp hc)] at hf ⊢
        rcases List.mem_append.mp hf with hf | hf
        · rcases ih hds f hf with ⟨_, hcancelled⟩ | hr
          · rw [hc] at hcancelled
            cases hcancelled
          · exact Or.inr hr
        · rw [List.mem_singleton.mp hf]
          exact answers d (hd (List.mem_singleton.mpr rfl)) _ hc
  exact key c.graph.declarations (List.Subset.refl _)

/-- As long as the index serves, every declaration gets its undisturbed resolution, unless the run is
cancelled before. -/
theorem resolution_of_progress (serves : ∀ r, x.fails r = false) (feed : Feed) :
    ∀ f ∈ (progress c p x feed).findings,
      f.resolution = .cancelled ∧ (progress c p x feed).feed.token.isCancelled = true ∨
        f.resolution = undisturbedResolution c p f.declaration :=
  finding_of_progress (fun d r => r = undisturbedResolution c p d)
    (fun _ _ feed _ => resolution_resolve serves feed) feed

/-- A run that nothing cancels is not cancelled. -/
theorem isCancelled_progress (steady : ∀ r, x.cancels r = false) (c : Codebase) (p : Policy) {feed : Feed}
    (live : feed.token.isCancelled = false) :
    (progress c p x feed).feed.token.isCancelled = false := by
  unfold progress
  induction c.graph.declarations using List.reverseRecOn with
  | nil => exact live
  | append_singleton ds d ih =>
    rw [List.foldl_append, List.foldl_cons, List.foldl_nil, step, if_neg (Bool.eq_false_iff.mp ih),
      token_resolve steady]
    exact ih

theorem workerCount_one (items : Nat) : workerCount .one items = 1 := by
  have hfloor : Binary64.one.floorNat = 1 := by decide +kernel
  show max 1 (min Binary64.one.floorNat items) = 1
  rw [hfloor]
  omega

/-- A single worker records the findings in document order. -/
theorem report_run_one (c : Codebase) (p : Policy) (x : Disturbance) (feed : Feed) :
    (run c p x .one feed).report = .ofFindings c.graph (progress c p x feed).feed.token.isCancelled
      (progress c p x feed).findings := by
  rw [run, workerCount_one, recorded_one]

theorem checkConcurrency_one : checkConcurrency .one = .ok () := by
  have hinteger : Binary64.one.isInteger = true := Binary64.isInteger_iff.mpr (Nat.dvd_refl _)
  have hlt : Binary64.one.lt .one = false := by simp [Binary64.lt, Binary64.one]
  rw [checkConcurrency, hinteger, hlt]
  rfl

theorem checkConcurrency_default : checkConcurrency defaultConcurrency = .ok () := by
  have hvalid : (!defaultConcurrency.isInteger || defaultConcurrency.lt .one) = false := by
    decide +kernel
  rw [checkConcurrency, hvalid]
  rfl

end Analysis

/-! ## All runs -/

namespace Analysis

/-- The reports of runs under a policy: of executed runs with a usable number of workers, and of complete
schedules with any number. In a schedule the moves of the scans may be bound to a discipline; those of the
executed run take turns. -/
inductive Reports (p : Policy) (c : Codebase) (x : Disturbance) (discipline : Scans → Scans.Move → Prop)
    (usable : Binary64 → Prop) : Report → Prop
  | executed (concurrency : Binary64) (h : usable concurrency) (feed : Feed) :
      Reports p c x discipline usable (run c p x concurrency feed).report
  | scheduled {workers : Nat} {feed : Feed} {acts : List Schedule.Act}
      (follows : (Schedule.start ⟨c, p, x, workers⟩ feed).Follows ⟨c, p, x, workers⟩ discipline acts)
      (complete : ((Schedule.start ⟨c, p, x, workers⟩ feed).play ⟨c, p, x, workers⟩ acts).isComplete = true) :
      Reports p c x discipline usable (Schedule.report ⟨c, p, x, workers⟩
        ((Schedule.start ⟨c, p, x, workers⟩ feed).play ⟨c, p, x, workers⟩ acts))

namespace Reports

variable {p : Policy} {c : Codebase} {x : Disturbance} {discipline : Scans → Scans.Move → Prop}
  {usable : Binary64 → Prop} {report : Report}

theorem eq_ofFindings (h : Reports p c x discipline usable report) :
    report = .ofFindings c.graph report.cancelled report.findings := by
  cases h with
  | executed => rfl
  | scheduled => rfl

theorem findings_match (h : Reports p c x discipline usable report) : report.findings.Match c.graph := by
  cases h with
  | executed concurrency _ feed =>
    exact ((recorded_perm c p x feed _).map _).trans (.of_eq (findings_map_declaration c p x feed))
  | scheduled _ complete => exact Schedule.perm_declarations_of_isComplete complete

/-- Every finding is a failure, a cancellation, or the verdict of the plain join. -/
theorem explains (h : Reports p c x discipline usable report) {f : Finding} (hf : f ∈ report.findings) :
    Schedule.Explains c p x report.cancelled f := by
  cases h with
  | executed concurrency _ feed =>
    -- what the executed run finds, a single worker finds as well
    obtain ⟨acts, hplay⟩ := Schedule.exists_play_eq_progress ⟨c, p, x, 1⟩ Nat.one_pos feed
    have hexplains := @Schedule.explains_play ⟨c, p, x, 1⟩ (fun _ _ => True) feed acts
      (Schedule.follows_of_forall (fun _ _ => trivial) acts) f
    rw [hplay] at hexplains
    exact hexplains ((recorded_perm c p x feed _).mem_iff.mp hf)
  | scheduled follows _ => exact Schedule.explains_play follows hf

/-- Without a failure every finding is a cancellation or the undisturbed resolution, if the scans take
turns. -/
theorem resolution_cases (h : Reports p c x discipline usable report) (serves : ∀ r, x.fails r = false)
    (hturn : ∀ scans m, discipline scans m → scans.InTurn m) {f : Finding} (hf : f ∈ report.findings) :
    f.resolution = .cancelled ∧ report.cancelled = true ∨
      f.resolution = undisturbedResolution c p f.declaration := by
  cases h with
  | executed concurrency _ feed =>
    exact resolution_of_progress serves feed f ((recorded_perm c p x feed _).mem_iff.mp hf)
  | scheduled follows _ => exact Schedule.resolution_of_play serves hturn follows hf

/-- Without a cancellation it is the undisturbed resolution. -/
theorem resolution_eq (h : Reports p c x discipline usable report) (serves : ∀ r, x.fails r = false)
    (hturn : ∀ scans m, discipline scans m → scans.InTurn m) (hc : report.cancelled = false) {f : Finding}
    (hf : f ∈ report.findings) : f.resolution = undisturbedResolution c p f.declaration := by
  rcases h.resolution_cases serves hturn hf with ⟨_, hcancelled⟩ | hr
  · exact absurd hcancelled (Bool.eq_false_iff.mp hc)
  · exact hr

/-- Without a failure every finding is a cancellation or has the verdict of the plain join. -/
theorem verdict_cases (h : Reports p c x discipline usable report) (serves : ∀ r, x.fails r = false)
    {f : Finding} (hf : f ∈ report.findings) : f.resolution = .cancelled ∧ report.cancelled = true ∨
      f.resolution.verdict = (plainResolution c p f.declaration).verdict := by
  rcases h.explains hf with ⟨_, r, hr⟩ | h
  · rw [serves r] at hr
    cases hr
  · exact h

/-- Without a cancellation it has the verdict of the plain join. -/
theorem verdict_eq (h : Reports p c x discipline usable report) (serves : ∀ r, x.fails r = false)
    (hc : report.cancelled = false) {f : Finding} (hf : f ∈ report.findings) :
    f.resolution.verdict = (plainResolution c p f.declaration).verdict := by
  rcases h.verdict_cases serves hf with ⟨_, hcancelled⟩ | hv
  · exact absurd hcancelled (Bool.eq_false_iff.mp hc)
  · exact hv

end Reports

end Analysis

/-- The reports that runs under a policy can give, whatever the number of workers. -/
def Policy.Reports (p : Policy) (c : Codebase) (x : Disturbance) (discipline : Scans → Scans.Move → Prop) :
    Report → Prop :=
  Analysis.Reports p c x discipline fun _ => True

namespace Config

variable {cfg : Config} {c : Codebase} {x : Disturbance} {feed : Feed} {run : Analysis.Run}

/-- The reports that an analysis can give: its runs have the configured number of workers, if it can be set
up with that. -/
def Answers (cfg : Config) (c : Codebase) (x : Disturbance) (discipline : Scans → Scans.Move → Prop) :
    Report → Prop :=
  Analysis.Reports cfg.policy c x discipline fun concurrency =>
    concurrency = cfg.concurrency ∧ Analysis.checkConcurrency concurrency = .ok ()

/-- What a schedule under a configuration goes by. -/
def setting (cfg : Config) (c : Codebase) (x : Disturbance) (workers : Nat) : Schedule.Setting :=
  ⟨c, cfg.policy, x, workers⟩

theorem analyze_of_checkConcurrency (h : Analysis.checkConcurrency cfg.concurrency = .ok ()) (c : Codebase)
    (x : Disturbance) (feed : Feed) :
    cfg.analyze c x feed = .ok (Analysis.run c cfg.policy x cfg.concurrency feed) := by
  rw [analyze, h]
  rfl

theorem analyze_eq_ok_iff : cfg.analyze c x feed = .ok run ↔
    Analysis.checkConcurrency cfg.concurrency = .ok () ∧
      run = Analysis.run c cfg.policy x cfg.concurrency feed := by
  constructor
  · intro h
    rw [analyze] at h
    cases hcheck : Analysis.checkConcurrency cfg.concurrency with
    | error e =>
      rw [hcheck] at h
      cases h
    | ok =>
      rw [hcheck] at h
      exact ⟨rfl, (Except.ok.inj h).symm⟩
  · rintro ⟨hcheck, rfl⟩
    exact analyze_of_checkConcurrency hcheck c x feed

/-- What an analysis reports is one of its answers. -/
theorem Answers.executed {discipline : Scans → Scans.Move → Prop} (h : cfg.analyze c x feed = .ok run) :
    cfg.Answers c x discipline run.report := by
  obtain ⟨hcheck, rfl⟩ := analyze_eq_ok_iff.mp h
  exact Analysis.Reports.executed cfg.concurrency ⟨rfl, hcheck⟩ feed

end Config

/-! ## A run and a schedule -/

namespace Sample

def config : Config := { concurrency := .one }

/-- The run of a single worker over a codebase. -/
def runOver (c : Codebase) (x : Disturbance) : Analysis.Run := Analysis.run c config.policy x .one {}

theorem analyze_eq_runOver (c : Codebase) (x : Disturbance) : config.analyze c x {} = .ok (runOver c x) :=
  Config.analyze_of_checkConcurrency Analysis.checkConcurrency_one c x {}

theorem answers_runOver (c : Codebase) (x : Disturbance) :
    config.Answers c x Scans.InTurn (runOver c x).report :=
  .executed (analyze_eq_runOver c x)

theorem cancelled_runOver (c : Codebase) : (runOver c .none).report.cancelled = false :=
  Analysis.isCancelled_progress (fun _ => rfl) c config.policy rfl

/-- The run of a single worker over the sample. -/
def run : Analysis.Run := Analysis.run codebase config.policy .none .one {}

theorem answers_run : config.Answers codebase .none Scans.InTurn run.report := answers_runOver codebase .none

theorem report_run : run.report =
    .ofFindings codebase.graph false (Analysis.progress codebase config.policy .none {}).findings := by
  have hlive : (Analysis.progress codebase config.policy .none {}).feed.token.isCancelled = false :=
    cancelled_runOver codebase
  rw [run, Analysis.report_run_one, hlive]

/-- No type of the sample is in another one. -/
theorem typesInnermostFirst_codebase :
    codebase.graph.typesInnermostFirst = codebase.graph.declarations.filter (·.isType) :=
  Graph.typesInnermostFirst_of_pairwise (by decide)

/-- The field that is used in its own type only and the functional type can be narrowed. -/
theorem suggestions_run :
    run.report.suggestions = [.ofDeclaration field .pub .priv, .ofDeclaration functionalType .pub .pkg] := by
  rw [report_run, Report.ofFindings, withdraw, typesInnermostFirst_codebase]
  decide +kernel

/-- The first type cannot, for the sake of its other field. -/
theorem withdrawn_run : run.report.withdrawn = ["A"] := by
  rw [report_run, Report.ofFindings, withdraw, typesInnermostFirst_codebase]
  decide +kernel

/-- Two workers take a declaration each, and the second one is done first. -/
def overtaking : List Schedule.Act :=
  let round (task : Nat) : List Schedule.Act :=
    [.move task (.request .ordinary), .move task (.request .functional),
      .move task (.settle .ordinary), .move task (.settle .functional)]
  [.take, .take] ++ round 1 ++ round 0 ++ round 1 ++ round 0 ++
    [.conclude 1, .record 1, .conclude 0, .record 0]

end Sample

end LeastAccess
