import LeastAccess.Proofs.Report.Agreement
import LeastAccess.Proofs.Run.Answers

/-!
# Schedules do not show

A report is a function of what was found about each declaration, and that does not depend on the other
declarations. So the executed run over an accepted snapshot and every schedule report what a single worker
does, unless the run is cancelled.

* `same_report_of_any_schedule` — every number of workers against a single one
-/

namespace LeastAccess

/-! ## A single worker -/

/-- The same choices with a single worker. -/
def Config.sequential (cfg : Config) : Config := { cfg with concurrency := .one }

/-! ## Schedules without a cancellation -/

namespace Schedule

variable {e : Setting}

theorem token_act (steady : ∀ r, e.disturbance.cancels r = false) (s : Schedule) {a : Act}
    (ha : ∀ reason, a ≠ .cancel reason) : (s.act e a).feed.token = s.feed.token := by
  cases a with
  | take =>
    simp only [act]
    split
    · rfl
    · split <;> rfl
  | move i m =>
    simp only [act]
    split
    · next task hi =>
      cases task with
      | scanning d access container floor scans =>
        exact Scans.token_move (q := e.codebase.inquiry e.policy.options e.disturbance d container)
          steady { scans with feed := s.feed } m
      | concluded => rfl
    · rfl
  | conclude i =>
    simp only [act]
    split <;> rfl
  | record i =>
    simp only [act]
    split <;> rfl
  | cancel reason => exact absurd rfl (ha reason)

/-- A schedule without a cancellation leaves the token as it was. -/
theorem token_play (steady : ∀ r, e.disturbance.cancels r = false) (s : Schedule) {acts : List Act}
    (h : ∀ reason, Act.cancel reason ∉ acts) : (s.play e acts).feed.token = s.feed.token := by
  induction acts generalizing s with
  | nil => rfl
  | cons a acts ih =>
    have hrest := ih (s.act e a) fun reason hmem => h reason (List.mem_cons_of_mem a hmem)
    exact hrest.trans (token_act steady s fun reason heq => h reason (heq ▸ List.mem_cons_self))

end Schedule

/-! ## The same report -/

/-- Two reports that say the same, each based on one finding for every declaration. -/
structure Report.SameAnswer (g : Graph) (report report' : Report) : Prop where
  findings : (report.findings.map (·.declaration)).Perm g.declarations
  verdicts : ∀ id, (report.findings.resolutionOf? id).map (·.verdict) =
    (report'.findings.resolutionOf? id).map (·.verdict)
  suggestions : report.suggestions = report'.suggestions
  withdrawn : report.withdrawn = report'.withdrawn
  cancelled : report.cancelled = report'.cancelled
  stats : report.stats = report'.stats

namespace Config.Answers

variable {cfg cfg' : Config} {c : Codebase} {x : Disturbance}
  {discipline discipline' : Scans → Scans.Move → Prop} {report report' : Report}

/-- Two runs under the same policy to which nothing happened give the same answer. -/
theorem sameAnswer (h : cfg.Answers c x discipline report) (h' : cfg'.Answers c x discipline' report')
    (hpolicy : cfg'.policy = cfg.policy) (hu : c.graph.UniqueIds) (serves : ∀ r, x.fails r = false)
    (hc : report.cancelled = false) (hc' : report'.cancelled = false) :
    report.SameAnswer c.graph report' := by
  have hmatch := h.findings_match
  have hmatch' := h'.findings_match
  have hagree : report.findings.Agree report'.findings := by
    intro id
    have hmap := hmatch.map_resolutionOf? hu (·.verdict)
      (fun d => (plainResolution c cfg.policy d).verdict) (fun f hf => h.verdict_eq serves hc hf) id
    have hmap' := hmatch'.map_resolutionOf? hu (·.verdict)
      (fun d => (plainResolution c cfg'.policy d).verdict) (fun f hf => h'.verdict_eq serves hc' hf) id
    rw [hmap, hmap', hpolicy]
  have hreport : report = { report' with findings := report.findings } := by
    calc report = .ofFindings c.graph false report.findings := by rw [← hc]; exact h.eq_ofFindings
      _ = { Report.ofFindings c.graph false report'.findings with findings := report.findings } :=
        Report.ofFindings_eq_of_agree hu hmatch hmatch' hagree false
      _ = { report' with findings := report.findings } := by rw [← hc', ← h'.eq_ofFindings]
  refine ⟨hmatch, hagree, ?_, ?_, ?_, ?_⟩
  all_goals rw [hreport]

/-- When the scans take turns, they have looked at the same number of sites. -/
theorem resolutionOf?_eq (h : cfg.Answers c x Scans.InTurn report)
    (h' : cfg'.Answers c x Scans.InTurn report') (hpolicy : cfg'.policy = cfg.policy)
    (hu : c.graph.UniqueIds) (serves : ∀ r, x.fails r = false) (hc : report.cancelled = false)
    (hc' : report'.cancelled = false) (id : String) :
    report.findings.resolutionOf? id = report'.findings.resolutionOf? id := by
  have hmap := h.findings_match.map_resolutionOf? hu (fun r => r) _
    (fun f hf => h.resolution_eq serves (fun _ _ hm => hm) hc hf) id
  have hmap' := h'.findings_match.map_resolutionOf? hu (fun r => r) _
    (fun f hf => h'.resolution_eq serves (fun _ _ hm => hm) hc' hf) id
  rw [hpolicy, ← hmap] at hmap'
  simpa using hmap'.symm

end Config.Answers

/-- **Schedules do not show.** Over an accepted snapshot, with an index that serves and a token that
nothing cancels, the executed run gives the same answer as the sequential one, whatever the number of
workers, and has the same resolutions. So does every complete schedule; its resolutions may differ in
the number of sites that were looked at, unless the scans of each declaration take turns. -/
theorem same_report_of_any_schedule {v : Option Json} {c : Codebase}
    (accepted : Snapshot.parse v = .ok c) (cfg : Config)
    (positive : Analysis.checkConcurrency cfg.concurrency = .ok ()) (x : Disturbance)
    (serves : ∀ r, x.fails r = false) (steady : ∀ r, x.cancels r = false) (feed : Feed)
    (live : feed.token.isCancelled = false) :
    ∃ run sequential : Analysis.Run, cfg.analyze c x feed = .ok run ∧
      cfg.sequential.analyze c x feed = .ok sequential ∧
      run.report.SameAnswer c.graph sequential.report ∧
      (∀ id, run.report.findings.resolutionOf? id = sequential.report.findings.resolutionOf? id) ∧
      ∀ workers acts, (∀ reason, .cancel reason ∉ acts) →
        let e := cfg.setting c x workers
        let s := (Schedule.start e feed).play e acts
        s.isComplete = true →
          (s.report e).SameAnswer c.graph sequential.report ∧
            ((Schedule.start e feed).Follows e Scans.InTurn acts →
              ∀ id, (s.report e).findings.resolutionOf? id =
                sequential.report.findings.resolutionOf? id) := by
  have hu := (Snapshot.wellFormed_of_parse accepted).uniqueIds
  have hc : (Analysis.progress c cfg.policy x feed).feed.token.isCancelled = false :=
    Analysis.isCancelled_progress steady c cfg.policy live
  have hrun := Config.analyze_of_checkConcurrency positive c x feed
  have hsequential : cfg.sequential.analyze c x feed = _ :=
    Config.analyze_of_checkConcurrency Analysis.checkConcurrency_one c x feed
  have answers : cfg.Answers c x Scans.InTurn _ := .executed hrun
  have answers' : cfg.sequential.Answers c x Scans.InTurn _ := .executed hsequential
  refine ⟨_, _, hrun, hsequential, answers.sameAnswer answers' rfl hu serves hc hc,
    answers.resolutionOf?_eq answers' rfl hu serves hc hc, ?_⟩
  intro workers acts hcancel e s complete
  have hs : s.feed.token.isCancelled = false := by
    rw [Schedule.token_play (e := e) steady _ hcancel]
    exact live
  constructor
  · -- in any order of the moves only the verdicts are determined
    have scheduled : cfg.Answers c x (fun _ _ => True) (s.report e) :=
      .scheduled (Schedule.follows_of_forall (fun _ _ => trivial) acts) complete
    exact scheduled.sameAnswer answers' rfl hu serves hs hc
  · intro follows
    have scheduled : cfg.Answers c x Scans.InTurn (s.report e) := .scheduled follows complete
    exact scheduled.resolutionOf?_eq answers' rfl hu serves hs hc

/-- The usual number of workers and two workers that overtake each other three times find the same
suggestions for the sample. -/
theorem sample_report_of_more_workers :
    let e := Config.setting {} Sample.codebase .none 2
    let acts := Sample.overtaking ++ Sample.overtaking ++ Sample.overtaking
    let s := (Schedule.start e {}).play e acts
    Snapshot.parse (some Sample.document) = .ok Sample.codebase ∧
      Analysis.checkConcurrency Analysis.defaultConcurrency = .ok () ∧ s.isComplete = true ∧
      ∃ run, Config.analyze {} Sample.codebase .none {} = .ok run ∧
        run.report.suggestions =
          [.ofDeclaration Sample.field .pub .priv, .ofDeclaration Sample.functionalType .pub .pkg] ∧
        (s.report e).suggestions = run.report.suggestions := by
  intro e acts s
  obtain ⟨run, sequential, hrun, hsequential, hsame, -, hschedules⟩ :=
    same_report_of_any_schedule Sample.parse_document {} Analysis.checkConcurrency_default .none
      (fun _ => rfl) (fun _ => rfl) {} rfl
  have hcancel : ∀ reason, Schedule.Act.cancel reason ∉ acts := by
    intro reason hmem
    simp [acts, Sample.overtaking] at hmem
  have hcomplete : s.isComplete = true := by decide +kernel
  refine ⟨Sample.parse_document, Analysis.checkConcurrency_default, hcomplete, run, hrun,
    hsame.suggestions.trans ?_, ?_⟩
  · rw [(Config.analyze_eq_ok_iff.mp hsequential).2]
    exact Sample.suggestions_run
  · rw [(hschedules 2 acts hcancel hcomplete).1.suggestions, hsame.suggestions]

end LeastAccess
