import LeastAccess.Proofs.Config.Acceptance
import LeastAccess.Proofs.Graph.Walks
import LeastAccess.Proofs.Run.Answers

/-!
# Accepted snapshots are analysed to the end

What the resolver and the aggregation rely on is what loading has checked. On an accepted snapshot every
walk ends, no container is missing, and an accepted configuration sets the analysis up. So there is a report,
and only declarations without modifiers are left open in it.

* `plainResolution_eq_unresolvable_iff` — nothing can be said about a declaration without modifiers only
* `accepted_snapshot_is_analysed` — every run over an accepted snapshot ends with a conclusive report
-/

namespace LeastAccess

theorem Resolution.verdict_eq_unresolvable_iff {r : Resolution} {o : Obstacle} :
    r.verdict = .unresolvable o ↔ r = .unresolvable o := by
  cases r <;> simp [verdict]

theorem screenIn_ne_unresolvable {g : Graph} {p : Policy} {d : Declaration} {m : Modifiers}
    {container : Option Declaration} {o : Obstacle} :
    screenIn g p d m container ≠ .settled (.unresolvable o) := by
  intro h
  cases level?_of_screenIn h

/-- Screening leaves a declaration open if and only if it has no modifiers. -/
theorem screen_eq_unresolvable_iff {g : Graph} {p : Policy} {d : Declaration} {o : Obstacle}
    (hcontainer : ∀ id, d.containerId = some id → g.HasType id) :
    screen g p d = .settled (.unresolvable o) ↔ d.modifiers = none ∧ o = .missingModifiers := by
  rw [screen]
  cases hm : d.modifiers with
  | none => simp [eq_comm]
  | some m =>
    refine iff_of_false ?_ (fun h => nomatch h.1)
    simp only []
    split
    · exact nofun
    · cases hc : d.containerId with
      | none => exact screenIn_ne_unresolvable
      | some id =>
        obtain ⟨container, hf, -⟩ := hcontainer id hc
        simp only [hf]
        exact screenIn_ne_unresolvable

/-- Nothing can be said about a declaration if and only if it has no modifiers. -/
theorem plainResolution_eq_unresolvable_iff {c : Codebase} {p : Policy} {d : Declaration} {o : Obstacle}
    (hw : c.graph.WellFormed) (hd : d ∈ c.graph.declarations) :
    plainResolution c p d = .unresolvable o ↔ d.modifiers = none ∧ o = .missingModifiers := by
  rw [← screen_eq_unresolvable_iff (p := p) (hw.container_isType d hd)]
  cases hscreen : screen c.graph p d with
  | settled resolution => simp [plainResolution, hscreen]
  | scan access container floor =>
    rcases plainResolution_of_scan hscreen with h | ⟨level, sites, h⟩
    · simp [h]
    · simp [h]

/-- A report has a finding for every declaration, and leaves those without modifiers open and no others. -/
structure Report.Conclusive (report : Report) (g : Graph) : Prop where
  complete : (report.findings.map (·.declaration)).Perm g.declarations
  no_danglingContainer : ∀ f ∈ report.findings, f.resolution ≠ .unresolvable .danglingContainer
  no_providerFailure : ∀ f ∈ report.findings, f.resolution ≠ .unresolvable .providerFailure
  unresolvable_iff : ∀ f ∈ report.findings, f.resolution ≠ .cancelled →
    ((∃ o, f.resolution = .unresolvable o) ↔ f.declaration.modifiers = none)

/-- What is unresolvable in a run whose index serves has no modifiers. -/
theorem Config.Answers.unresolvable_iff {cfg : Config} {c : Codebase} {x : Disturbance}
    {discipline : Scans → Scans.Move → Prop} {report : Report} (h : cfg.Answers c x discipline report)
    (hw : c.graph.WellFormed) (serves : ∀ r, x.fails r = false) {f : Finding} (hf : f ∈ report.findings)
    (hc : f.resolution ≠ .cancelled) {o : Obstacle} :
    f.resolution = .unresolvable o ↔ f.declaration.modifiers = none ∧ o = .missingModifiers := by
  have hd : f.declaration ∈ c.graph.declarations :=
    h.findings_match.mem_iff.mp (List.mem_map_of_mem hf)
  have hverdict := (h.verdict_cases serves hf).resolve_left fun hcancelled => hc hcancelled.1
  rw [← Resolution.verdict_eq_unresolvable_iff, hverdict, Resolution.verdict_eq_unresolvable_iff,
    plainResolution_eq_unresolvable_iff hw hd]

theorem Config.Answers.conclusive {cfg : Config} {c : Codebase} {x : Disturbance}
    {discipline : Scans → Scans.Move → Prop} {report : Report} (h : cfg.Answers c x discipline report)
    (hw : c.graph.WellFormed) (serves : ∀ r, x.fails r = false) : report.Conclusive c.graph := by
  have hopen {f : Finding} (hf : f ∈ report.findings) {o : Obstacle}
      (hr : f.resolution = .unresolvable o) : o = .missingModifiers :=
    ((h.unresolvable_iff hw serves hf (by rw [hr]; exact nofun)).mp hr).2
  refine ⟨h.findings_match, fun f hf hr => ?_, fun f hf hr => ?_, fun f hf hc => ?_⟩
  · cases hopen hf hr
  · cases hopen hf hr
  · simp [h.unresolvable_iff hw serves hf hc]

/-- **An accepted snapshot is analysed to the end.** The index of a snapshot serves every request. Under every
accepted configuration and with any cancellation all walks of an analysis end, it can be set up, and it gives
a conclusive report. -/
theorem accepted_snapshot_is_analysed {v w : Option Json} {c : Codebase} {cfg : Config}
    (accepted : Snapshot.parse v = .ok c) (configured : Config.parse w = .ok cfg) {x : Disturbance}
    (serves : ∀ r, x.fails r = false) :
    (∀ outer inner, c.graph.Walk outer inner (c.graph.encloses outer inner)) ∧
      (∀ id, c.graph.CountsTo id (c.graph.depth id)) ∧ c.graph.checkDepths = .ok () ∧
      (∀ id base, id ≠ base →
        c.graph.Searched base [id] (c.graph.superTypesOf id) (c.graph.inherits id base)) ∧
      Analysis.checkConcurrency cfg.concurrency = .ok () ∧
      (∀ feed, ∃ run, cfg.analyze c x feed = .ok run ∧ run.report.Conclusive c.graph) ∧
      ∀ discipline report, cfg.Answers c x discipline report → report.Conclusive c.graph := by
  have hw := Snapshot.wellFormed_of_parse accepted
  have hsetup := Config.checkConcurrency_of_parse configured
  refine ⟨Graph.walk_encloses hw.acyclic, Graph.countsTo_depth hw.acyclic,
    Graph.checkDepths_eq_ok hw.acyclic, fun id base => c.graph.searched_inherits, hsetup, fun feed => ?_,
    fun _ _ answers => answers.conclusive hw serves⟩
  have hrun := Config.analyze_of_checkConcurrency hsetup c x feed
  have answers : cfg.Answers c x Scans.InTurn _ := .executed hrun
  exact ⟨_, hrun, answers.conclusive hw serves⟩

/-- Under the configuration with every default, and cut short while the first declaration is resolved. -/
theorem sample_is_analysed :
    let interrupted : Disturbance := { Disturbance.none with cancels := (·.declarationId == "A") }
    Snapshot.parse (some Sample.document) = .ok Sample.codebase ∧
      Config.parse (some (.object [])) = .ok {} ∧ (∀ r, interrupted.fails r = false) ∧
      Sample.codebase.graph.Walk "A" "A.f" true ∧ Sample.codebase.graph.CountsTo "A.f" 1 ∧
      ∃ run, ({} : Config).analyze Sample.codebase interrupted {} = .ok run ∧
        run.report.Conclusive Sample.codebase.graph := by
  intro interrupted
  obtain ⟨hwalk, hcount, -, -, -, hrun, -⟩ := accepted_snapshot_is_analysed (x := interrupted)
    Sample.parse_document Config.parse_empty fun _ => rfl
  exact ⟨Sample.parse_document, Config.parse_empty, fun _ => rfl, hwalk "A" "A.f", hcount "A.f", hrun {}⟩

end LeastAccess
