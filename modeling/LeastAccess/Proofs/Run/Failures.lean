import LeastAccess.Proofs.Graph.Walks
import LeastAccess.Proofs.Run.Locality
import LeastAccess.Proofs.Schedule.Failures

/-!
# Runs with an index that fails

A failure of the index makes one declaration unresolvable, and this is all that it does to the findings of a
run. In the report it shows at the declaration itself, and at the types around it, where a contribution is
missing. Everything else is reported as if the index had not failed.

* `Policy.Reports.endures` — the findings of a run
* `failing_index_is_contained` — its findings and its report, against those of a run without failures
-/

namespace LeastAccess

/-- Screening does not fail. -/
theorem screen_ne_providerFailure (g : Graph) (p : Policy) (d : Declaration) :
    screen g p d ≠ .settled (.unresolvable .providerFailure) := by
  intro h
  rcases settled_cases h with ⟨level, hl⟩ | hr | hr | hr
  · cases hl
  · cases hr
  · cases hr
  · cases hr

/-- The undisturbed resolution is no failure. -/
theorem undisturbedResolution_ne_providerFailure (c : Codebase) (p : Policy) (d : Declaration) :
    undisturbedResolution c p d ≠ .unresolvable .providerFailure := by
  intro h
  have hverdict := verdict_undisturbedResolution c p d
  rw [h] at hverdict
  cases hscreen : screen c.graph p d with
  | settled resolution =>
    rw [plainResolution, hscreen] at hverdict
    cases resolution <;> cases hverdict
    exact screen_ne_providerFailure c.graph p d hscreen
  | scan access container floor =>
    rcases plainResolution_of_scan hscreen with hplain | ⟨level, sites, hplain⟩
    · rw [hplain] at hverdict
      cases hverdict
    · rw [hplain] at hverdict
      cases hverdict

section

variable {c : Codebase} {p : Policy} {after : String → Option Nat} {d : Declaration} {r : Resolution}
  {discipline : Scans → Scans.Move → Prop} {report : Report}

/-- A resolution is a failure exactly if the scan gets to the request that fails. -/
theorem Policy.Endures.eq_providerFailure_iff (h : p.Endures c after d r) :
    r = .unresolvable .providerFailure ↔ p.FailsAt c after d := by
  rcases h with ⟨hfails, hr⟩ | ⟨hserved, hr⟩
  · exact iff_of_true hr hfails
  · exact iff_of_false (fun h => undisturbedResolution_ne_providerFailure c p d (hr.symm.trans h)) hserved

/-- **Every finding of a run that is not cancelled endures the failures.** -/
theorem Policy.Reports.endures (h : p.Reports c (.failing after) discipline report)
    (spared : ∀ d ∈ c.graph.declarations, c.functionalSites? d ≠ none → after d.id = none)
    (hturn : ∀ scans m, discipline scans m → scans.InTurn m) (hc : report.cancelled = false) {f : Finding}
    (hf : f ∈ report.findings) : p.Endures c after f.declaration f.resolution := by
  cases h with
  | executed concurrency _ feed =>
    have hprogress := Analysis.finding_of_progress (p.Endures c after)
      (fun d hd feed hlive => Or.inr (endures_resolve (spared d hd) hlive)) feed f
      ((Analysis.recorded_perm c p (.failing after) feed _).mem_iff.mp hf)
    exact hprogress.resolve_left fun hcancelled => Bool.eq_false_iff.mp hc hcancelled.2
  | scheduled follows complete => exact Schedule.endures_play spared hturn follows hc hf

/-- What was found for a declaration of a graph. -/
theorem Policy.Reports.endures_resolutionOf? (h : p.Reports c (.failing after) discipline report)
    (unique : c.graph.UniqueIds)
    (spared : ∀ d ∈ c.graph.declarations, c.functionalSites? d ≠ none → after d.id = none)
    (hturn : ∀ scans m, discipline scans m → scans.InTurn m) (hc : report.cancelled = false)
    (hd : d ∈ c.graph.declarations) :
    ∃ r, report.findings.resolutionOf? d.id = some r ∧ p.Endures c after d r := by
  obtain ⟨f, hf, rfl⟩ := h.findings_match.exists_mem hd
  exact ⟨f.resolution, h.findings_match.resolutionOf?_of_mem unique hf, h.endures spared hturn hc hf⟩

end

/-- A report in which the failures of an index stay where they are. It is complete, exactly the declarations
whose scans get to a request that fails are unresolvable for it, and the others have their undisturbed
resolutions. A failed declaration is not reported and contributes nothing to the type around it. Any other one
is reported as in a run without failures, unless it is a type that contains a failed one. -/
structure Policy.Confines (p : Policy) (c : Codebase) (after : String → Option Nat) (report : Report) :
    Prop where
  complete : report.findings.Match c.graph
  failed_iff : ∀ f ∈ report.findings,
    f.resolution = .unresolvable .providerFailure ↔ p.FailsAt c after f.declaration
  undisturbed : ∀ f ∈ report.findings, ¬ p.FailsAt c after f.declaration →
    f.resolution = undisturbedResolution c p f.declaration
  unreported : ∀ d ∈ c.graph.declarations, p.FailsAt c after d →
    (∀ s ∈ report.suggestions, s.declarationId ≠ d.id) ∧ d.id ∉ report.withdrawn
  contributes_nothing : ∀ d ∈ c.graph.declarations, p.FailsAt c after d →
    report.findings.contributionOf? d = none
  others : ∀ whole, p.Reports c .none Scans.InTurn whole → whole.cancelled = false →
    ∀ d ∈ c.graph.declarations, ¬ p.FailsAt c after d →
      (d.isType = true → ∀ e ∈ c.graph.declarations, c.graph.Contains d.id e.id → ¬ p.FailsAt c after e) →
        (∀ s, s.declarationId = d.id → (s ∈ report.suggestions ↔ s ∈ whole.suggestions)) ∧
          (d.id ∈ report.withdrawn ↔ d.id ∈ whole.withdrawn)

section

variable {c : Codebase} {p : Policy} {after : String → Option Nat} {report : Report}

theorem Policy.Reports.confines (h : p.Reports c (.failing after) Scans.InTurn report)
    (unique : c.graph.UniqueIds) (acyclic : c.graph.Acyclic)
    (spared : ∀ d ∈ c.graph.declarations, c.functionalSites? d ≠ none → after d.id = none)
    (hc : report.cancelled = false) : p.Confines c after report := by
  have hmatch := h.findings_match
  have hfound {f : Finding} (hf : f ∈ report.findings) := h.endures spared (fun _ _ hm => hm) hc hf
  have hresolved {d : Declaration} (hd : d ∈ c.graph.declarations) :=
    h.endures_resolutionOf? unique spared (fun _ _ hm => hm) hc hd
  have hfailed {d : Declaration} (hd : d ∈ c.graph.declarations) (hfails : p.FailsAt c after d) :
      report.findings.resolutionOf? d.id = some (.unresolvable .providerFailure) := by
    obtain ⟨r, hr, hendures⟩ := hresolved hd
    rw [hr, hendures.eq_providerFailure_iff.mpr hfails]
  refine ⟨hmatch, fun f hf => (hfound hf).eq_providerFailure_iff, fun f hf hserved => ?_,
    fun d hd hfails => ?_, fun d hd hfails => ?_, fun whole hwhole hc' d hd hserved hinside => ?_⟩
  · exact (hfound hf).resolve_left (fun hr => hserved hr.1) |>.2
  · -- without a level there is no candidate
    have hlevel : report.findings.levelOf? d.id = none := by
      rw [hmatch.levelOf?_eq unique, hfailed hd hfails]
      rfl
    have hcandidate := Findings.candidate?_eq_none hlevel
    rw [h.eq_ofFindings]
    constructor
    · intro s hs hid
      rw [Findings.mem_suggestions_at_iff unique hd hid, hcandidate] at hs
      cases hs.1
    · rw [Findings.mem_withdrawn_at_iff unique hd, hcandidate]
      rintro ⟨⟨s, hs⟩, -⟩
      cases hs
  · unfold Findings.contributionOf?
    rw [hfailed hd hfails]
    rfl
  · have hmatch' := hwhole.findings_match
    have hsame {e : Declaration} (he : e ∈ c.graph.declarations) (hserved : ¬ p.FailsAt c after e) :
        report.findings.resolutionOf? e.id = whole.findings.resolutionOf? e.id := by
      obtain ⟨r, hr, hendures⟩ := hresolved he
      obtain ⟨f, hf, rfl⟩ := hmatch'.exists_mem he
      rw [hr, hmatch'.resolutionOf?_of_mem unique hf,
        hwhole.resolution_eq (fun _ => rfl) (fun _ _ hm => hm) hc' hf,
        (hendures.resolve_left fun hr => hserved hr.1).2]
    have hlevel := Findings.levelOf?_congr unique hmatch hmatch' (hsame hd hserved)
    have hcandidate := Findings.candidate?_congr hlevel
    have hwithdraw := Findings.AgreeWithin.mem_withdraw_iff unique hmatch hmatch' acyclic hd (hsame hd hserved)
      fun htype e he hin => hsame he (hinside htype e he hin)
    rw [h.eq_ofFindings, hwhole.eq_ofFindings]
    constructor
    · intro s hs
      rw [Findings.mem_suggestions_at_iff unique hd hs, Findings.mem_suggestions_at_iff unique hd hs,
        hcandidate, hwithdraw]
    · rw [Findings.mem_withdrawn_at_iff unique hd, Findings.mem_withdrawn_at_iff unique hd, hcandidate,
        hwithdraw]

end

/-- **A failing index is contained.** Let ids be unique and containment not circular, whatever the policy, and
let the index fail any declarations but functional types, each at the request after any number of sites. Then
types have depths, the resolver answers for every declaration, and a run that nobody cancels is not cut short.
The failures show in its report at the declarations that fail, and at the types that contain them. -/
theorem failing_index_is_contained {c : Codebase} (unique : c.graph.UniqueIds) (acyclic : c.graph.Acyclic)
    (p : Policy) {after : String → Option Nat}
    (spared : ∀ d ∈ c.graph.declarations, d.isType = true → d.isFunctional = true → after d.id = none) :
    c.graph.checkDepths = .ok () ∧
      (∀ d ∈ c.graph.declarations, ∀ feed : Feed, feed.token.isCancelled = false →
        p.Endures c after d (resolve c p (.failing after) d feed).resolution) ∧
      (∀ concurrency, ∀ feed : Feed, feed.token.isCancelled = false →
        (Analysis.run c p (.failing after) concurrency feed).report.cancelled = false) ∧
      ∀ report, p.Reports c (.failing after) Scans.InTurn report → report.cancelled = false →
        p.Confines c after report := by
  have hspared : ∀ d ∈ c.graph.declarations, c.functionalSites? d ≠ none → after d.id = none := by
    intro d hd hsites
    rw [ne_eq, Codebase.functionalSites?_eq_none_iff, Bool.not_eq_false, Bool.and_eq_true] at hsites
    exact spared d hd hsites.1 hsites.2
  refine ⟨Graph.checkDepths_eq_ok acyclic, fun d hd feed hlive => ?_, fun concurrency feed hlive => ?_,
    fun report h hc => ?_⟩
  · exact endures_resolve (hspared d hd) hlive
  · exact Analysis.isCancelled_progress (fun _ => rfl) c p hlive
  · exact h.confines unique acyclic hspared hc

/-- The index fails a field at once, which holds its type in the sample. The other field of that type is
suggested as before. -/
theorem failing_field_is_contained :
    let after (id : String) : Option Nat := if id = "A.f" then some 0 else none
    let c := Sample.codebase
    let report := (Analysis.run c {} (.failing after) .one {}).report
    let whole := (Analysis.run c {} .none .one {}).report
    c.graph.UniqueIds ∧ c.graph.Acyclic ∧
      (∀ d ∈ c.graph.declarations, d.isType = true → d.isFunctional = true → after d.id = none) ∧
      (∃ f ∈ report.findings, f.declaration.id = "A.f" ∧ f.resolution = .unresolvable .providerFailure) ∧
      ∀ s, s.declarationId = "A.g" → (s ∈ report.suggestions ↔ s ∈ whole.suggestions) := by
  intro after c report whole
  have hw : c.graph.WellFormed := Snapshot.wellFormed_of_parse Sample.parse_document
  have spared : ∀ d ∈ c.graph.declarations, d.isType = true → d.isFunctional = true → after d.id = none := by
    decide +kernel
  have hlive : ({} : Feed).token.isCancelled = false := rfl
  obtain ⟨-, -, hrun, hreports⟩ := failing_index_is_contained hw.uniqueIds hw.acyclic {} spared
  have hconfines : ({} : Policy).Confines c after report :=
    hreports _ (.executed .one trivial {}) (hrun .one {} hlive)
  have hwhole : whole.cancelled = false := Analysis.isCancelled_progress (fun _ => rfl) c {} hlive
  let failing : Declaration := { Sample.declared "A.f" "f" .field "p" with containerId := some "A" }
  have hfailing : failing ∈ c.graph.declarations := by decide +kernel
  have hfield : Sample.field ∈ c.graph.declarations := by decide +kernel
  have hfails : ({} : Policy).FailsAt c after failing :=
    ⟨.pub, _, none, 0, rfl, rfl, Nat.zero_le _, Or.inl rfl⟩
  have hserved : ¬ ({} : Policy).FailsAt c after Sample.field := not_failsAt_of_eq_none (by decide +kernel)
  refine ⟨hw.uniqueIds, hw.acyclic, spared, ?_, ?_⟩
  · obtain ⟨f, hf, hdeclaration⟩ := hconfines.complete.exists_mem hfailing
    refine ⟨f, hf, by rw [hdeclaration]; rfl, ?_⟩
    rw [hconfines.failed_iff f hf, hdeclaration]
    exact hfails
  · exact (hconfines.others whole (.executed .one trivial {}) hwhole Sample.field hfield hserved nofun).1

end LeastAccess
