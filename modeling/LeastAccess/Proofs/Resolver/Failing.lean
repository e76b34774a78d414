import LeastAccess.Proofs.Resolver.RoundRobin

/-!
# Resolving with an index that fails

The index may fail a declaration at the request that its scan makes after some number of sites. A declaration
that needs no usages never makes a request, and a scan that has seen public access makes no more. So the
failure shows exactly if the scan gets to that request, and the declaration is unresolvable then. In every
other case its resolution is the undisturbed one, down to the number of sites that were looked at.

* `Policy.FailsAt` — the scan of a declaration gets to the request at which its index fails
* `endures_resolve` — what is answered then, and in every other case
-/

namespace LeastAccess

/-- The index fails some declarations, each at the request after a number of sites. -/
def Disturbance.failing (after : String → Option Nat) : Disturbance where
  cancels _ := false
  fails r := after r.declarationId == some r.handed

/-- The scan of a declaration gets to the request at which its index fails: the declaration is scanned, it has
the sites before that request, and none of them makes the level public, though there may be none. -/
def Policy.FailsAt (p : Policy) (c : Codebase) (after : String → Option Nat) (d : Declaration) : Prop :=
  ∃ access container floor n, screen c.graph p d = .scan access container floor ∧ after d.id = some n ∧
    n ≤ (c.usages.sites .ordinary d.id).length ∧
    (n = 0 ∨ Level.join (floor.getD .priv)
      (((c.usages.sites .ordinary d.id).take n).map (siteLevel c.graph p.options d container)) ≠ .pub)

/-- A resolution is a failure if the scan gets to the request that fails, and otherwise the undisturbed one. -/
def Policy.Endures (p : Policy) (c : Codebase) (after : String → Option Nat) (d : Declaration)
    (r : Resolution) : Prop :=
  p.FailsAt c after d ∧ r = .unresolvable .providerFailure ∨
    ¬ p.FailsAt c after d ∧ r = undisturbedResolution c p d

section

variable {c : Codebase} {p : Policy} {x : Disturbance} {d : Declaration} {access : Level}
  {container : Option Declaration} {floor : Option Level} {after : String → Option Nat}

theorem failsAfter_failing (c : Codebase) (o : Options) (after : String → Option Nat) (d : Declaration)
    (container : Option Declaration) :
    (c.inquiry o (.failing after) d container).FailsAfter (after d.id) :=
  ⟨fun _ => rfl, fun _ _ _ => rfl⟩

theorem failsAfter_none (c : Codebase) (o : Options) (d : Declaration) (container : Option Declaration) :
    (c.inquiry o .none d container).FailsAfter none :=
  ⟨fun _ => rfl, fun _ _ _ => rfl⟩

/-- A scan gets to the request after the first sites if these do not make the level public. -/
theorem requests_start_iff {judge : UsageSite → Level} {sites : List UsageSite} {n : Nat} :
    (Tally.start floor).Requests judge sites n ↔
      n ≤ sites.length ∧ (n = 0 ∨ Level.join (floor.getD .priv) ((sites.take n).map judge) ≠ .pub) := by
  unfold Tally.Requests
  refine and_congr_right fun hle => ?_
  have hjoined : ((Tally.start floor).lookAll judge (sites.take n)).accumulator.Joined (floor.getD .priv)
      ([] ++ (sites.take n).map judge) := Tally.joined_lookAll (Accumulator.joined_start _) _
  have hempty : sites.take n = [] ↔ n = 0 := by
    rw [List.take_eq_nil_iff]
    constructor
    · rintro (h | rfl)
      · exact h
      · exact Nat.le_zero.mp hle
    · exact Or.inl
  rw [← Bool.not_eq_true, hjoined.saturated_iff, hjoined.level, List.nil_append, ne_eq, List.map_eq_nil_iff,
    hempty, not_and_or, not_not]

theorem failsAt_iff (hscreen : screen c.graph p d = .scan access container floor) :
    p.FailsAt c after d ↔ ∃ n, after d.id = some n ∧ (Tally.start floor).Requests
      (siteLevel c.graph p.options d container) (c.usages.sites .ordinary d.id) n := by
  simp only [requests_start_iff]
  constructor
  · rintro ⟨access', container', floor', n, hscreen', hafter, h⟩
    rw [hscreen] at hscreen'
    cases hscreen'
    exact ⟨n, hafter, h⟩
  · rintro ⟨n, hafter, h⟩
    exact ⟨access, container, floor, n, hscreen, hafter, h⟩

/-- Nothing that is settled without a scan can fail. -/
theorem not_failsAt_of_settled {r : Resolution} (h : screen c.graph p d = .settled r) :
    ¬ p.FailsAt c after d := by
  rintro ⟨access, container, floor, n, hscreen, -⟩
  rw [h] at hscreen
  cases hscreen

/-- Nor can what the index always serves. -/
theorem not_failsAt_of_eq_none (h : after d.id = none) : ¬ p.FailsAt c after d := by
  rintro ⟨access, container, floor, n, -, hn, -⟩
  rw [h] at hn
  cases hn

/-- Scans that have looked at what an undisturbed scan looks at conclude the undisturbed resolution. -/
theorem conclude_of_lookout (hscreen : screen c.graph p d = .scan access container floor) {scans : Scans}
    (hfailed : scans.hasFailed = false) (hlive : scans.feed.token.isCancelled = false)
    (htally : scans.tally = (Tally.start floor).lookAll (siteLevel c.graph p.options d container)
      ((Tally.start floor).lookout (siteLevel c.graph p.options d container) (c.sitesInTurns d))) :
    conclude p.options d access container floor.isSome scans = undisturbedResolution c p d := by
  let q := c.inquiry p.options .none d container
  let run := (c.scansOf d floor {}).run q
  obtain ⟨hrun, -⟩ := @run_scansOf c p .none d container floor {} (failsAfter_none c p.options d container) rfl
  have hrunFailed : run.hasFailed = false := hasFailed_run_scansOf (fun _ => rfl) {}
  have hrunLive : run.feed.token.isCancelled = false := by
    show ((c.scansOf d floor {}).run q).feed.token.isCancelled = false
    rw [Scans.token_run fun _ => rfl]
    rfl
  unfold undisturbedResolution resolve
  rw [hscreen]
  show _ = conclude p.options d access container floor.isSome run
  rw [conclude_of_tally hfailed hlive htally, conclude_of_tally hrunFailed hrunLive hrun]
  rfl

/-- Before the first move a scan on its own has looked at nothing. -/
theorem looksAlone_scansOf (halone : c.functionalSites? d = none) (floor : Option Level) (feed : Feed)
    (q : Inquiry) (after : Option Nat) :
    (c.scansOf d floor feed).LooksAlone q (.start floor) (c.usages.sites .ordinary d.id) after [] .ordinary := by
  unfold Codebase.scansOf
  rw [halone]
  exact ⟨⟨rfl, rfl, fun n _ => ⟨rfl, Nat.zero_le n⟩⟩, ⟨0, rfl⟩, rfl⟩

/-- What a scan on its own concludes when it has stopped. -/
theorem endures_of_looksAlone (hscreen : screen c.graph p d = .scan access container floor)
    (halone : c.functionalSites? d = none) {scans : Scans} {seen : List UsageSite}
    (h : scans.LooksAlone (c.inquiry p.options x d container) (.start floor) (c.usages.sites .ordinary d.id)
      (after d.id) seen .ordinary)
    (hl : scans.isLive = false) (hlive : scans.feed.token.isCancelled = false) :
    p.Endures c after d (conclude p.options d access container floor.isSome scans) := by
  have hfails : p.FailsAt c after d ↔ _ := failsAt_iff hscreen
  rcases h.of_not_isLive hl with ⟨hfailed, hrequests⟩ | ⟨hfailed, hnever, -, htally⟩
  · refine Or.inl ⟨hfails.mpr hrequests, ?_⟩
    unfold conclude
    rw [hfailed]
    rfl
  · refine Or.inr ⟨fun hrequests => ?_, conclude_of_lookout hscreen hfailed hlive ?_⟩
    · obtain ⟨n, hn, hreq⟩ := hfails.mp hrequests
      exact hnever n hn hreq
    · rw [Codebase.sitesInTurns_eq, halone, Option.getD_none, inTurns_nil_right]
      exact htally

/-- **The resolver endures failures of the index.** -/
theorem endures_resolve (spared : c.functionalSites? d ≠ none → after d.id = none) {feed : Feed}
    (hlive : feed.token.isCancelled = false) :
    p.Endures c after d (resolve c p (.failing after) d feed).resolution := by
  rw [resolve]
  cases hscreen : screen c.graph p d with
  | settled resolution =>
    refine Or.inr ⟨not_failsAt_of_settled hscreen, ?_⟩
    unfold undisturbedResolution resolve
    rw [hscreen]
  | scan access container floor =>
    let q := c.inquiry p.options (.failing after) d container
    let scans := (c.scansOf d floor feed).run q
    have hq : q.FailsAfter (after d.id) := failsAfter_failing c p.options after d container
    have hsteady : scans.feed.token.isCancelled = false := by
      show ((c.scansOf d floor feed).run q).feed.token.isCancelled = false
      rw [Scans.token_run hq.steady]
      exact hlive
    have hstopped : scans.isLive = false := Scans.isLive_run q _
    show p.Endures c after d (conclude p.options d access container floor.isSome scans)
    by_cases halone : c.functionalSites? d = none
    · obtain ⟨moves, hplay⟩ := (c.scansOf d floor feed).exists_play_eq_run q
      obtain ⟨seen, h, -⟩ := (looksAlone_scansOf halone floor feed q (after d.id)).play hq hlive moves
      rw [hplay] at h
      exact endures_of_looksAlone hscreen halone h hstopped hsteady
    · -- the index serves a declaration with two scans as it does in an undisturbed run
      have hnone : after d.id = none := spared halone
      rw [hnone] at hq
      have hnever : ¬ p.FailsAt c after d := not_failsAt_of_eq_none hnone
      have hrun : scans = (c.scansOf d floor feed).run q.undisturbed := Scans.run_eq_undisturbed hq _
      have hprecedes : Scans.Precedes q.undisturbed (c.scansOf d floor feed) scans := by
        rw [hrun] at hsteady ⊢
        exact .run (fun _ => rfl) (isBetweenRounds_scansOf c d floor feed) hsteady
      exact Or.inr ⟨hnever, conclude_of_precedes hscreen hprecedes hstopped hsteady⟩

end

end LeastAccess
