import LeastAccess.Proofs.Resolver.Undisturbed
import LeastAccess.Proofs.Scan.RoundRobin

/-!
# Which usages are looked at

Undisturbed, the resolver looks at the usages of a functional type in turns, an ordinary one and one that
adopts it, and at those of any other declaration in order, until what it has seen requires public access.
Levels and figures come from just these sites.

* `scans_are_one_in_turns` — what is looked at, handed out and answered
-/

namespace LeastAccess

/-- The visit of an event that is one. -/
def ResolverEvent.visit? : ResolverEvent → Option Visit
  | .visited visit => some visit
  | _ => none

/-- The sites that were looked at, in order. -/
def Outcome.visits (o : Outcome) : List Visit := o.events.filterMap (·.visit?)

/-- The usage sites of a declaration in the order in which its scans take turns. -/
def Codebase.sitesInTurns (c : Codebase) (d : Declaration) : List UsageSite :=
  inTurns (c.usages.sites .ordinary d.id)
    (if d.isType && d.isFunctional then c.usages.sites .functional d.id else [])

/-- They are what the two scans are given. -/
theorem Codebase.sitesInTurns_eq (c : Codebase) (d : Declaration) :
    c.sitesInTurns d = inTurns (c.usages.sites .ordinary d.id) ((c.functionalSites? d).getD []) := by
  rw [sitesInTurns, getD_functionalSites?]

section

variable {c : Codebase} {p : Policy} {x : Disturbance} {d : Declaration} {access : Level}
  {container : Option Declaration} {floor : Option Level} {feed : Feed}

/-- A resolution ends without a look at another site. -/
theorem filterMap_visit?_closingEvents (g : Graph) (p : Policy) (x : Disturbance) (d : Declaration)
    (r : Resolution) : (closingEvents g p x d r).filterMap (·.visit?) = [] := by
  cases r with
  | resolved => rfl
  | excluded => rfl
  | cancelled => rfl
  | unresolvable obstacle => cases obstacle <;> rfl
  | kept level reason =>
    unfold closingEvents
    rw [List.filterMap_append]
    have hnone (rules : List SubclassingRule) :
        (rules.map ResolverEvent.forced).filterMap (·.visit?) = [] := by
      rw [List.filterMap_map]
      exact List.filterMap_eq_nil_iff.mpr fun _ _ => rfl
    split
    · rw [hnone]
      rfl
    · rfl

/-- A tally before the first site. -/
def Tally.start (floor : Option Level) : Tally := ⟨.start (floor.getD .priv), []⟩

/-- What the scans of a declaration come to, and how many sites they are handed. -/
theorem run_scansOf (hq : (c.inquiry p.options x d container).FailsAfter none)
    (hlive : feed.token.isCancelled = false) :
    let q := c.inquiry p.options x d container
    let seen := (Tally.start floor).lookout q.judge (c.sitesInTurns d)
    ((c.scansOf d floor feed).run q).tally = (Tally.start floor).lookAll q.judge seen ∧
      ∃ dropped, ((c.scansOf d floor feed).run q).feed.handedOut = feed.handedOut + seen.length + dropped ∧
        dropped ≤ 1 ∧ (c.functionalSites? d = none → dropped = 0) := by
  intro q seen
  cases hsites : c.functionalSites? d with
  | none =>
    have hscans : c.scansOf d floor feed =
        ⟨.asking (c.usages.sites .ordinary d.id) 0, .finished 0, .start floor, feed⟩ := by
      unfold Codebase.scansOf
      rw [hsites]
      rfl
    have halone : (c.scansOf d floor feed).LooksAlone q (.start floor) (c.usages.sites .ordinary d.id) none []
        .ordinary := by
      rw [hscans]
      exact ⟨⟨rfl, rfl, nofun⟩, ⟨0, rfl⟩, rfl⟩
    have hseen : seen = (Tally.start floor).lookout q.judge (c.usages.sites .ordinary d.id) := by
      show Tally.lookout _ _ (c.sitesInTurns d) = _
      rw [Codebase.sitesInTurns_eq, hsites, Option.getD_none, inTurns_nil_right]
    obtain ⟨htally, hcount⟩ := halone.run hq (by rw [hscans]; exact hlive) (by rw [hscans]; rfl)
    rw [← hseen] at htally hcount
    rw [hscans] at hcount ⊢
    rw [hscans] at htally
    exact ⟨htally, 0, hcount, Nat.zero_le 1, fun _ => rfl⟩
  | some fs =>
    have hscans : c.scansOf d floor feed =
        ⟨.asking (c.usages.sites .ordinary d.id) 0, .asking fs 0, .start floor, feed⟩ := by
      unfold Codebase.scansOf
      rw [hsites]
      rfl
    have hseen : seen = (Tally.start floor).lookout q.judge (inTurns (c.usages.sites .ordinary d.id) fs) := by
      show Tally.lookout _ _ (c.sitesInTurns d) = _
      rw [Codebase.sitesInTurns_eq, hsites]
      rfl
    have hopen : (Tally.start floor).accumulator.saturated = false := rfl
    rw [hscans, hseen]
    obtain ⟨htally, dropped, hdropped, hcount⟩ := Scans.run_eq_lookout hq hlive hopen
    exact ⟨htally, dropped, hcount, hdropped, nofun⟩

/-- The sites that a scan from a floor looks at are the shortest ones, if there are any, whose join with the
floor is public access. -/
theorem stopsAt_lookout_start (judge : UsageSite → Level) (floor : Option Level) (sites : List UsageSite) :
    StopsAt (fun seen => seen ≠ [] ∧ Level.join (floor.getD .priv) (seen.map judge) = .pub) sites
      ((Tally.start floor).lookout judge sites) := by
  refine (StopsAt.lookout judge rfl sites).congr fun seen => ?_
  have hjoined : ((Tally.start floor).lookAll judge seen).accumulator.Joined (floor.getD .priv)
      ([] ++ seen.map judge) := Tally.joined_lookAll (Accumulator.joined_start _) seen
  rw [hjoined.saturated_iff, hjoined.level, List.nil_append, ne_eq, List.map_eq_nil_iff]

/-- What is concluded from the sites that were looked at. -/
theorem conclude_of_tally {o : Options} {scans : Scans} {judge : UsageSite → Level} {seen : List UsageSite}
    (hfailed : scans.hasFailed = false) (hlive : scans.feed.token.isCancelled = false)
    (htally : scans.tally = (Tally.start floor).lookAll judge seen) :
    conclude o d access container floor.isSome scans =
      if seen = [] ∧ floor = none then .kept access .unused
      else .resolved (effectiveLevel o d container (Level.join (floor.getD .priv) (seen.map judge)))
        seen.length := by
  have hjoined : scans.tally.accumulator.Joined (floor.getD .priv) ([] ++ seen.map judge) := by
    rw [htally]
    exact Tally.joined_lookAll (Accumulator.joined_start _) seen
  rw [List.nil_append] at hjoined
  have hfound : (!scans.tally.accumulator.foundUsage && !floor.isSome) = true ↔ seen = [] ∧ floor = none := by
    rw [hjoined.foundUsage_eq, Bool.not_not, List.isEmpty_map, Bool.and_eq_true, List.isEmpty_iff,
      Option.not_isSome, Option.isNone_iff_eq_none]
  unfold conclude
  simp only [hfailed, hlive, Bool.false_eq_true, if_false]
  rw [hjoined.level, hjoined.sitesVisited, List.length_map]
  exact if_congr hfound rfl rfl

end

/-- **The two scans of a functional type are one scan of the merged list.** A declaration that is scanned from
a floor, while neither a cancellation nor a failure comes in between, is looked at where its usages in turns
first require public access together with the floor, but at least at one, or at all of them if they do not.
The level and the number of sites are those of the sites looked at. At most one more is handed out, and none
if there is only one scan, which goes through the ordinary usages. -/
theorem scans_are_one_in_turns (c : Codebase) (p : Policy) {x : Disturbance}
    (serves : ∀ r, x.fails r = false) (steady : ∀ r, x.cancels r = false) {d : Declaration} {access : Level}
    {container : Option Declaration} {floor : Option Level}
    (hscreen : screen c.graph p d = .scan access container floor) {feed : Feed}
    (live : feed.token.isCancelled = false) :
    let outcome := resolve c p x d feed
    let judge := siteLevel c.graph p.options d container
    let joined (seen : List UsageSite) : Level := Level.join (floor.getD .priv) (seen.map judge)
    ∃ seen dropped,
      StopsAt (fun seen => seen ≠ [] ∧ joined seen = .pub) (c.sitesInTurns d) seen ∧
        outcome.visits = (seen.map fun site => ⟨site, judge site⟩) ∧
        outcome.resolution = (if seen = [] ∧ floor = none then .kept access .unused
          else .resolved (effectiveLevel p.options d container (joined seen)) seen.length) ∧
        outcome.feed.handedOut = feed.handedOut + seen.length + dropped ∧ dropped ≤ 1 ∧
        ((d.isType && d.isFunctional) = false →
          c.sitesInTurns d = c.usages.sites .ordinary d.id ∧ dropped = 0) := by
  intro outcome judge joined
  let q := c.inquiry p.options x d container
  let scans := (c.scansOf d floor feed).run q
  let seen := (Tally.start floor).lookout judge (c.sitesInTurns d)
  have hq : q.FailsAfter none := ⟨steady, fun _ _ _ => serves _⟩
  obtain ⟨hrun, dropped, hcount, hdropped, halone⟩ := @run_scansOf c p x d container floor feed hq live
  have htally : scans.tally = (Tally.start floor).lookAll judge seen := hrun
  have hvisits : scans.tally.visits = seen.map fun site => ⟨site, judge site⟩ := by
    rw [htally, Tally.visits_lookAll]
    rfl
  have hfailed : scans.hasFailed = false := hasFailed_run_scansOf serves feed
  have hsteady : scans.feed.token.isCancelled = false := by
    show ((c.scansOf d floor feed).run q).feed.token.isCancelled = false
    rw [Scans.token_run steady]
    exact live
  have houtcome : outcome = ⟨conclude p.options d access container floor.isSome scans, scans.feed,
      scans.tally.visits.map .visited ++ closingEvents c.graph p x d
        (conclude p.options d access container floor.isSome scans), turnsWithScans scans⟩ := by
    show resolve c p x d feed = _
    rw [resolve, hscreen]
  refine ⟨seen, dropped, stopsAt_lookout_start judge floor _, ?_, ?_, ?_, hdropped,
    fun hother => ⟨?_, halone (Codebase.functionalSites?_eq_none_iff.mpr hother)⟩⟩
  · rw [houtcome, Outcome.visits, List.filterMap_append, filterMap_visit?_closingEvents, List.append_nil,
      List.filterMap_map]
    show scans.tally.visits.filterMap some = _
    rw [List.filterMap_some, hvisits]
  · rw [houtcome]
    exact conclude_of_tally hfailed hsteady htally
  · rw [houtcome]
    exact hcount
  · rw [Codebase.sitesInTurns, hother, if_neg Bool.false_ne_true, inTurns_nil_right]

/-- A functional type with a usage in its package, one that was not resolved and requires public access, and
one that is handed out and not looked at. -/
theorem functional_type_in_turns :
    let used : UsageSite := Sample.siteIn "A"
    let adopted : UsageSite := { used with resolved := false }
    let c : Codebase := { Sample.codebase with
      usages := { ordinary := [("F", [used, used])], functional := [("F", [adopted])] } }
    let outcome := resolve c {} .none Sample.functionalType {}
    screen c.graph {} Sample.functionalType = .scan .pub none none ∧ outcome.resolution = .resolved .pub 2 ∧
      outcome.feed.handedOut = 3 ∧
      ∃ seen, seen.length = 2 ∧ StopsAt (fun seen => seen ≠ [] ∧
        Level.join .priv (seen.map (siteLevel c.graph {} Sample.functionalType none)) = .pub)
        [used, adopted, used] seen := by
  intro used adopted c outcome
  have hscreen : screen c.graph {} Sample.functionalType = .scan .pub none none := rfl
  have hlive : ({} : Feed).token.isCancelled = false := rfl
  have hresolution : outcome.resolution = .resolved .pub 2 := by decide +kernel
  have hhanded : outcome.feed.handedOut = 3 := by decide +kernel
  obtain ⟨seen, dropped, hstops, -, hresolved, -⟩ :=
    scans_are_one_in_turns c {} (x := .none) (fun _ => rfl) (fun _ => rfl) hscreen hlive
  refine ⟨hscreen, hresolution, hhanded, seen, ?_, hstops⟩
  have heq := hresolution.symm.trans hresolved
  split at heq
  · cases heq
  · exact (Resolution.resolved.inj heq).2.symm

end LeastAccess
