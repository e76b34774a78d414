import LeastAccess.Proofs.Resolver.Screening
import LeastAccess.Proofs.Scan.Coverage
import LeastAccess.Proofs.Snapshot.Acceptance

/-!
# Resolving by a plain join

`plainResolution` looks at every usage of a declaration and joins what they require. The resolver gets by
with fewer: it stops at a descriptor, at the first usage that requires public access, and in one scan when
the other one has found such a usage. What it answers is the same up to the number of sites it looked at,
in whatever order its scans move.

* `verdict_conclude` — what scans conclude that have covered their lists
* `resolution_is_plain_join` — early exits and interleavings do not show
-/

namespace LeastAccess

/-! ## Verdicts -/

namespace Resolution

/-- A resolution without the number of sites that were looked at. -/
def verdict : Resolution → Resolution
  | .resolved level _ => .resolved level 0
  | r => r

@[simp] theorem level?_verdict (r : Resolution) : r.verdict.level? = r.level? := by cases r <;> rfl

@[simp] theorem status_verdict (r : Resolution) : r.verdict.status = r.status := by cases r <;> rfl

theorem verdict_eq_cancelled_iff {r : Resolution} : r.verdict = .cancelled ↔ r = .cancelled := by
  cases r <;> simp [verdict]

end Resolution

/-! ## The plain join -/

/-- All usage sites of a declaration: the ordinary ones, and those that adopt it if it is a functional
type. -/
def Codebase.sitesOf (c : Codebase) (d : Declaration) : List UsageSite :=
  c.usages.sites .ordinary d.id ++ if d.isType && d.isFunctional then c.usages.sites .functional d.id else []

/-- They are what the two scans are given. -/
theorem Codebase.sitesOf_eq (c : Codebase) (d : Declaration) :
    c.sitesOf d = c.usages.sites .ordinary d.id ++ (c.functionalSites? d).getD [] := by
  rw [sitesOf, getD_functionalSites?]

/-- The resolution of a declaration by all of its usages. One in a descriptor requires public access. A
declaration that is neither used nor an entry point keeps its level, and outside every type there is no
private access. -/
def plainResolution (c : Codebase) (p : Policy) (d : Declaration) : Resolution :=
  match screen c.graph p d with
  | .settled resolution => resolution
  | .scan access container floor =>
    let required (site : UsageSite) : Level :=
      if site.isDescriptor then .pub else requiredLevel c.graph p.options site d container
    let joined := Level.join (floor.getD .priv) ((c.sitesOf d).map required)
    if (c.sitesOf d).isEmpty && floor.isNone then .kept access .unused
    else if joined = .priv && container.isNone then
      .resolved (p.options.packageLocal d) (c.sitesOf d).length
    else .resolved joined (c.sitesOf d).length

section

variable {c : Codebase} {p : Policy} {d : Declaration} {access : Level} {container : Option Declaration}
  {floor : Option Level}

/-- A declaration that is used or starts from a floor is given the level that takes effect. -/
theorem plainResolution_of_used (hscreen : screen c.graph p d = .scan access container floor)
    (hused : (c.sitesOf d).isEmpty = false ∨ floor ≠ none) :
    plainResolution c p d = .resolved (effectiveLevel p.options d container (Level.join (floor.getD .priv)
      ((c.sitesOf d).map (siteLevel c.graph p.options d container)))) (c.sitesOf d).length := by
  let joined := Level.join (floor.getD .priv) ((c.sitesOf d).map (siteLevel c.graph p.options d container))
  have hresolved : ((c.sitesOf d).isEmpty && floor.isNone) = false := by
    rw [Bool.and_eq_false_iff, Option.isNone_eq_false_iff, Option.isSome_iff_ne_none]
    exact hused
  have hplain : plainResolution c p d =
      if joined = .priv && container.isNone then .resolved (p.options.packageLocal d) (c.sitesOf d).length
      else .resolved joined (c.sitesOf d).length := by
    rw [plainResolution, hscreen]
    simp only [hresolved, Bool.false_eq_true, if_false]
    rfl
  rw [hplain]
  show _ = Resolution.resolved (effectiveLevel p.options d container joined) _
  unfold effectiveLevel
  split
  · rfl
  · rfl

/-- Any other one that is scanned is left alone. -/
theorem plainResolution_of_unused (hscreen : screen c.graph p d = .scan access container floor)
    (hused : ¬((c.sitesOf d).isEmpty = false ∨ floor ≠ none)) :
    plainResolution c p d = .kept access .unused := by
  rw [not_or, Bool.not_eq_false, ne_eq, not_not] at hused
  have hkept : ((c.sitesOf d).isEmpty && floor.isNone) = true := by
    rw [hused.1, hused.2]
    rfl
  rw [plainResolution, hscreen]
  exact if_pos hkept

/-- A scan finds a level, or leaves an unused declaration alone. -/
theorem plainResolution_of_scan (h : screen c.graph p d = .scan access container floor) :
    plainResolution c p d = .kept access .unused ∨
      ∃ level sites, plainResolution c p d = .resolved level sites := by
  by_cases hused : (c.sitesOf d).isEmpty = false ∨ floor ≠ none
  · exact Or.inr ⟨_, _, plainResolution_of_used h hused⟩
  · exact Or.inl (plainResolution_of_unused h hused)

end

/-- The plain join is never cut short. -/
theorem plainResolution_ne_cancelled (c : Codebase) (p : Policy) (d : Declaration) :
    plainResolution c p d ≠ .cancelled := by
  cases hscreen : screen c.graph p d with
  | settled resolution =>
    rw [plainResolution, hscreen]
    rintro rfl
    exact screen_ne_cancelled c.graph p d hscreen
  | scan access container floor =>
    rcases plainResolution_of_scan hscreen with h | ⟨level, sites, h⟩
    · simp [h]
    · simp [h]

/-- A declaration with a level has a current one. -/
theorem exists_access?_of_plainResolution {c : Codebase} {p : Policy} {d : Declaration} {level : Level}
    (hl : (plainResolution c p d).level? = some level) : ∃ current, d.access? = some current := by
  rw [plainResolution] at hl
  cases hscreen : screen c.graph p d with
  | settled resolution =>
    rw [hscreen] at hl
    exact ⟨level, level?_of_screen hscreen hl⟩
  | scan access container floor => exact ⟨access, (of_screen_eq_scan hscreen).1⟩

section

variable {c : Codebase} {p : Policy} {d : Declaration} {access : Level} {container : Option Declaration}
  {floor : Option Level} {scans : Scans}

/-- Both scans of a declaration have covered beginnings of their lists. -/
def Scans.CoverSites (c : Codebase) (p : Policy) (d : Declaration) (container : Option Declaration)
    (floor : Option Level) (cancelled : Bool) (scans : Scans) : Prop :=
  scans.Covers (siteLevel c.graph p.options d container) (floor.getD .priv)
    (c.usages.sites .ordinary d.id) ((c.functionalSites? d).getD []) cancelled

theorem coverSites_scansOf (c : Codebase) (p : Policy) (d : Declaration)
    (container : Option Declaration) (floor : Option Level) (feed : Feed) (cancelled : Bool) :
    (c.scansOf d floor feed).CoverSites c p d container floor cancelled :=
  Scans.covers_start _ _ _ _ _ _

theorem hasFailed_scansOf (c : Codebase) (d : Declaration) (floor : Option Level) (feed : Feed) :
    (c.scansOf d floor feed).hasFailed = false := by
  unfold Codebase.scansOf Scans.start Scans.hasFailed
  cases c.functionalSites? d <;> rfl

/-- Scans that have stopped without a failure or a cancellation lead to the verdict of the plain join. -/
theorem verdict_conclude (hscreen : screen c.graph p d = .scan access container floor)
    (h : scans.CoverSites c p d container floor false) (hl : scans.isLive = false)
    (hf : scans.hasFailed = false) (hc : scans.feed.token.isCancelled = false) :
    (conclude p.options d access container floor.isSome scans).verdict =
      (plainResolution c p d).verdict := by
  have hlevel : scans.tally.accumulator.level = Level.join (floor.getD .priv) ((c.sitesOf d).map
      fun site => if site.isDescriptor then .pub else requiredLevel c.graph p.options site d container) := by
    rw [Codebase.sitesOf_eq]
    exact h.level_eq hl hf
  have hfound : scans.tally.accumulator.foundUsage = !(c.sitesOf d).isEmpty := by
    rw [Codebase.sitesOf_eq]
    exact h.foundUsage_eq hl hf
  rw [plainResolution, hscreen, conclude]
  simp only [hf, hc, hlevel, hfound, effectiveLevel, Bool.not_not, Option.not_isSome,
    Bool.false_eq_true, if_false]
  split
  · rfl
  · split <;> rfl

/-- What is concluded is a failure, a cancellation, or the verdict of the plain join. -/
theorem conclude_cases (hscreen : screen c.graph p d = .scan access container floor)
    (h : scans.CoverSites c p d container floor scans.feed.token.isCancelled)
    (hl : scans.isLive = false ∨ scans.hasFailed = true) :
    let resolution := conclude p.options d access container floor.isSome scans
    resolution = .unresolvable .providerFailure ∧ scans.hasFailed = true ∨
      resolution = .cancelled ∧ scans.feed.token.isCancelled = true ∨
      resolution.verdict = (plainResolution c p d).verdict := by
  intro resolution
  cases hf : scans.hasFailed with
  | true => exact Or.inl ⟨by simp [resolution, conclude, hf], rfl⟩
  | false =>
    cases hc : scans.feed.token.isCancelled with
    | true => exact Or.inr (Or.inl ⟨by simp [resolution, conclude, hf, hc], rfl⟩)
    | false =>
      rw [hf, or_iff_left Bool.false_ne_true] at hl
      rw [hc] at h
      exact Or.inr (Or.inr (verdict_conclude hscreen h hl hf hc))

/-- Scans that have moved in any order and stopped lead to the verdict of the plain join. -/
theorem verdict_of_play {x : Disturbance} (serves : ∀ r, x.fails r = false)
    (hscreen : screen c.graph p d = .scan access container floor) (feed : Feed)
    (moves : List Scans.Move) :
    let scans := (c.scansOf d floor feed).play (c.inquiry p.options x d container) moves
    scans.isLive = false → scans.feed.token.isCancelled = false →
      (conclude p.options d access container floor.isSome scans).verdict =
        (plainResolution c p d).verdict := by
  intro scans hl hc
  have hcov : scans.CoverSites c p d container floor scans.feed.token.isCancelled :=
    Scans.Covers.play (q := c.inquiry p.options x d container)
      (coverSites_scansOf c p d container floor feed _) moves
  have hf : scans.hasFailed = false := by
    rw [Scans.hasFailed_play serves, hasFailed_scansOf]
  rw [hc] at hcov
  exact verdict_conclude hscreen hcov hl hf hc

/-- So do scans that take turns. -/
theorem verdict_resolve {x : Disturbance} (serves : ∀ r, x.fails r = false) (c : Codebase) (p : Policy)
    (d : Declaration) (feed : Feed) (hc : (resolve c p x d feed).feed.token.isCancelled = false) :
    (resolve c p x d feed).resolution.verdict = (plainResolution c p d).verdict := by
  rw [resolve] at hc ⊢
  cases hscreen : screen c.graph p d with
  | settled resolution => rw [plainResolution, hscreen]
  | scan access container floor =>
    rw [hscreen] at hc
    obtain ⟨moves, hplay⟩ := (c.scansOf d floor feed).exists_play_eq_run
      (c.inquiry p.options x d container)
    have hl := Scans.isLive_run (c.inquiry p.options x d container) (c.scansOf d floor feed)
    simp only [← hplay] at hc hl ⊢
    exact verdict_of_play serves hscreen feed moves hl hc

end

/-- **Early exits and interleavings do not show.** Whatever the order in which the two scans of a
declaration move, and in particular when they take turns, the resolver answers what the plain join
answers. -/
theorem resolution_is_plain_join (c : Codebase) (p : Policy) {x : Disturbance}
    (serves : ∀ r, x.fails r = false) (d : Declaration) (feed : Feed) :
    (∀ access container floor moves, screen c.graph p d = .scan access container floor →
      let scans := (c.scansOf d floor feed).play (c.inquiry p.options x d container) moves
      scans.isLive = false → scans.feed.token.isCancelled = false →
        (conclude p.options d access container floor.isSome scans).verdict =
          (plainResolution c p d).verdict) ∧
      ((resolve c p x d feed).feed.token.isCancelled = false →
        (resolve c p x d feed).resolution.verdict = (plainResolution c p d).verdict) := by
  constructor
  · intro access container floor moves hscreen
    exact verdict_of_play serves hscreen feed moves
  · exact verdict_resolve serves c p d feed

/-- A functional type whose lambdas are looked at first, and then its ordinary usages. -/
theorem functional_type_is_plain_join :
    let sample := Sample.codebase
    let scans := (sample.scansOf Sample.functionalType none {}).play
      (sample.inquiry {} .none Sample.functionalType none)
      [.request .functional, .settle .functional, .request .functional, .request .ordinary,
        .settle .ordinary, .request .ordinary]
    screen sample.graph {} Sample.functionalType = .scan .pub none none ∧ scans.isLive = false ∧
      scans.feed.token.isCancelled = false ∧
      (conclude {} Sample.functionalType .pub none false scans).verdict =
        (plainResolution sample {} Sample.functionalType).verdict ∧
      (resolve sample {} .none Sample.functionalType {}).resolution.verdict =
        (plainResolution sample {} Sample.functionalType).verdict := by
  obtain ⟨hplay, hresolve⟩ := resolution_is_plain_join Sample.codebase {} (x := .none) (fun _ => rfl)
    Sample.functionalType {}
  refine ⟨rfl, rfl, rfl, hplay .pub none none _ rfl rfl rfl, hresolve ?_⟩
  decide +kernel

end LeastAccess
