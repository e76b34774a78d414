import LeastAccess.Proofs.Resolver.Origin
import LeastAccess.Proofs.Resolver.Undisturbed

/-!
# More usages never tighten

A declaration that is used, or that is an entry point, is given a level by the join of all its usages. With
further usages the join is at least as broad, but outside every type private access gives way to another
level after the join, and only where the join is private. That level cannot be above the join with a further
usage: without a declaring type every usage requires as much.

An entry point that is not used is one case of this. A declaration that is neither used nor an entry point
keeps its level as long as it has no usage, so for it a first usage may well tighten.

* `packageLocal_le_siteLevel` — what a usage requires at least where there is no declaring type
* `effectiveLevel_mono` — the level that takes effect gets broader with the join
* `more_usages_never_tighten` — the answer with further usages has the same status and no narrower level
-/

namespace LeastAccess

/-! ## Broader answers -/

/-- An answer of the same status, with a level at least as broad where there is one. -/
structure Resolution.Widens (r r' : Resolution) : Prop where
  status : r'.status = r.status
  level : ∀ level, r.level? = some level → ∃ level', r'.level? = some level' ∧ level ≤ level'

namespace Resolution

variable {r r' s s' : Resolution}

theorem Widens.refl (r : Resolution) : r.Widens r :=
  ⟨rfl, fun level hl => ⟨level, hl, Level.le_refl level⟩⟩

theorem Widens.of_le {level level' : Level} (hle : level ≤ level') (sites sites' : Nat) :
    (Resolution.resolved level sites).Widens (.resolved level' sites') := by
  refine ⟨rfl, fun found hfound => ?_⟩
  cases hfound
  exact ⟨level', rfl, hle⟩

/-- The number of sites that were looked at does not count. -/
theorem Widens.of_verdict (h : s.Widens s') (hr : r.verdict = s.verdict) (hr' : r'.verdict = s'.verdict) :
    r.Widens r' := by
  constructor
  · rw [← status_verdict r', hr', status_verdict, h.status, ← status_verdict s, ← hr, status_verdict]
  · intro level hl
    rw [← level?_verdict r, hr, level?_verdict] at hl
    rw [← level?_verdict r', hr', level?_verdict]
    exact h.level level hl

end Resolution

/-! ## What takes effect -/

section

variable {g : Graph} {o : Options} {d : Declaration} {container : Option Declaration}

/-- Without a declaring type a usage requires package access or, where that may not be suggested, public
access. -/
theorem packageLocal_le_siteLevel (g : Graph) (o : Options) (d : Declaration) (site : UsageSite) :
    o.packageLocal d ≤ siteLevel g o d none site := by
  unfold siteLevel
  split
  · exact Level.le_pub _
  · unfold requiredLevel
    split
    · exact Level.le_pub _
    · show o.packageLocal d ≤ outsideLevel g o site d none
      unfold outsideLevel
      split
      · exact Level.le_refl _
      · split
        · exact Level.le_pub _
        · exact Level.le_pub _

/-- What takes effect gets broader with the join, if the broader join is no narrower than what takes the
place of private access outside every type. -/
theorem effectiveLevel_mono {joined joined' : Level} (hle : joined ≤ joined')
    (houtside : container = none → joined' = joined ∨ o.packageLocal d ≤ joined') :
    effectiveLevel o d container joined ≤ effectiveLevel o d container joined' := by
  by_cases hpriv : (joined = .priv && container.isNone) = true
  · have hnone : container = none := by
      rw [Bool.and_eq_true, Option.isNone_iff_eq_none] at hpriv
      exact hpriv.2
    rcases houtside hnone with heq | hpkg
    · rw [heq]
      exact Level.le_refl _
    · have heffective : effectiveLevel o d container joined = o.packageLocal d := if_pos hpriv
      rw [heffective]
      exact Level.le_trans hpkg le_effectiveLevel
  · have heffective : effectiveLevel o d container joined = joined := if_neg hpriv
    rw [heffective]
    exact Level.le_trans hle le_effectiveLevel

/-- With further usages, what takes effect is at least as broad. -/
theorem effectiveLevel_join_mono {sites sites' : List UsageSite} (hsub : sites ⊆ sites') (seed : Level) :
    let required := siteLevel g o d container
    effectiveLevel o d container (Level.join seed (sites.map required)) ≤
      effectiveLevel o d container (Level.join seed (sites'.map required)) := by
  intro required
  refine effectiveLevel_mono ?_ ?_
  · refine Level.join_le_iff.mpr ⟨Level.seed_le_join _ _, fun level hlevel => ?_⟩
    exact Level.le_join (List.map_subset required hsub hlevel)
  · rintro rfl
    cases sites' with
    | nil =>
      left
      rw [List.subset_nil.mp hsub]
    | cons site rest =>
      right
      have hjoin : required site ≤ Level.join seed ((site :: rest).map required) := Level.le_join (by simp)
      exact Level.le_trans (packageLocal_le_siteLevel g o d site) hjoin

end

/-! ## The plain join -/

/-- The same declarations, one of which has all its usage sites and maybe others, wherever these stand. -/
structure Codebase.UsesMore (c c' : Codebase) (d : Declaration) : Prop where
  graph : c'.graph = c.graph
  sites : ∀ part, c.usages.sites part d.id ⊆ c'.usages.sites part d.id

section

variable {c c' : Codebase} {p : Policy} {d : Declaration} {r r' : Resolution}

theorem Codebase.UsesMore.sitesOf (h : c.UsesMore c' d) : c.sitesOf d ⊆ c'.sitesOf d := by
  have hfunctional : (if d.isType && d.isFunctional then c.usages.sites .functional d.id else []) ⊆
      if d.isType && d.isFunctional then c'.usages.sites .functional d.id else [] := by
    split
    · exact h.sites .functional
    · exact List.Subset.refl _
  unfold Codebase.sitesOf
  exact List.append_subset.mpr ⟨fun _ hs => List.mem_append_left _ (h.sites .ordinary hs),
    fun _ hs => List.mem_append_right _ (hfunctional hs)⟩

/-- An entry point is scanned from its floor. -/
theorem floor_ne_none_of_covers {g : Graph} {access : Level} {container : Option Declaration}
    {floor : Option Level} (hscreen : screen g p d = .scan access container floor)
    (hcovers : p.entryPoint.covers g d = true) : floor ≠ none := by
  rintro rfl
  exact Bool.eq_false_iff.mp (startsFrom_of_screen hscreen) hcovers

/-- Further usages of a declaration that is used or is an entry point do not tighten the plain join. -/
theorem plainResolution_widens (hmore : c.UsesMore c' d)
    (hused : c.sitesOf d ≠ [] ∨ p.entryPoint.covers c.graph d = true) :
    (plainResolution c p d).Widens (plainResolution c' p d) := by
  cases hscreen : screen c.graph p d with
  | settled resolution =>
    have hsame : plainResolution c' p d = plainResolution c p d := by
      rw [plainResolution, plainResolution, hmore.graph, hscreen]
    rw [hsame]
    exact .refl _
  | scan access container floor =>
    have hscreen' : screen c'.graph p d = .scan access container floor := by rw [hmore.graph, hscreen]
    have hfloor := floor_ne_none_of_covers hscreen
    have hused' : c'.sitesOf d ≠ [] ∨ p.entryPoint.covers c.graph d = true :=
      hused.imp_left fun hne hnil => hne (List.subset_nil.mp (hnil ▸ hmore.sitesOf))
    rw [plainResolution_of_used hscreen (hused.imp List.isEmpty_eq_false_iff.mpr hfloor),
      plainResolution_of_used hscreen' (hused'.imp List.isEmpty_eq_false_iff.mpr hfloor), hmore.graph]
    exact .of_le (effectiveLevel_join_mono hmore.sitesOf _) _ _

/-! ## Answers -/

/-- What the resolver may answer while the index serves it and its run goes on: what screening settles, or
what is concluded from scans that have moved, in any order, until both had stopped. -/
inductive Policy.Answers (p : Policy) (c : Codebase) (d : Declaration) : Resolution → Prop
  | settled {resolution : Resolution} (hscreen : screen c.graph p d = .settled resolution) :
      p.Answers c d resolution
  | concluded {access : Level} {container : Option Declaration} {floor : Option Level} {x : Disturbance}
      {feed : Feed} {moves : List Scans.Move} {scans : Scans}
      (hscreen : screen c.graph p d = .scan access container floor) (serves : ∀ r, x.fails r = false)
      (hplay : (c.scansOf d floor feed).play (c.inquiry p.options x d container) moves = scans)
      (stopped : scans.isLive = false) (live : scans.feed.token.isCancelled = false) :
      p.Answers c d (conclude p.options d access container floor.isSome scans)

theorem Policy.Answers.verdict_eq (h : p.Answers c d r) : r.verdict = (plainResolution c p d).verdict := by
  cases h with
  | settled hscreen => rw [plainResolution, hscreen]
  | @concluded _ _ _ _ feed moves _ hscreen serves hplay stopped live =>
    subst hplay
    exact verdict_of_play serves hscreen feed moves stopped live

/-- Scans that take turns are one case. -/
theorem answers_resolve {x : Disturbance} (serves : ∀ r, x.fails r = false) {feed : Feed}
    (hc : (resolve c p x d feed).feed.token.isCancelled = false) :
    p.Answers c d (resolve c p x d feed).resolution := by
  rw [resolve] at hc ⊢
  cases hscreen : screen c.graph p d with
  | settled resolution => exact .settled hscreen
  | scan access container floor =>
    rw [hscreen] at hc
    obtain ⟨moves, hplay⟩ := (c.scansOf d floor feed).exists_play_eq_run
      (c.inquiry p.options x d container)
    exact .concluded hscreen serves hplay (Scans.isLive_run _ _) hc

/-- A resolver that is neither failed by the index nor cancelled always has an answer. -/
theorem answers_of_undisturbed {x : Disturbance} (serves : ∀ r, x.fails r = false)
    (continues : ∀ r, x.cancels r = false) {feed : Feed} (live : feed.token.isCancelled = false) :
    p.Answers c d (resolve c p x d feed).resolution :=
  answers_resolve serves (by rw [token_resolve continues, live])

end

/-- **Adding usages never tightens.** If a declaration is used or is an entry point, then with any further
usages the resolver's answer has the same status and no narrower level, in whatever order the scans move. A
resolver that is neither failed by the index nor cancelled always has such an answer. -/
theorem more_usages_never_tighten {c c' : Codebase} (p : Policy) {d : Declaration} (hmore : c.UsesMore c' d)
    (hused : c.sitesOf d ≠ [] ∨ p.entryPoint.covers c.graph d = true) :
    (∀ r r' : Resolution, p.Answers c d r → p.Answers c' d r' → r.Widens r') ∧
      ∀ (a : Codebase) (x : Disturbance) (feed : Feed), (∀ r, x.fails r = false) →
        (∀ r, x.cancels r = false) → feed.token.isCancelled = false →
          p.Answers a d (resolve a p x d feed).resolution := by
  constructor
  · intro r r' hr hr'
    exact (plainResolution_widens hmore hused).of_verdict hr.verdict_eq hr'.verdict_eq
  · intro a x feed hf hx hlive
    have hc : (resolve a p x d feed).feed.token.isCancelled = false := by rw [token_resolve hx, hlive]
    exact answers_resolve hf hc

/-- A type outside every other one that nothing uses but that is an entry point with private access for a
floor, and the same type with usages in its package. -/
theorem unused_entry_point_is_not_tightened :
    let p : Policy := { entryPoints := [.fixed true (some .priv)] }
    let d := Sample.functionalType
    let unused : Codebase := { Sample.codebase with usages := {} }
    (resolve unused p .none d {}).resolution = .resolved .pkg 0 ∧
      (resolve Sample.codebase p .none d {}).resolution = .resolved .pkg 2 ∧
      (resolve unused p .none d {}).resolution.Widens (resolve Sample.codebase p .none d {}).resolution := by
  intro p d unused
  have hnone (part : UsageSection) : unused.usages.sites part d.id = [] := by
    cases part with
    | ordinary => rfl
    | functional => rfl
  have hmore : unused.UsesMore Sample.codebase d :=
    ⟨rfl, fun part => by rw [hnone]; exact List.nil_subset _⟩
  obtain ⟨hwidens, hanswers⟩ := more_usages_never_tighten p hmore (Or.inr rfl)
  have hunused := hanswers unused .none {} (fun _ => rfl) (fun _ => rfl) rfl
  have hused := hanswers Sample.codebase .none {} (fun _ => rfl) (fun _ => rfl) rfl
  exact ⟨by decide +kernel, by decide +kernel, hwidens _ _ hunused hused⟩

end LeastAccess
