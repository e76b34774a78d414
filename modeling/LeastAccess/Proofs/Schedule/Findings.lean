import LeastAccess.Proofs.Resolver.Undisturbed
import LeastAccess.Proofs.Schedule.Invariant

/-!
# What schedules find

Whatever the order of the acts, a finding is a failure of the index, a cancellation, or the verdict of the
plain join. When the scans of every declaration take turns, and neither a failure nor a cancellation
comes in between, it is the undisturbed resolution.

* `explains_play` — for all schedules
* `resolution_of_play` — for schedules in which the scans of a declaration take turns
-/

namespace LeastAccess.Schedule

variable {e : Setting} {discipline : Scans → Scans.Move → Prop}

/-! ## All schedules -/

/-- A finding that the usages of its declaration explain, if it is neither a failure nor a
cancellation. -/
def Explains (c : Codebase) (p : Policy) (x : Disturbance) (cancelled : Bool) (f : Finding) : Prop :=
  f.resolution = .unresolvable .providerFailure ∧ (∃ r, x.fails r = true) ∨
    f.resolution = .cancelled ∧ cancelled = true ∨
    f.resolution.verdict = (plainResolution c p f.declaration).verdict

/-- Where something was cancelled the run was. -/
theorem Explains.isCancelled {c : Codebase} {p : Policy} {x : Disturbance} {cancelled : Bool}
    {f : Finding} (h : Explains c p x cancelled f) (hf : f.resolution = .cancelled) : cancelled = true := by
  rcases h with ⟨hr, _⟩ | ⟨_, hc⟩ | hv
  · rw [hf] at hr
    cases hr
  · exact hc
  · rw [hf] at hv
    exact absurd (Resolution.verdict_eq_cancelled_iff.mp hv.symm) (plainResolution_ne_cancelled c p _)

/-- A failure and a cancellation have no level, so every level that was found is that of the plain join. -/
theorem Explains.level?_eq {c : Codebase} {p : Policy} {x : Disturbance} {cancelled : Bool} {f : Finding}
    {level : Level} (h : Explains c p x cancelled f) (hl : f.resolution.level? = some level) :
    (plainResolution c p f.declaration).level? = some level := by
  rcases h with ⟨hr, _⟩ | ⟨hr, _⟩ | hv
  · rw [hr] at hl
    cases hl
  · rw [hr] at hl
    cases hl
  · rw [← Resolution.level?_verdict, ← hv, Resolution.level?_verdict, hl]

/-- A task that will come to an explained finding. -/
def IsExplained (e : Setting) (cancelled : Bool) : Task → Prop
  | .scanning d access container floor scans =>
    screen e.codebase.graph e.policy d = .scan access container floor ∧
      scans.CoverSites e.codebase e.policy d container floor cancelled ∧
      (scans.hasFailed = true → ∃ r, e.disturbance.fails r = true)
  | .concluded finding => Explains e.codebase e.policy e.disturbance cancelled finding

theorem isExplained_start (e : Setting) (d : Declaration) (feed : Feed) :
    IsExplained e feed.token.isCancelled (.start e.codebase e.policy d feed) := by
  rw [Task.start]
  split
  · next hc => exact Or.inr (Or.inl ⟨rfl, hc⟩)
  · cases hscreen : screen e.codebase.graph e.policy d with
    | settled resolution =>
      refine Or.inr (Or.inr ?_)
      rw [plainResolution, hscreen]
    | scan access container floor =>
      refine ⟨hscreen, coverSites_scansOf _ _ _ _ _ _ _, fun hf => ?_⟩
      rw [hasFailed_scansOf] at hf
      cases hf

theorem isExplained_move {d : Declaration} {access : Level} {container : Option Declaration}
    {floor : Option Level} {scans : Scans} (feed : Feed) (m : Scans.Move)
    (h : IsExplained e feed.token.isCancelled (.scanning d access container floor scans)) :
    let moved := Task.move e.codebase e.policy e.disturbance feed m
      (.scanning d access container floor scans)
    IsExplained e moved.2.token.isCancelled moved.1 := by
  obtain ⟨hscreen, hcov, hfail⟩ := h
  refine ⟨hscreen, ?_, fun hf => ?_⟩
  · exact Scans.Covers.move (q := e.codebase.inquiry e.policy.options e.disturbance d container)
      (s := { scans with feed }) hcov m
  · by_cases hx : ∀ r, e.disturbance.fails r = false
    · rw [Scans.hasFailed_move hx] at hf
      exact hfail hf
    · -- some request fails, and that is all there is to explain
      obtain ⟨r, hr⟩ := not_forall.mp hx
      exact ⟨r, by simpa using hr⟩

theorem isExplained_conclude {d : Declaration} {access : Level} {container : Option Declaration}
    {floor : Option Level} {scans : Scans} (feed : Feed)
    (hl : scans.isLive = false ∨ scans.hasFailed = true)
    (h : IsExplained e feed.token.isCancelled (.scanning d access container floor scans)) :
    Explains e.codebase e.policy e.disturbance feed.token.isCancelled
      ⟨d, conclude e.policy.options d access container floor.isSome { scans with feed }⟩ := by
  obtain ⟨hscreen, hcov, hfail⟩ := h
  let shared : Scans := { scans with feed }
  have hcov' : shared.CoverSites e.codebase e.policy d container floor feed.token.isCancelled := hcov
  rcases conclude_cases hscreen hcov' hl with ⟨hr, hf⟩ | hr | hr
  · exact Or.inl ⟨hr, hfail hf⟩
  · exact Or.inr (Or.inl hr)
  · exact Or.inr (Or.inr hr)

theorem keeps_isExplained (e : Setting) (discipline : Scans → Scans.Move → Prop) :
    Keeps e discipline (IsExplained e) where
  mono {cancelled cancelled' task} hc h := by
    cases task with
    | scanning => exact ⟨h.1, h.2.1.mono hc, h.2.2⟩
    | concluded => exact h.imp_right fun h => h.imp_left fun h => ⟨h.1, hc h.2⟩
  start d _ feed := isExplained_start e d feed
  move feed m _ h := isExplained_move feed m h
  conclude feed hl h := isExplained_conclude feed hl h

/-- **Every finding is a failure, a cancellation, or the verdict of the plain join.** -/
theorem explains_play {feed : Feed} {acts : List Act} (h : (start e feed).Follows e discipline acts)
    {f : Finding} (hf : f ∈ ((start e feed).play e acts).findings) :
    Explains e.codebase e.policy e.disturbance
      ((start e feed).play e acts).feed.token.isCancelled f :=
  ((keeps_isExplained e discipline).play (holds_start e _ feed) h).findings f hf

/-! ## Schedules in which scans take turns -/

/-- A task on the path that its scans take undisturbed. -/
def IsOnPath (e : Setting) (cancelled : Bool) : Task → Prop
  | .scanning d access container floor scans =>
    screen e.codebase.graph e.policy d = .scan access container floor ∧ scans.hasFailed = false ∧
      (cancelled = true ∨
        Scans.Precedes (e.codebase.inquiry e.policy.options e.disturbance d container)
          (e.codebase.scansOf d floor {}) scans)
  | .concluded finding =>
    finding.resolution = .cancelled ∧ cancelled = true ∨
      finding.resolution = undisturbedResolution e.codebase e.policy finding.declaration

theorem isOnPath_start (e : Setting) (d : Declaration) (feed : Feed) :
    IsOnPath e feed.token.isCancelled (.start e.codebase e.policy d feed) := by
  rw [Task.start]
  split
  · next hc => exact Or.inl ⟨rfl, hc⟩
  · cases hscreen : screen e.codebase.graph e.policy d with
    | settled resolution =>
      refine Or.inr ?_
      rw [undisturbedResolution, resolve, hscreen]
    | scan access container floor =>
      exact ⟨hscreen, hasFailed_scansOf _ _ _ _, Or.inr (.refl _ _)⟩

theorem isOnPath_move (serves : ∀ r, e.disturbance.fails r = false) {d : Declaration} {access : Level}
    {container : Option Declaration} {floor : Option Level} {scans : Scans} (feed : Feed)
    {m : Scans.Move} (hm : scans.InTurn m)
    (h : IsOnPath e feed.token.isCancelled (.scanning d access container floor scans)) :
    let moved := Task.move e.codebase e.policy e.disturbance feed m
      (.scanning d access container floor scans)
    IsOnPath e moved.2.token.isCancelled moved.1 := by
  obtain ⟨hscreen, hfail, hpath⟩ := h
  let q := e.codebase.inquiry e.policy.options e.disturbance d container
  refine ⟨hscreen, ?_, ?_⟩
  · rw [Scans.hasFailed_move serves]
    exact hfail
  · cases hc : (Scans.move q { scans with feed } m).feed.token.isCancelled with
    | true => exact Or.inl hc
    | false =>
      refine Or.inr ?_
      rcases hpath with hcancelled | hpath
      · have hlater := Scans.isCancelled_move (s := { scans with feed }) q m hcancelled
        rw [hc] at hlater
        cases hlater
      · exact hpath.trans (.of_move (s := { scans with feed }) serves hm hc)

theorem isOnPath_conclude {d : Declaration} {access : Level} {container : Option Declaration}
    {floor : Option Level} {scans : Scans} (feed : Feed)
    (hl : scans.isLive = false ∨ scans.hasFailed = true)
    (h : IsOnPath e feed.token.isCancelled (.scanning d access container floor scans)) :
    IsOnPath e feed.token.isCancelled (.concluded
      ⟨d, conclude e.policy.options d access container floor.isSome { scans with feed }⟩) := by
  obtain ⟨hscreen, hfail, hpath⟩ := h
  cases hc : feed.token.isCancelled with
  | true =>
    refine Or.inl ⟨?_, rfl⟩
    show (if scans.hasFailed = true then _ else if feed.token.isCancelled = true then _ else _) = _
    rw [hfail, hc]
    rfl
  | false =>
    rw [hc, or_iff_right Bool.false_ne_true] at hpath
    rw [hfail, or_iff_left Bool.false_ne_true] at hl
    let shared : Scans := { scans with feed }
    have hpath' : Scans.Precedes _ (e.codebase.scansOf d floor {}) shared := hpath
    exact Or.inr (conclude_of_precedes hscreen hpath' hl hc)

theorem keeps_isOnPath (serves : ∀ r, e.disturbance.fails r = false)
    (hturn : ∀ scans m, discipline scans m → scans.InTurn m) : Keeps e discipline (IsOnPath e) where
  mono {cancelled cancelled' task} hc h := by
    cases task with
    | scanning => exact ⟨h.1, h.2.1, h.2.2.imp_left hc⟩
    | concluded => exact h.imp_left fun h => ⟨h.1, hc h.2⟩
  start d _ feed := isOnPath_start e d feed
  move feed m hm h := isOnPath_move serves feed (hturn _ m hm) h
  conclude feed hl h := isOnPath_conclude feed hl h

/-- **Scans that take turns find the undisturbed resolution,** unless the run is cancelled. -/
theorem resolution_of_play (serves : ∀ r, e.disturbance.fails r = false)
    (hturn : ∀ scans m, discipline scans m → scans.InTurn m) {feed : Feed} {acts : List Act}
    (h : (start e feed).Follows e discipline acts) {f : Finding}
    (hf : f ∈ ((start e feed).play e acts).findings) :
    f.resolution = .cancelled ∧ ((start e feed).play e acts).feed.token.isCancelled = true ∨
      f.resolution = undisturbedResolution e.codebase e.policy f.declaration :=
  ((keeps_isOnPath serves hturn).play (holds_start e _ feed) h).findings f hf

end LeastAccess.Schedule
