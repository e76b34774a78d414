import LeastAccess.Proofs.Resolver.PlainJoin
import LeastAccess.Proofs.Scan.Turns

/-!
# Resolving undisturbed

`undisturbedResolution` is the resolution of a declaration when nothing happens to the run. Scans that
take turns answer just that, with the number of sites they looked at, unless the index fails or the run
is cancelled before they have stopped.

* `verdict_undisturbedResolution` — it has the verdict of the plain join
* `conclude_of_precedes` — scans at the end of their path conclude the undisturbed resolution
* `resolution_resolve` — and so does the resolver, unless it is cancelled
-/

namespace LeastAccess

/-- The resolution of a declaration when nothing happens to the run. -/
def undisturbedResolution (c : Codebase) (p : Policy) (d : Declaration) : Resolution :=
  (resolve c p .none d {}).resolution

/-! ## Without cancellations -/

/-- Without cancellations the token stays as it is. -/
theorem token_resolve {x : Disturbance} (hx : ∀ r, x.cancels r = false) (c : Codebase) (p : Policy)
    (d : Declaration) (feed : Feed) : (resolve c p x d feed).feed.token = feed.token := by
  rw [resolve]
  cases screen c.graph p d with
  | settled resolution => rfl
  | scan access container floor => exact Scans.token_run hx _

/-- The undisturbed resolution has the verdict of the plain join. -/
theorem verdict_undisturbedResolution (c : Codebase) (p : Policy) (d : Declaration) :
    (undisturbedResolution c p d).verdict = (plainResolution c p d).verdict := by
  refine verdict_resolve (fun _ => rfl) c p d {} ?_
  rw [token_resolve fun _ => rfl]
  rfl

/-! ## With a live token -/

/-- A conclusion from a live token does not depend on what the scans share with the run. -/
theorem conclude_forgetFeed {o : Options} {d : Declaration} {access : Level}
    {container : Option Declaration} {isEntryPoint : Bool} {scans : Scans}
    (hc : scans.feed.token.isCancelled = false) :
    conclude o d access container isEntryPoint scans.forgetFeed =
      conclude o d access container isEntryPoint scans := by
  unfold conclude
  rw [hc]
  rfl

section

variable {c : Codebase} {p : Policy} {x : Disturbance} {d : Declaration} {access : Level}
  {container : Option Declaration} {floor : Option Level}

theorem isBetweenRounds_scansOf (c : Codebase) (d : Declaration) (floor : Option Level) (feed : Feed) :
    (c.scansOf d floor feed).IsBetweenRounds :=
  Scans.isBetweenRounds_start _ _ _ _

/-- While the index serves, the scans of a declaration do not fail. -/
theorem hasFailed_run_scansOf (serves : ∀ r, x.fails r = false) (feed : Feed) :
    ((c.scansOf d floor feed).run (c.inquiry p.options x d container)).hasFailed = false := by
  obtain ⟨moves, hplay⟩ := (c.scansOf d floor feed).exists_play_eq_run (c.inquiry p.options x d container)
  rw [← hplay, Scans.hasFailed_play serves, hasFailed_scansOf]

/-- Scans at the end of their path conclude the undisturbed resolution. -/
theorem conclude_of_precedes (hscreen : screen c.graph p d = .scan access container floor) {feed : Feed}
    {scans : Scans}
    (hpath : Scans.Precedes (c.inquiry p.options x d container) (c.scansOf d floor feed) scans)
    (hl : scans.isLive = false) (hc : scans.feed.token.isCancelled = false) :
    conclude p.options d access container floor.isSome scans = undisturbedResolution c p d := by
  let q := c.inquiry p.options .none d container
  let run := (c.scansOf d floor {}).run q
  have hlive : run.feed.token.isCancelled = false := by
    rw [Scans.token_run fun _ => rfl]
    rfl
  have hrun : Scans.Precedes q (c.scansOf d floor {}) run :=
    .run (fun _ => rfl) (isBetweenRounds_scansOf c d floor {}) hlive
  -- the scans and the undisturbed run are on one path, and both have come to its end
  have hend : scans.forgetFeed = run.forgetFeed :=
    Scans.Precedes.eq_of_not_isLive hpath hrun hl (Scans.isLive_run _ _)
  rw [← conclude_forgetFeed hc, hend, conclude_forgetFeed hlive, undisturbedResolution, resolve, hscreen]

/-- The resolver answers the undisturbed resolution as long as the index serves it, unless it is cancelled
before the scans have stopped. -/
theorem resolution_resolve (serves : ∀ r, x.fails r = false) (feed : Feed) :
    (resolve c p x d feed).resolution = .cancelled ∧
        (resolve c p x d feed).feed.token.isCancelled = true ∨
      (resolve c p x d feed).resolution = undisturbedResolution c p d := by
  rw [resolve]
  cases hscreen : screen c.graph p d with
  | settled resolution =>
    refine Or.inr ?_
    rw [undisturbedResolution, resolve, hscreen]
  | scan access container floor =>
    let q := c.inquiry p.options x d container
    let scans := (c.scansOf d floor feed).run q
    show conclude p.options d access container floor.isSome scans = _ ∧ scans.feed.token.isCancelled = true ∨
      conclude p.options d access container floor.isSome scans = _
    cases hc : scans.feed.token.isCancelled with
    | true =>
      have hf : scans.hasFailed = false := hasFailed_run_scansOf serves feed
      exact Or.inl ⟨by simp [conclude, hf, hc], rfl⟩
    | false =>
      exact Or.inr (conclude_of_precedes hscreen
        (.run serves (isBetweenRounds_scansOf c d floor feed) hc) (Scans.isLive_run _ _) hc)

end

end LeastAccess
