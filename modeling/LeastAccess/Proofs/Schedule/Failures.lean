import LeastAccess.Proofs.Resolver.Failing
import LeastAccess.Proofs.Schedule.Invariant

/-!
# Schedules with an index that fails

Workers share nothing that a failure touches. So in any order of the acts a failure stays with its
declaration, as long as the two scans of a functional type take turns: a task whose scan is on its own keeps
to what `Scans.LooksAlone` says of its list, and one with two scans keeps to the path of an undisturbed run.

* `endures_play` — what is found by any schedule that is not cancelled
-/

namespace LeastAccess

/-- A scan on its own that has failed has stopped. -/
theorem Scans.LooksAlone.isLive_of_hasFailed {q : Inquiry} {base : Tally} {sites seen : List UsageSite}
    {after : Option Nat} {s : Scans} (h : s.LooksAlone q base sites after seen .ordinary)
    (hf : s.hasFailed = true) : s.isLive = false := by
  obtain ⟨ordinary, functional, tally, feed⟩ := s
  obtain ⟨-, ⟨turns, rfl⟩, -⟩ := h
  cases ordinary with
  | asking => cases hf
  | holding => cases hf
  | finished => cases hf
  | failed => rfl

namespace Schedule

variable {c : Codebase} {p : Policy} {after : String → Option Nat} {workers : Nat} {d : Declaration}
  {access : Level} {container : Option Declaration} {floor : Option Level} {scans : Scans}

/-- The scans of a declaration keep to what is known of a scan on its own, or to the undisturbed path. -/
inductive KeepsTo (c : Codebase) (p : Policy) (after : String → Option Nat) (d : Declaration)
    (container : Option Declaration) (floor : Option Level) (scans : Scans) : Prop
  | alone {seen : List UsageSite} (single : c.functionalSites? d = none)
      (h : scans.LooksAlone (c.inquiry p.options (.failing after) d container) (.start floor)
        (c.usages.sites .ordinary d.id) (after d.id) seen .ordinary)
  | undisturbed (served : after d.id = none) (open_ : scans.hasFailed = false)
      (h : Scans.Precedes (c.inquiry p.options .none d container) (c.scansOf d floor {}) scans)

/-- What the scans share with the run does not matter. -/
theorem KeepsTo.share (h : KeepsTo c p after d container floor scans) (feed : Feed) :
    KeepsTo c p after d container floor { scans with feed } := by
  cases h with
  | alone single h => exact .alone single h
  | undisturbed served hopen h => exact .undisturbed served hopen h

/-- A task that comes to an endured failure or to the undisturbed resolution, unless the run is cancelled. -/
def IsEndured (c : Codebase) (p : Policy) (after : String → Option Nat) (cancelled : Bool) : Task → Prop
  | .scanning d access container floor scans =>
    screen c.graph p d = .scan access container floor ∧
      (cancelled = true ∨ KeepsTo c p after d container floor scans)
  | .concluded finding => cancelled = true ∨ p.Endures c after finding.declaration finding.resolution

theorem isEndured_start (spared : c.functionalSites? d ≠ none → after d.id = none) (feed : Feed) :
    IsEndured c p after feed.token.isCancelled (.start c p d feed) := by
  unfold Task.start
  split
  · next hc => exact Or.inl hc
  · cases hscreen : screen c.graph p d with
    | settled resolution =>
      refine Or.inr (Or.inr ⟨not_failsAt_of_settled hscreen, ?_⟩)
      unfold undisturbedResolution resolve
      rw [hscreen]
    | scan access container floor =>
      refine ⟨hscreen, Or.inr ?_⟩
      by_cases hsingle : c.functionalSites? d = none
      · exact .alone hsingle (looksAlone_scansOf hsingle floor feed _ _)
      · exact .undisturbed (spared hsingle) (hasFailed_scansOf _ _ _ _) (.refl _ _)

theorem keepsTo_move {m : Scans.Move} (hm : scans.InTurn m) (hlive : scans.feed.token.isCancelled = false)
    (h : KeepsTo c p after d container floor scans) :
    KeepsTo c p after d container floor
      (scans.move (c.inquiry p.options (.failing after) d container) m) := by
  have hq := failsAfter_failing c p.options after d container
  cases h with
  | alone single h =>
    obtain ⟨seen, h', -⟩ := h.move hq hlive m
    exact .alone single h'
  | undisturbed served hopen h =>
    rw [served] at hq
    rw [Scans.move_eq_undisturbed hq]
    refine .undisturbed served ?_ ?_
    · rw [Scans.hasFailed_move fun _ => rfl]
      exact hopen
    · refine h.trans (.of_move (fun _ => rfl) hm ?_)
      rw [Scans.token_move fun _ => rfl]
      exact hlive

theorem endures_of_keepsTo (hscreen : screen c.graph p d = .scan access container floor)
    (hlive : scans.feed.token.isCancelled = false) (hl : scans.isLive = false ∨ scans.hasFailed = true)
    (h : KeepsTo c p after d container floor scans) :
    p.Endures c after d (conclude p.options d access container floor.isSome scans) := by
  cases h with
  | alone single h =>
    have hstopped : scans.isLive = false := hl.elim id h.isLive_of_hasFailed
    exact endures_of_looksAlone hscreen single h hstopped hlive
  | undisturbed served hopen h =>
    have hstopped : scans.isLive = false := hl.resolve_right (Bool.eq_false_iff.mp hopen)
    exact Or.inr ⟨not_failsAt_of_eq_none served, conclude_of_precedes hscreen h hstopped hlive⟩

theorem keeps_isEndured {discipline : Scans → Scans.Move → Prop}
    (spared : ∀ d ∈ c.graph.declarations, c.functionalSites? d ≠ none → after d.id = none)
    (hturn : ∀ scans m, discipline scans m → scans.InTurn m) :
    Keeps ⟨c, p, .failing after, workers⟩ discipline (IsEndured c p after) where
  mono {cancelled cancelled' task} hc h := by
    cases task with
    | scanning => exact ⟨h.1, h.2.imp_left hc⟩
    | concluded => exact h.imp_left hc
  start d hd feed := isEndured_start (spared d hd) feed
  move {d access container floor scans} feed m hm h := by
    obtain ⟨hscreen, h⟩ := h
    let shared : Scans := { scans with feed }
    have htoken : (shared.move (c.inquiry p.options (.failing after) d container) m).feed.token = feed.token :=
      Scans.token_move (fun _ => rfl) shared m
    refine ⟨hscreen, ?_⟩
    show (shared.move _ m).feed.token.isCancelled = true ∨ _
    rw [htoken]
    cases hc : feed.token.isCancelled with
    | true => exact Or.inl rfl
    | false =>
      rw [hc, or_iff_right Bool.false_ne_true] at h
      have hm' : shared.InTurn m := hturn scans m hm
      exact Or.inr (keepsTo_move hm' hc (h.share feed))
  conclude {d access container floor scans} feed hl h := by
    obtain ⟨hscreen, h⟩ := h
    cases hc : feed.token.isCancelled with
    | true => exact Or.inl rfl
    | false =>
      rw [hc, or_iff_right Bool.false_ne_true] at h
      exact Or.inr (endures_of_keepsTo hscreen hc hl (h.share feed))

/-- **In a schedule that is not cancelled failures stay where they are.** -/
theorem endures_play {discipline : Scans → Scans.Move → Prop}
    (spared : ∀ d ∈ c.graph.declarations, c.functionalSites? d ≠ none → after d.id = none)
    (hturn : ∀ scans m, discipline scans m → scans.InTurn m) {feed : Feed} {acts : List Act}
    (follows : (start ⟨c, p, .failing after, workers⟩ feed).Follows ⟨c, p, .failing after, workers⟩ discipline
      acts)
    (hlive : ((start ⟨c, p, .failing after, workers⟩ feed).play ⟨c, p, .failing after, workers⟩
      acts).feed.token.isCancelled = false) {f : Finding}
    (hf : f ∈ ((start ⟨c, p, .failing after, workers⟩ feed).play ⟨c, p, .failing after, workers⟩
      acts).findings) : p.Endures c after f.declaration f.resolution := by
  have h := ((keeps_isEndured spared hturn).play (holds_start _ _ feed) follows).findings f hf
  exact h.resolve_left (Bool.eq_false_iff.mp hlive)

end Schedule

end LeastAccess
