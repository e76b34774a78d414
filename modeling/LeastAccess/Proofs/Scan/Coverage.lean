import LeastAccess.Schedule
import Mathlib.Data.List.Basic

/-!
# What scans have looked at

Two scans share one accumulator, and either may stop before its list is at an end: at a cancellation, or
because the accumulator is saturated. `Scans.Covers` says what holds at any time and in any order of the
moves. Each scan has looked at a beginning of its list, the accumulator holds the join of what was looked
at, and a scan that stopped early has one of the two reasons for it.

* `Scans.Covers.play` — the invariant holds after moves in any order
* `Scans.Covers.level_eq`, `Scans.Covers.foundUsage_eq` — once both scans have stopped without a
  cancellation or a failure, the join is that of both lists, however much of them was skipped
-/

namespace LeastAccess

/-! ## The accumulator -/

namespace Accumulator

/-- An accumulator that started from a floor and has joined some levels. -/
structure Joined (floor : Level) (levels : List Level) (a : Accumulator) : Prop where
  level : a.level = Level.join floor levels
  sitesVisited : a.sitesVisited = levels.length
  saturated_iff : a.saturated = true ↔ levels ≠ [] ∧ a.level = .pub

theorem joined_start (floor : Level) : (start floor).Joined floor [] where
  level := rfl
  sitesVisited := rfl
  saturated_iff := by simp [start]

variable {floor : Level} {levels levels' : List Level} {a : Accumulator}

theorem Joined.perm (h : a.Joined floor levels) (hp : levels.Perm levels') :
    a.Joined floor levels' where
  level := by rw [h.level, Level.join_perm hp]
  sitesVisited := by rw [h.sitesVisited, hp.length_eq]
  saturated_iff := by
    rw [h.saturated_iff, ne_eq, ne_eq, ← List.length_eq_zero_iff, hp.length_eq, List.length_eq_zero_iff]

theorem Joined.add (h : a.Joined floor levels) (l : Level) :
    (a.visit.accumulate l).Joined floor (levels ++ [l]) where
  level := by
    rw [Level.join_append, ← h.level]
    rfl
  sitesVisited := by
    rw [List.length_append, ← h.sitesVisited]
    rfl
  saturated_iff := by
    rw [saturated_accumulate_iff (a := a.visit) fun hs => (h.saturated_iff.mp hs).2]
    simp

theorem Joined.foundUsage_eq (h : a.Joined floor levels) : a.foundUsage = !levels.isEmpty := by
  rw [foundUsage, h.sitesVisited]
  cases levels <;> rfl

end Accumulator

/-! ## One scan -/

namespace Scan

/-- A scan of a list has looked at a beginning of it. Unless something stopped it early, a scan that
has finished has looked at all of it. -/
def Covers (all visited : List UsageSite) (stopped : Bool) : Scan → Prop
  | .asking rest _ => visited ++ rest = all
  | .holding site rest _ => visited ++ site :: rest = all
  | .finished _ => visited <+: all ∧ (stopped = false → visited = all)
  | .failed _ => visited <+: all

variable {all visited : List UsageSite} {stopped stopped' : Bool} {scan : Scan}

theorem covers_start (sites : List UsageSite) (stopped : Bool) :
    (start sites).Covers sites [] stopped := rfl

theorem Covers.mono (h : scan.Covers all visited stopped) (hs : stopped = true → stopped' = true) :
    scan.Covers all visited stopped' := by
  cases scan with
  | asking => exact h
  | holding => exact h
  | failed => exact h
  | finished =>
    refine ⟨h.1, fun hn => h.2 ?_⟩
    cases hst : stopped with
    | false => rfl
    | true =>
      rw [hs hst] at hn
      cases hn

/-- A scan that has stopped without a failure has looked at all of its list, unless it was stopped
early. -/
theorem Covers.of_not_isLive (h : scan.Covers all visited stopped) (hl : scan.isLive = false)
    (hf : scan.hasFailed = false) : visited <+: all ∧ (stopped = false → visited = all) := by
  cases scan with
  | asking => cases hl
  | holding => cases hl
  | finished => exact h
  | failed => cases hf

/-- A token that was cancelled stays so when a request is made. -/
theorem isCancelled_request (q : Inquiry) (part : UsageSection) {feed : Feed}
    (h : feed.token.isCancelled = true) (scan : Scan) :
    (scan.request q part feed).2.token.isCancelled = true := by
  have htouch : ∀ r, (q.disturbance.touch r feed.token).isCancelled = true := by
    intro r
    rw [Disturbance.touch]
    split
    · exact Token.isCancelled_cancel _ h
    · exact h
  cases scan with
  | asking rest handed =>
    simp only [request]
    split
    · exact htouch _
    · split <;> exact htouch _
  | holding => exact h
  | finished => exact h
  | failed => exact h

/-- A request looks at nothing. -/
theorem Covers.request (q : Inquiry) (part : UsageSection) {feed : Feed} {saturated : Bool}
    (h : scan.Covers all visited (feed.token.isCancelled || saturated)) :
    (scan.request q part feed).1.Covers all visited
      ((scan.request q part feed).2.token.isCancelled || saturated) := by
  cases scan with
  | asking rest handed =>
    have hall : visited ++ rest = all := h
    have hpre : visited <+: all := ⟨rest, hall⟩
    simp only [Scan.request]
    split
    · exact hpre
    · split
      · next hnext =>
        refine ⟨hpre, fun hn => ?_⟩
        -- no site although the token is live: the list is at its end
        rw [(Bool.or_eq_false_iff.mp hn).1] at hnext
        cases rest with
        | nil => rw [← hall, List.append_nil]
        | cons site rest => cases hnext
      · next site rest' hnext =>
        show visited ++ site :: rest' = all
        rw [← eq_cons_of_nextSite hnext]
        exact hall
  | holding => exact h
  | finished => exact h
  | failed => exact h

theorem saturated_settle (q : Inquiry) (cancelled : Bool) {tally : Tally}
    (h : tally.accumulator.saturated = true) (scan : Scan) :
    (scan.settle q cancelled tally).2.accumulator.saturated = true := by
  cases scan with
  | holding site rest handed =>
    simp only [settle, h, Bool.or_true]
    exact h
  | asking => exact h
  | finished => exact h
  | failed => exact h

/-- To settle is to look at one more site, or at none. -/
theorem Covers.settle (q : Inquiry) {cancelled : Bool} {tally : Tally} {floor : Level}
    {levels : List Level} (h : scan.Covers all visited (cancelled || tally.accumulator.saturated))
    (ht : tally.accumulator.Joined floor levels) :
    ∃ more,
      (scan.settle q cancelled tally).1.Covers all (visited ++ more)
        (cancelled || (scan.settle q cancelled tally).2.accumulator.saturated) ∧
      (scan.settle q cancelled tally).2.accumulator.Joined floor (levels ++ more.map q.judge) := by
  cases scan with
  | asking => exact ⟨[], by simpa [Scan.settle] using h, by simpa [Scan.settle] using ht⟩
  | finished => exact ⟨[], by simpa [Scan.settle] using h, by simpa [Scan.settle] using ht⟩
  | failed => exact ⟨[], by simpa [Scan.settle] using h, by simpa [Scan.settle] using ht⟩
  | holding site rest handed =>
    have hall : visited ++ site :: rest = all := h
    simp only [Scan.settle]
    split
    · next hstop =>
      -- the site is dropped, but then there is a reason to stop early
      refine ⟨[], ?_, by rwa [List.map_nil, List.append_nil]⟩
      rw [List.append_nil]
      refine ⟨⟨site :: rest, hall⟩, fun hn => ?_⟩
      rw [hstop] at hn
      cases hn
    · have hall' : (visited ++ [site]) ++ rest = all := by
        rw [List.append_assoc]
        exact hall
      have hadd := ht.add (q.judge site)
      split
      · next hsat =>
        refine ⟨[site], ⟨⟨rest, hall'⟩, fun hn => ?_⟩, hadd⟩
        rw [hsat, Bool.or_true] at hn
        cases hn
      · exact ⟨[site], hall', hadd⟩

/-! ## Failures -/

theorem hasFailed_request {q : Inquiry} (hx : ∀ r, q.disturbance.fails r = false) (part : UsageSection)
    (feed : Feed) (scan : Scan) : (scan.request q part feed).1.hasFailed = scan.hasFailed := by
  cases scan with
  | asking rest handed =>
    simp only [request, hx]
    split
    · next hf => cases hf
    · split <;> rfl
  | holding => rfl
  | finished => rfl
  | failed => rfl

theorem hasFailed_settle (q : Inquiry) (cancelled : Bool) (tally : Tally) (scan : Scan) :
    (scan.settle q cancelled tally).1.hasFailed = scan.hasFailed := by
  cases scan with
  | holding site rest handed =>
    simp only [settle]
    split
    · rfl
    · split <;> rfl
  | asking => rfl
  | finished => rfl
  | failed => rfl

end Scan

/-! ## Both scans -/

namespace Scans

/-- Each scan has looked at a beginning of its list, and the accumulator holds the join of what they
looked at. -/
def Covers (judge : UsageSite → Level) (floor : Level) (ordinary functional : List UsageSite)
    (cancelled : Bool) (s : Scans) : Prop :=
  ∃ seen seen',
    s.ordinary.Covers ordinary seen (cancelled || s.tally.accumulator.saturated) ∧
    s.functional.Covers functional seen' (cancelled || s.tally.accumulator.saturated) ∧
    s.tally.accumulator.Joined floor ((seen ++ seen').map judge)

variable {q : Inquiry} {floor : Level} {ordinary functional : List UsageSite} {s : Scans}

theorem covers_start (judge : UsageSite → Level) (ordinary : List UsageSite)
    (functional : Option (List UsageSite)) (floor : Level) (feed : Feed) (cancelled : Bool) :
    (start ordinary functional floor feed).Covers judge floor ordinary (functional.getD []) cancelled := by
  refine ⟨[], [], Scan.covers_start _ _, ?_, Accumulator.joined_start floor⟩
  cases functional with
  | none => exact ⟨List.prefix_rfl, fun _ => rfl⟩
  | some sites => exact Scan.covers_start _ _

theorem Covers.mono {judge : UsageSite → Level} {cancelled cancelled' : Bool}
    (h : s.Covers judge floor ordinary functional cancelled)
    (hc : cancelled = true → cancelled' = true) :
    s.Covers judge floor ordinary functional cancelled' := by
  obtain ⟨seen, seen', ho, hf, hj⟩ := h
  have hs : (cancelled || s.tally.accumulator.saturated) = true →
      (cancelled' || s.tally.accumulator.saturated) = true := by
    simp only [Bool.or_eq_true]
    exact fun h => h.imp_left hc
  exact ⟨seen, seen', ho.mono hs, hf.mono hs, hj⟩

theorem Covers.request (h : s.Covers q.judge floor ordinary functional s.feed.token.isCancelled)
    (part : UsageSection) :
    (s.request q part).Covers q.judge floor ordinary functional
      (s.request q part).feed.token.isCancelled := by
  obtain ⟨seen, seen', ho, hf, hj⟩ := h
  have later : ∀ scan : Scan, (s.feed.token.isCancelled || s.tally.accumulator.saturated) = true →
      ((scan.request q part s.feed).2.token.isCancelled || s.tally.accumulator.saturated) = true := by
    simp only [Bool.or_eq_true]
    exact fun scan h => h.imp_left fun hc => Scan.isCancelled_request q part hc scan
  cases part with
  | ordinary => exact ⟨seen, seen', ho.request q .ordinary, hf.mono (later _), hj⟩
  | functional => exact ⟨seen, seen', ho.mono (later _), hf.request q .functional, hj⟩

theorem Covers.settle (h : s.Covers q.judge floor ordinary functional s.feed.token.isCancelled)
    (part : UsageSection) :
    (s.settle q part).Covers q.judge floor ordinary functional
      (s.settle q part).feed.token.isCancelled := by
  obtain ⟨seen, seen', ho, hf, hj⟩ := h
  have later : ∀ scan : Scan, (s.feed.token.isCancelled || s.tally.accumulator.saturated) = true →
      (s.feed.token.isCancelled ||
        (scan.settle q s.feed.token.isCancelled s.tally).2.accumulator.saturated) = true := by
    simp only [Bool.or_eq_true]
    exact fun scan h => h.imp_right fun hs => Scan.saturated_settle q _ hs scan
  cases part with
  | ordinary =>
    obtain ⟨more, ho', hj'⟩ := ho.settle q hj
    refine ⟨seen ++ more, seen', ho', hf.mono (later _), hj'.perm ?_⟩
    rw [← List.map_append]
    refine List.Perm.map _ ?_
    rw [List.append_assoc, List.append_assoc]
    exact List.perm_append_comm.append_left seen
  | functional =>
    obtain ⟨more, hf', hj'⟩ := hf.settle q hj
    refine ⟨seen, seen' ++ more, ho.mono (later _), hf', ?_⟩
    rwa [← List.map_append, List.append_assoc] at hj'

theorem Covers.move (h : s.Covers q.judge floor ordinary functional s.feed.token.isCancelled)
    (m : Move) :
    (s.move q m).Covers q.judge floor ordinary functional (s.move q m).feed.token.isCancelled := by
  cases m with
  | request part => exact h.request part
  | settle part => exact h.settle part

/-- The invariant holds after moves in any order. -/
theorem Covers.play (h : s.Covers q.judge floor ordinary functional s.feed.token.isCancelled)
    (moves : List Move) :
    (s.play q moves).Covers q.judge floor ordinary functional
      (s.play q moves).feed.token.isCancelled := by
  induction moves generalizing s with
  | nil => exact h
  | cons m moves ih => exact ih (h.move m)

theorem hasFailed_move (hx : ∀ r, q.disturbance.fails r = false) (s : Scans) (m : Move) :
    (s.move q m).hasFailed = s.hasFailed := by
  rcases m with (_ | _) | (_ | _)
  · exact congrArg (· || s.functional.hasFailed) (Scan.hasFailed_request hx _ _ _)
  · exact congrArg (s.ordinary.hasFailed || ·) (Scan.hasFailed_request hx _ _ _)
  · exact congrArg (· || s.functional.hasFailed) (Scan.hasFailed_settle _ _ _ _)
  · exact congrArg (s.ordinary.hasFailed || ·) (Scan.hasFailed_settle _ _ _ _)

theorem hasFailed_play (hx : ∀ r, q.disturbance.fails r = false) (s : Scans) (moves : List Move) :
    (s.play q moves).hasFailed = s.hasFailed := by
  induction moves generalizing s with
  | nil => rfl
  | cons m moves ih => exact (ih _).trans (hasFailed_move hx s m)

/-! ## After both have stopped -/

section Stopped

variable {judge : UsageSite → Level}

/-- What both scans have looked at. -/
theorem Covers.exists_seen (h : s.Covers judge floor ordinary functional false)
    (hl : s.isLive = false) (hf : s.hasFailed = false) :
    ∃ seen, seen ⊆ ordinary ++ functional ∧
      (s.tally.accumulator.saturated = false → seen = ordinary ++ functional) ∧
      s.tally.accumulator.Joined floor (seen.map judge) := by
  obtain ⟨seen, seen', ho, hfn, hj⟩ := h
  obtain ⟨hlo, hlf⟩ := Bool.or_eq_false_iff.mp hl
  obtain ⟨hfo, hff⟩ := Bool.or_eq_false_iff.mp hf
  obtain ⟨hpo, hao⟩ := ho.of_not_isLive hlo hfo
  obtain ⟨hpf, haf⟩ := hfn.of_not_isLive hlf hff
  -- without a cancellation, saturation is the only reason to have stopped early
  refine ⟨seen ++ seen', ?_, fun hs => ?_, hj⟩
  · exact List.append_subset.mpr ⟨List.subset_append_of_subset_left _ hpo.subset,
      List.subset_append_of_subset_right _ hpf.subset⟩
  · rw [hao (by rw [hs]; rfl), haf (by rw [hs]; rfl)]

/-- Saturation makes up for the sites that were skipped. -/
theorem Covers.level_eq (h : s.Covers judge floor ordinary functional false) (hl : s.isLive = false)
    (hf : s.hasFailed = false) :
    s.tally.accumulator.level = Level.join floor ((ordinary ++ functional).map judge) := by
  obtain ⟨seen, hsub, hall, hj⟩ := h.exists_seen hl hf
  cases hs : s.tally.accumulator.saturated with
  | false => rw [hj.level, hall hs]
  | true =>
    have hpub := (hj.saturated_iff.mp hs).2
    refine Level.le_antisymm ?_ (hpub ▸ Level.le_pub _)
    rw [hj.level, Level.join_le_iff]
    exact ⟨Level.seed_le_join _ _, fun l hmem => Level.le_join (List.map_subset judge hsub hmem)⟩

theorem Covers.foundUsage_eq (h : s.Covers judge floor ordinary functional false)
    (hl : s.isLive = false) (hf : s.hasFailed = false) :
    s.tally.accumulator.foundUsage = !(ordinary ++ functional).isEmpty := by
  obtain ⟨seen, hsub, hall, hj⟩ := h.exists_seen hl hf
  rw [hj.foundUsage_eq, List.isEmpty_map]
  cases hs : s.tally.accumulator.saturated with
  | false => rw [hall hs]
  | true =>
    -- a saturated accumulator has joined a site, and that is a site of the lists
    have hne : seen ≠ [] := fun hnil => (hj.saturated_iff.mp hs).1 (by rw [hnil]; rfl)
    have hne' : ordinary ++ functional ≠ [] := fun hnil => hne (List.subset_nil.mp (hnil ▸ hsub))
    rw [List.isEmpty_eq_false_iff.mpr hne, List.isEmpty_eq_false_iff.mpr hne']

end Stopped

end Scans

end LeastAccess
