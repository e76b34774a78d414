import LeastAccess.Proofs.Scan.Lookout

/-!
# Two scans as one

Two scans that take turns look at the sites of both lists in turns, the first of the ordinary ones, the first
of the functional ones, and so on, and then at what is left of the longer list. They stop as a single scan of
that merged list does. A site of the other list may have been handed out when one saturates the accumulator,
and so may a site in the round after; at most one site is handed out that is not looked at.

* `Scans.run_eq_lookout` — both scans come to what one scan of the merged list comes to
-/

namespace LeastAccess

/-- Two lists in turns, and what is left of the longer one. -/
def inTurns {α : Type} : List α → List α → List α
  | [], bs => bs
  | a :: as, [] => a :: as
  | a :: as, b :: bs => a :: b :: inTurns as bs

@[simp] theorem inTurns_nil_right {α : Type} (as : List α) : inTurns as [] = as := by
  cases as <;> rfl

example : inTurns [1, 3, 5, 6] [2, 4] = [1, 2, 3, 4, 5, 6] := rfl

namespace Scan

variable {q : Inquiry}

/-- A request at the end of the list. -/
theorem request_nil (hq : q.FailsAfter none) (part : UsageSection) (feed : Feed) (handed : Nat) :
    (asking [] handed).request q part feed = (.finished (turnsToEnd handed), feed) := by
  rw [request_eq_undisturbed hq]
  rfl

/-- A request that is served. -/
theorem request_cons (hq : q.FailsAfter none) (part : UsageSection) {feed : Feed}
    (hlive : feed.token.isCancelled = false) (site : UsageSite) (rest : List UsageSite) (handed : Nat) :
    (asking (site :: rest) handed).request q part feed =
      (.holding site rest (handed + 1), ⟨feed.token, feed.handedOut + 1⟩) := by
  have hnext : nextSite feed.token.isCancelled (site :: rest) = some (site, rest) := by
    rw [hlive]
    rfl
  rw [request_eq_undisturbed hq]
  simp [request, Inquiry.undisturbed, Disturbance.none, Disturbance.touch, hnext]

/-- A site that is dropped. -/
theorem settle_of_saturated {tally : Tally} (h : tally.accumulator.saturated = true) (site : UsageSite)
    (rest : List UsageSite) (handed : Nat) :
    (holding site rest handed).settle q false tally = (.finished (turnsToLeave handed), tally) := by
  simp only [settle, h, Bool.or_true, if_true]

/-- A site that is looked at. -/
theorem settle_of_not_saturated {tally : Tally} (h : tally.accumulator.saturated = false) (site : UsageSite)
    (rest : List UsageSite) (handed : Nat) :
    (holding site rest handed).settle q false tally =
      (if (tally.look q.judge site).accumulator.saturated then .finished (turnsToLeave handed)
        else .asking rest handed, tally.look q.judge site) := by
  simp only [settle, h, Bool.or_false, Bool.false_eq_true, if_false]
  split
  · next hs => rw [if_pos (show (tally.look q.judge site).accumulator.saturated = true from hs)]; rfl
  · next hs => rw [if_neg (show ¬ (tally.look q.judge site).accumulator.saturated = true from hs)]; rfl

end Scan

namespace Scans

variable {q : Inquiry} {s s' : Scans} {us fs : List UsageSite} {u f : UsageSite} {h h' turns : Nat}
  {tally : Tally} {feed : Feed}

theorem run_of_isLive (hl : s.isLive = true) : s.run q = (s.round q).run q := by
  rw [run, if_pos hl]

theorem run_of_not_isLive (hl : s.isLive = false) : s.run q = s := by
  rw [run, if_neg (Bool.eq_false_iff.mp hl)]

/-- Scans that are the same after a round come to the same. -/
theorem run_eq_of_round_eq (hl : s.isLive = true) (hl' : s'.isLive = true) (hround : s.round q = s'.round q) :
    s.run q = s'.run q := by
  rw [run_of_isLive hl, run_of_isLive hl', hround]

/-! ## When one list is at its end -/

section

variable (hq : q.FailsAfter none)

include hq

/-- Without ordinary sites the functional scan is on its own. -/
theorem run_ordinary_nil : run q ⟨.asking [] h, .asking fs h', tally, feed⟩ =
    run q ⟨.finished (Scan.turnsToEnd h), .asking fs h', tally, feed⟩ := by
  refine run_eq_of_round_eq rfl rfl ?_
  have hrequest : request q ⟨.asking [] h, .asking fs h', tally, feed⟩ .ordinary =
      ⟨.finished (Scan.turnsToEnd h), .asking fs h', tally, feed⟩ := by
    simp only [request, Scan.request_nil hq]
  unfold round
  rw [hrequest]
  rfl

/-- Without functional sites the ordinary scan is. -/
theorem run_functional_nil (hlive : feed.token.isCancelled = false) :
    run q ⟨.asking (u :: us) h, .asking [] h', tally, feed⟩ =
      run q ⟨.asking (u :: us) h, .finished (Scan.turnsToEnd h'), tally, feed⟩ := by
  refine run_eq_of_round_eq rfl rfl ?_
  unfold round
  simp only [request, Scan.request_cons hq .ordinary hlive, Scan.request_nil hq]
  rfl

/-! ## When one of them saturates -/

/-- A scan of a saturated accumulator is handed one more site at most, and drops it. -/
theorem run_of_saturated (hlive : feed.token.isCancelled = false) (hs : tally.accumulator.saturated = true) :
    (run q ⟨.asking us h, .finished turns, tally, feed⟩).tally = tally ∧
      ∃ dropped ≤ 1, (run q ⟨.asking us h, .finished turns, tally, feed⟩).feed.handedOut =
        feed.handedOut + dropped := by
  rw [run_of_isLive rfl]
  cases us with
  | nil =>
    have hround : round q ⟨.asking [] h, .finished turns, tally, feed⟩ =
        ⟨.finished (Scan.turnsToEnd h), .finished turns, tally, feed⟩ := by
      unfold round
      simp only [request, settle, Scan.request_nil hq]
      rfl
    rw [hround, run_of_not_isLive rfl]
    exact ⟨rfl, 0, Nat.zero_le 1, rfl⟩
  | cons u us =>
    have hrequest : request q ⟨.asking (u :: us) h, .finished turns, tally, feed⟩ .ordinary =
        ⟨.holding u us (h + 1), .finished turns, tally, ⟨feed.token, feed.handedOut + 1⟩⟩ := by
      simp only [request, Scan.request_cons hq .ordinary hlive]
    have hround : round q ⟨.asking (u :: us) h, .finished turns, tally, feed⟩ =
        ⟨.finished (Scan.turnsToLeave (h + 1)), .finished turns, tally, ⟨feed.token, feed.handedOut + 1⟩⟩ := by
      unfold round
      rw [hrequest]
      show settle q (settle q ⟨.holding u us (h + 1), .finished turns, tally, _⟩ .ordinary) .functional = _
      simp only [settle, hlive, Scan.settle_of_saturated hs]
      rfl
    rw [hround, run_of_not_isLive rfl]
    exact ⟨rfl, 1, Nat.le_refl 1, rfl⟩

/-- A round in which both scans hold a site. -/
theorem round_cons (hlive : feed.token.isCancelled = false) :
    round q ⟨.asking (u :: us) h, .asking (f :: fs) h', tally, feed⟩ =
      settle q (settle q ⟨.holding u us (h + 1), .holding f fs (h' + 1), tally,
        ⟨feed.token, feed.handedOut + 2⟩⟩ .ordinary) .functional := by
  have hlive' : (Feed.mk feed.token (feed.handedOut + 1)).token.isCancelled = false := hlive
  unfold round
  simp only [request, Scan.request_cons hq .ordinary hlive, Scan.request_cons hq .functional hlive']

/-! ## Both scans -/

/-- Two scans come to what one scan of the merged list comes to, and are handed at most one site more. -/
theorem run_eq_lookout (hlive : feed.token.isCancelled = false)
    (hopen : tally.accumulator.saturated = false) :
    (run q ⟨.asking us h, .asking fs h', tally, feed⟩).tally =
        tally.lookAll q.judge (tally.lookout q.judge (inTurns us fs)) ∧
      ∃ dropped ≤ 1, (run q ⟨.asking us h, .asking fs h', tally, feed⟩).feed.handedOut =
        feed.handedOut + (tally.lookout q.judge (inTurns us fs)).length + dropped := by
  induction us generalizing fs h h' tally feed with
  | nil =>
    have halone : LooksAlone q tally fs none []
        ⟨.finished (Scan.turnsToEnd h), .asking fs h', tally, feed⟩ .functional :=
      ⟨⟨rfl, hopen, nofun⟩, ⟨_, rfl⟩, rfl⟩
    obtain ⟨htally, hcount⟩ := halone.run hq hlive rfl
    rw [run_ordinary_nil hq, inTurns]
    exact ⟨htally, 0, Nat.zero_le 1, hcount⟩
  | cons u us ih =>
    cases fs with
    | nil =>
      have halone : LooksAlone q tally (u :: us) none []
          ⟨.asking (u :: us) h, .finished (Scan.turnsToEnd h'), tally, feed⟩ .ordinary :=
        ⟨⟨rfl, hopen, nofun⟩, ⟨_, rfl⟩, rfl⟩
      obtain ⟨htally, hcount⟩ := halone.run hq hlive rfl
      rw [run_functional_nil hq hlive, inTurns]
      exact ⟨htally, 0, Nat.zero_le 1, hcount⟩
    | cons f fs =>
      rw [run_of_isLive rfl, round_cons hq hlive, inTurns]
      cases hu : (tally.look q.judge u).accumulator.saturated with
      | true =>
        -- the ordinary site saturates, and the functional one is dropped
        have hend : settle q (settle q ⟨.holding u us (h + 1), .holding f fs (h' + 1), tally,
            ⟨feed.token, feed.handedOut + 2⟩⟩ .ordinary) .functional =
              ⟨.finished (Scan.turnsToLeave (h + 1)), .finished (Scan.turnsToLeave (h' + 1)),
                tally.look q.judge u, ⟨feed.token, feed.handedOut + 2⟩⟩ := by
          simp only [settle, hlive, Scan.settle_of_not_saturated hopen, hu, if_true,
            Scan.settle_of_saturated hu]
        rw [hend, run_of_not_isLive rfl, Tally.lookout_of_saturated hu]
        exact ⟨rfl, 1, Nat.le_refl 1, rfl⟩
      | false =>
        have hround : settle q (settle q ⟨.holding u us (h + 1), .holding f fs (h' + 1), tally,
            ⟨feed.token, feed.handedOut + 2⟩⟩ .ordinary) .functional =
              ⟨.asking us (h + 1), if ((tally.look q.judge u).look q.judge f).accumulator.saturated
                then .finished (Scan.turnsToLeave (h' + 1)) else .asking fs (h' + 1),
                (tally.look q.judge u).look q.judge f, ⟨feed.token, feed.handedOut + 2⟩⟩ := by
          simp only [settle, hlive, Scan.settle_of_not_saturated hopen, hu, Bool.false_eq_true, if_false,
            Scan.settle_of_not_saturated hu]
        rw [hround, Tally.lookout_of_not_saturated hu]
        cases hf : ((tally.look q.judge u).look q.judge f).accumulator.saturated with
        | true =>
          -- the functional site saturates, and the ordinary scan notices in the next round
          rw [Tally.lookout_of_saturated hf, if_pos rfl]
          exact run_of_saturated hq hlive hf
        | false =>
          obtain ⟨htally, dropped, hdropped, hcount⟩ :=
            @ih fs (h + 1) (h' + 1) _ ⟨feed.token, feed.handedOut + 2⟩ hlive hf
          rw [Tally.lookout_of_not_saturated hf, if_neg Bool.false_ne_true]
          refine ⟨htally, dropped, hdropped, hcount.trans ?_⟩
          simp only [List.length_cons]
          omega

end

end Scans

end LeastAccess
