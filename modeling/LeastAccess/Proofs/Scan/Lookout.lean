import LeastAccess.Proofs.Scan.Turns

/-!
# What a scan looks at

A scan looks at the sites of its list until one of them saturates the accumulator. `Tally.lookout` is this
beginning of the list, whatever the accumulator starts from. When a scan moves alone, because the other one
has stopped or there is none, it looks at just these sites and is handed no others. Its index may fail at
the request after some number of sites; the scan fails with it exactly if it gets to make that request.

* `StopsAt.lookout` — the sites that are looked at, as the shortest beginning with a property
* `Scans.LooksAlone.move` — what every move of a scan on its own keeps
* `Scans.LooksAlone.run` — what such a scan comes to
-/

namespace LeastAccess

/-! ## Sites one after the other -/

namespace Tally

/-- Looks at a site. -/
def look (judge : UsageSite → Level) (t : Tally) (site : UsageSite) : Tally := t.add ⟨site, judge site⟩

/-- Looks at some sites in order. -/
def lookAll (judge : UsageSite → Level) (t : Tally) (sites : List UsageSite) : Tally :=
  sites.foldl (look judge) t

/-- The sites that are looked at until one of them saturates. -/
def lookout (judge : UsageSite → Level) : Tally → List UsageSite → List UsageSite
  | _, [] => []
  | t, site :: rest =>
    if (t.look judge site).accumulator.saturated then [site]
    else site :: lookout judge (t.look judge site) rest

variable {judge : UsageSite → Level} {t : Tally} {site : UsageSite} {sites seen rest : List UsageSite}

@[simp] theorem lookAll_nil : t.lookAll judge [] = t := rfl

@[simp] theorem lookAll_cons : t.lookAll judge (site :: rest) = (t.look judge site).lookAll judge rest := rfl

theorem lookAll_append : t.lookAll judge (seen ++ rest) = (t.lookAll judge seen).lookAll judge rest :=
  List.foldl_append

theorem saturated_lookAll (h : t.accumulator.saturated = true) (sites : List UsageSite) :
    (t.lookAll judge sites).accumulator.saturated = true := by
  induction sites generalizing t with
  | nil => exact h
  | cons site rest ih =>
    refine ih ?_
    show (t.accumulator.visit.accumulate (judge site)).saturated = true
    rw [Accumulator.saturated_accumulate, Accumulator.visit, h, Bool.true_or]

/-- What has not saturated later has not saturated before. -/
theorem not_saturated_of_append (h : (t.lookAll judge (seen ++ rest)).accumulator.saturated = false) :
    (t.lookAll judge seen).accumulator.saturated = false := by
  rw [lookAll_append] at h
  by_contra hs
  rw [saturated_lookAll (Bool.not_eq_false _ ▸ hs)] at h
  cases h

theorem visits_lookAll (sites : List UsageSite) :
    (t.lookAll judge sites).visits = t.visits ++ sites.map fun site => ⟨site, judge site⟩ := by
  induction sites generalizing t with
  | nil => exact (List.append_nil _).symm
  | cons site rest ih =>
    rw [lookAll_cons, ih, List.map_cons]
    show t.visits ++ [⟨site, judge site⟩] ++ _ = _
    rw [List.append_assoc, List.singleton_append]

theorem joined_lookAll {floor : Level} {levels : List Level} (h : t.accumulator.Joined floor levels)
    (sites : List UsageSite) : (t.lookAll judge sites).accumulator.Joined floor (levels ++ sites.map judge) := by
  induction sites generalizing t levels with
  | nil =>
    rw [List.map_nil, List.append_nil]
    exact h
  | cons site rest ih =>
    have hnext : (t.look judge site).accumulator.Joined floor (levels ++ [judge site]) := h.add (judge site)
    rw [List.map_cons, ← List.singleton_append, ← List.append_assoc]
    exact ih hnext

/-! ## The sites that are looked at -/

theorem lookout_of_saturated (h : (t.look judge site).accumulator.saturated = true) :
    t.lookout judge (site :: rest) = [site] := if_pos h

theorem lookout_of_not_saturated (h : (t.look judge site).accumulator.saturated = false) :
    t.lookout judge (site :: rest) = site :: (t.look judge site).lookout judge rest :=
  if_neg (Bool.eq_false_iff.mp h)

/-- What has not saturated is looked at in any case. -/
theorem lookout_append (h : (t.lookAll judge seen).accumulator.saturated = false) :
    t.lookout judge (seen ++ rest) = seen ++ (t.lookAll judge seen).lookout judge rest := by
  induction seen generalizing t with
  | nil => rfl
  | cons site seen ih =>
    have hsite : (t.look judge site).accumulator.saturated = false := by
      have hopen : (t.lookAll judge ([site] ++ seen)).accumulator.saturated = false := h
      exact not_saturated_of_append hopen
    rw [List.cons_append, lookout_of_not_saturated hsite, ih h]
    rfl

/-- A list that does not saturate is looked at as a whole. -/
theorem lookout_eq_self (h : (t.lookAll judge sites).accumulator.saturated = false) :
    t.lookout judge sites = sites := by
  have happend : t.lookout judge (sites ++ []) = sites ++ [] := lookout_append h
  rwa [List.append_nil] at happend

end Tally

/-- The shortest beginning of a list at which there is a reason to stop, or all of it if there is none. -/
structure StopsAt (stops : List UsageSite → Prop) (sites seen : List UsageSite) : Prop where
  isBeginning : seen <+: sites
  reason : stops seen ∨ seen = sites
  shortest : ∀ before, before <+: seen → stops before → before = seen

/-- What is looked at is the shortest beginning that saturates. -/
theorem StopsAt.lookout (judge : UsageSite → Level) {t : Tally} (h : t.accumulator.saturated = false)
    (sites : List UsageSite) :
    StopsAt (fun seen => (t.lookAll judge seen).accumulator.saturated = true) sites (t.lookout judge sites) := by
  induction sites generalizing t with
  | nil => exact ⟨List.prefix_rfl, Or.inr rfl, fun before hb _ => List.prefix_nil.mp hb⟩
  | cons site rest ih =>
    have hnil : (t.lookAll judge []).accumulator.saturated ≠ true := Bool.eq_false_iff.mp h
    cases hs : (t.look judge site).accumulator.saturated with
    | true =>
      rw [Tally.lookout_of_saturated hs]
      refine ⟨by simp, Or.inl hs, fun before hb hstops => ?_⟩
      cases before with
      | nil => exact absurd hstops hnil
      | cons first before =>
        obtain ⟨rfl, hbefore⟩ := List.cons_prefix_cons.mp hb
        rw [List.prefix_nil.mp hbefore]
    | false =>
      rw [Tally.lookout_of_not_saturated hs]
      have hrest := ih hs
      refine ⟨List.cons_prefix_cons.mpr ⟨rfl, hrest.isBeginning⟩, ?_, fun before hb hstops => ?_⟩
      · exact hrest.reason.imp_right (congrArg (site :: ·))
      · cases before with
        | nil => exact absurd hstops hnil
        | cons first before =>
          obtain ⟨rfl, hbefore⟩ := List.cons_prefix_cons.mp hb
          rw [hrest.shortest before hbefore hstops]

/-- Equivalent reasons stop at the same beginning. -/
theorem StopsAt.congr {stops stops' : List UsageSite → Prop} {sites seen : List UsageSite}
    (h : StopsAt stops sites seen) (hiff : ∀ sites, stops sites ↔ stops' sites) : StopsAt stops' sites seen :=
  ⟨h.isBeginning, h.reason.imp_left (hiff _).mp, fun before hb hs => h.shortest before hb ((hiff _).mpr hs)⟩

/-! ## A scan on its own -/

/-- Nothing cancels the run, and the index fails the declaration at the request after some number of sites,
or at none. -/
structure Inquiry.FailsAfter (q : Inquiry) (after : Option Nat) : Prop where
  steady : ∀ r, q.disturbance.cancels r = false
  fails : ∀ part handed total,
    q.disturbance.fails ⟨q.declarationId, part, handed, total⟩ = (after == some handed)

/-- The scan of some sites gets to the request after the first `n` of them: there are as many, and they do not
saturate. -/
def Tally.Requests (judge : UsageSite → Level) (t : Tally) (sites : List UsageSite) (n : Nat) : Prop :=
  n ≤ sites.length ∧ (t.lookAll judge (sites.take n)).accumulator.saturated = false

/-- A scan of some sites has looked at a beginning of them, and the request at which its index fails, if there
is one, is still to come, was not made, or has been made. -/
def Scan.HasLooked (judge : UsageSite → Level) (base : Tally) (sites : List UsageSite) (after : Option Nat)
    (seen : List UsageSite) : Scan → Prop
  | .asking rest handed => seen ++ rest = sites ∧ (base.lookAll judge seen).accumulator.saturated = false ∧
      ∀ n, after = some n → handed = seen.length ∧ seen.length ≤ n
  | .holding site rest handed => seen ++ site :: rest = sites ∧
      (base.lookAll judge seen).accumulator.saturated = false ∧
      ∀ n, after = some n → handed = seen.length + 1 ∧ seen.length < n
  | .finished _ => seen = base.lookout judge sites ∧ ∀ n, after = some n → ¬ base.Requests judge sites n
  | .failed _ => ∃ n, after = some n ∧ base.Requests judge sites n

/-- The sites that a scan was handed and has not dealt with. -/
def Scan.pending : Scan → Nat
  | .holding _ _ _ => 1
  | _ => 0

/-- Where nothing fails and nothing is cancelled, a request is served as in an undisturbed run. -/
theorem Scan.request_eq_undisturbed {q : Inquiry} (hq : q.FailsAfter none) (part : UsageSection) (feed : Feed)
    (scan : Scan) : scan.request q part feed = scan.request q.undisturbed part feed := by
  cases scan with
  | asking rest handed =>
    have hserves : q.disturbance.fails ⟨q.declarationId, part, handed, feed.handedOut⟩ = false := hq.fails _ _ _
    simp only [request, Disturbance.touch, hq.steady, hserves, Inquiry.undisturbed, Disturbance.none,
      Bool.false_eq_true, if_false]
  | holding => rfl
  | finished => rfl
  | failed => rfl

theorem Scans.move_eq_undisturbed {q : Inquiry} (hq : q.FailsAfter none) (s : Scans) (m : Move) :
    s.move q m = s.move q.undisturbed m := by
  rcases m with (_ | _) | (_ | _)
  · simp only [move, request, Scan.request_eq_undisturbed hq]
  · simp only [move, request, Scan.request_eq_undisturbed hq]
  · rfl
  · rfl

theorem Scans.run_eq_undisturbed {q : Inquiry} (hq : q.FailsAfter none) (s : Scans) :
    s.run q = s.run q.undisturbed := by
  have hround (s : Scans) : s.round q = s.round q.undisturbed := by
    rw [round_eq_play, round_eq_play]
    unfold play
    exact List.foldl_ext _ _ _ fun s m _ => move_eq_undisturbed hq s m
  fun_induction Scans.run q s with
  | case1 s hl ih => rw [ih, hround, run.eq_def _ s, if_pos hl]
  | case2 s hl => rw [run.eq_def, if_neg hl]

namespace Scan

variable {q : Inquiry} {base tally : Tally} {sites seen : List UsageSite} {after : Option Nat} {scan : Scan}

theorem pending_of_not_isLive (h : scan.isLive = false) : scan.pending = 0 := by
  cases scan with
  | holding => cases h
  | asking => rfl
  | finished => rfl
  | failed => rfl

theorem HasLooked.request (hq : q.FailsAfter after) (h : scan.HasLooked q.judge base sites after seen)
    (part : UsageSection) {feed : Feed} (hlive : feed.token.isCancelled = false) :
    (scan.request q part feed).1.HasLooked q.judge base sites after seen ∧
      (scan.request q part feed).2.handedOut + scan.pending =
        feed.handedOut + (scan.request q part feed).1.pending := by
  cases scan with
  | holding => exact ⟨h, rfl⟩
  | finished => exact ⟨h, rfl⟩
  | failed => exact ⟨h, rfl⟩
  | asking rest handed =>
    obtain ⟨hsites, hopen, hafter⟩ := h
    simp only [Scan.request, hq.fails, Disturbance.touch, hq.steady, Bool.false_eq_true, if_false, hlive]
    by_cases hfail : after = some handed
    · -- the request that fails is the one after the sites that were seen
      obtain ⟨hhanded, -⟩ := hafter handed hfail
      rw [if_pos (beq_iff_eq.mpr hfail)]
      refine ⟨⟨handed, hfail, ?_⟩, rfl⟩
      rw [hhanded, ← hsites]
      exact ⟨by simp, by rwa [List.take_left]⟩
    · rw [if_neg (fun h => hfail (beq_iff_eq.mp h))]
      have hlater {n : Nat} (hn : after = some n) : handed = seen.length ∧ seen.length < n := by
        obtain ⟨hhanded, hle⟩ := hafter n hn
        refine ⟨hhanded, Nat.lt_of_le_of_ne hle fun heq => hfail ?_⟩
        rw [hn, hhanded, heq]
      cases rest with
      | nil =>
        rw [List.append_nil] at hsites
        subst hsites
        refine ⟨⟨(Tally.lookout_eq_self hopen).symm, fun n hn hrequests => ?_⟩, rfl⟩
        exact Nat.not_le.mpr (hlater hn).2 hrequests.1
      | cons site rest =>
        refine ⟨⟨hsites, hopen, fun n hn => ?_⟩, rfl⟩
        obtain ⟨hhanded, hlt⟩ := hlater hn
        exact ⟨congrArg (· + 1) hhanded, hlt⟩

theorem HasLooked.settle (h : scan.HasLooked q.judge base sites after seen) :
    ∃ seen', (scan.settle q false (base.lookAll q.judge seen)).1.HasLooked q.judge base sites after seen' ∧
      (scan.settle q false (base.lookAll q.judge seen)).2 = base.lookAll q.judge seen' ∧
      seen.length + scan.pending =
        seen'.length + (scan.settle q false (base.lookAll q.judge seen)).1.pending := by
  cases scan with
  | asking => exact ⟨seen, h, rfl, rfl⟩
  | finished => exact ⟨seen, h, rfl, rfl⟩
  | failed => exact ⟨seen, h, rfl, rfl⟩
  | holding site rest handed =>
    obtain ⟨hsites, hopen, hafter⟩ := h
    have htally : (base.lookAll q.judge seen).add ⟨site, q.judge site⟩ =
        base.lookAll q.judge (seen ++ [site]) := by
      rw [Tally.lookAll_append]
      rfl
    have hsites' : (seen ++ [site]) ++ rest = sites := by
      rw [List.append_assoc]
      exact hsites
    refine ⟨seen ++ [site], ?_⟩
    simp only [Scan.settle, hopen, Bool.or_self, Bool.false_eq_true, if_false, htally]
    cases hs : (base.lookAll q.judge (seen ++ [site])).accumulator.saturated with
    | true =>
      refine ⟨⟨?_, fun n hn hrequests => ?_⟩, rfl, by simp [pending]⟩
      · have hsite : ((base.lookAll q.judge seen).look q.judge site).accumulator.saturated = true := by
          rw [← htally] at hs
          exact hs
        rw [← hsites, Tally.lookout_append hopen, Tally.lookout_of_saturated hsite]
      · -- a later request would have to pass by the site that saturates
        have hlt : seen.length < n := (hafter n hn).2
        have htake : sites.take n = (seen ++ [site]) ++ rest.take (n - (seen ++ [site]).length) := by
          rw [← hsites', List.take_append, List.take_of_length_le (by rw [List.length_append]; exact hlt)]
        have hnever := hrequests.2
        rw [htake] at hnever
        rw [Tally.not_saturated_of_append hnever] at hs
        cases hs
    | false =>
      refine ⟨⟨hsites', hs, fun n hn => ?_⟩, rfl, by simp [pending]⟩
      obtain ⟨hhanded, hlt⟩ := hafter n hn
      rw [List.length_append]
      exact ⟨hhanded, hlt⟩

end Scan

/-! ## Scans of which one has stopped -/

namespace Scans

/-- The sites that were handed out and not dealt with. -/
def pending (s : Scans) : Nat := s.ordinary.pending + s.functional.pending

/-- One of the scans is on its own, since the other one has finished, and has looked at some sites. -/
def LooksAlone (q : Inquiry) (base : Tally) (sites : List UsageSite) (after : Option Nat) (seen : List UsageSite)
    (s : Scans) : UsageSection → Prop
  | .ordinary => s.ordinary.HasLooked q.judge base sites after seen ∧ (∃ turns, s.functional = .finished turns) ∧
      s.tally = base.lookAll q.judge seen
  | .functional => s.functional.HasLooked q.judge base sites after seen ∧
      (∃ turns, s.ordinary = .finished turns) ∧ s.tally = base.lookAll q.judge seen

variable {q : Inquiry} {base : Tally} {sites seen : List UsageSite} {after : Option Nat} {part : UsageSection}
  {s : Scans}

/-- With every move of the scan that is on its own, what it was handed is seen or still pending. The other
one does not move. -/
theorem LooksAlone.move (hq : q.FailsAfter after) (h : s.LooksAlone q base sites after seen part)
    (hlive : s.feed.token.isCancelled = false) (m : Move) :
    ∃ seen', (s.move q m).LooksAlone q base sites after seen' part ∧
      (s.move q m).feed.handedOut + (seen.length + s.pending) =
        s.feed.handedOut + (seen'.length + (s.move q m).pending) := by
  obtain ⟨ordinary, functional, tally, feed⟩ := s
  cases part with
  | ordinary =>
    obtain ⟨hscan, ⟨turns, rfl⟩, rfl⟩ := h
    rcases m with (_ | _) | (_ | _)
    · obtain ⟨hscan', hcount⟩ := hscan.request hq .ordinary hlive
      refine ⟨seen, ⟨hscan', ⟨turns, rfl⟩, rfl⟩, ?_⟩
      simp only [move, request, pending] at hcount ⊢
      omega
    · exact ⟨seen, ⟨hscan, ⟨turns, rfl⟩, rfl⟩, rfl⟩
    · obtain ⟨seen', hscan', htally, hcount⟩ := hscan.settle
      rw [← show feed.token.isCancelled = false from hlive] at hscan' htally hcount
      refine ⟨seen', ⟨hscan', ⟨turns, rfl⟩, htally⟩, ?_⟩
      simp only [move, settle, pending] at hcount ⊢
      omega
    · exact ⟨seen, ⟨hscan, ⟨turns, rfl⟩, rfl⟩, rfl⟩
  | functional =>
    obtain ⟨hscan, ⟨turns, rfl⟩, rfl⟩ := h
    rcases m with (_ | _) | (_ | _)
    · exact ⟨seen, ⟨hscan, ⟨turns, rfl⟩, rfl⟩, rfl⟩
    · obtain ⟨hscan', hcount⟩ := hscan.request hq .functional hlive
      refine ⟨seen, ⟨hscan', ⟨turns, rfl⟩, rfl⟩, ?_⟩
      simp only [move, request, pending] at hcount ⊢
      omega
    · exact ⟨seen, ⟨hscan, ⟨turns, rfl⟩, rfl⟩, rfl⟩
    · obtain ⟨seen', hscan', htally, hcount⟩ := hscan.settle
      rw [← show feed.token.isCancelled = false from hlive] at hscan' htally hcount
      refine ⟨seen', ⟨hscan', ⟨turns, rfl⟩, htally⟩, ?_⟩
      simp only [move, settle, pending] at hcount ⊢
      omega

/-- So with any number of moves. -/
theorem LooksAlone.play (hq : q.FailsAfter after) (h : s.LooksAlone q base sites after seen part)
    (hlive : s.feed.token.isCancelled = false) (moves : List Move) :
    ∃ seen', (s.play q moves).LooksAlone q base sites after seen' part ∧
      (s.play q moves).feed.handedOut + (seen.length + s.pending) =
        s.feed.handedOut + (seen'.length + (s.play q moves).pending) := by
  induction moves generalizing s seen with
  | nil => exact ⟨seen, h, rfl⟩
  | cons m moves ih =>
    obtain ⟨seen₁, h₁, hcount₁⟩ := h.move hq hlive m
    have hlive₁ : (s.move q m).feed.token.isCancelled = false := by rwa [token_move hq.steady]
    obtain ⟨seen₂, h₂, hcount₂⟩ := ih h₁ hlive₁
    refine ⟨seen₂, h₂, ?_⟩
    show ((s.move q m).play q moves).feed.handedOut + _ = _ + (_ + ((s.move q m).play q moves).pending)
    omega

/-- A scan on its own that has stopped has failed at a request it got to, or it got to none at which it
fails and has looked at all up to the first site that saturates. -/
theorem LooksAlone.of_not_isLive (h : s.LooksAlone q base sites after seen part) (hl : s.isLive = false) :
    s.hasFailed = true ∧ (∃ n, after = some n ∧ base.Requests q.judge sites n) ∨
      s.hasFailed = false ∧ (∀ n, after = some n → ¬ base.Requests q.judge sites n) ∧
        seen = base.lookout q.judge sites ∧ s.tally = base.lookAll q.judge (base.lookout q.judge sites) := by
  obtain ⟨ordinary, functional, tally, feed⟩ := s
  cases part with
  | ordinary =>
    obtain ⟨hscan, ⟨turns, rfl⟩, rfl⟩ := h
    cases ordinary with
    | asking => cases hl
    | holding => cases hl
    | finished =>
      obtain ⟨rfl, hnever⟩ := hscan
      exact Or.inr ⟨rfl, hnever, rfl, rfl⟩
    | failed => exact Or.inl ⟨rfl, hscan⟩
  | functional =>
    obtain ⟨hscan, ⟨turns, rfl⟩, rfl⟩ := h
    cases functional with
    | asking => cases hl
    | holding => cases hl
    | finished =>
      obtain ⟨rfl, hnever⟩ := hscan
      exact Or.inr ⟨rfl, hnever, rfl, rfl⟩
    | failed => exact Or.inl ⟨rfl, hscan⟩

/-- What a run of a scan on its own comes to, and the sites it was handed. -/
theorem LooksAlone.run (hq : q.FailsAfter none) (h : s.LooksAlone q base sites none [] part)
    (hlive : s.feed.token.isCancelled = false) (hpending : s.pending = 0) :
    (s.run q).tally = base.lookAll q.judge (base.lookout q.judge sites) ∧
      (s.run q).feed.handedOut = s.feed.handedOut + (base.lookout q.judge sites).length := by
  obtain ⟨moves, hplay⟩ := s.exists_play_eq_run q
  have hl := Scans.isLive_run q s
  obtain ⟨seen, h', hcount⟩ := h.play hq hlive moves
  rw [hplay] at h' hcount
  have hnone : (s.run q).pending = 0 := by
    obtain ⟨ho, hf⟩ := Bool.or_eq_false_iff.mp hl
    rw [pending, Scan.pending_of_not_isLive ho, Scan.pending_of_not_isLive hf]
  rcases h'.of_not_isLive hl with ⟨-, n, hn, -⟩ | ⟨-, -, rfl, htally⟩
  · cases hn
  · refine ⟨htally, ?_⟩
    rw [hpending, hnone] at hcount
    simpa using hcount

end Scans

end LeastAccess
