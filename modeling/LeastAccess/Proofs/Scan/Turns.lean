import LeastAccess.Proofs.Scan.Coverage
import Mathlib.Logic.Function.Iterate

/-!
# Scans that take turns

When the two scans of a declaration take turns, at most one move is due at any time: each requests once,
ordinary usages first, and then each settles in the same order. What the scans come to is then determined
by their lists. It depends neither on what other declarations are scanned in between nor on how many sites
were handed out before.

* `Precedes.of_move` — a move in its turn is a step on the one path of the scans
* `Precedes.run` — so are the rounds of a run
* `Precedes.eq_of_not_isLive` — the path has one end
-/

namespace LeastAccess

/-! ## One scan -/

namespace Scan

def isAsking : Scan → Bool
  | .asking _ _ => true
  | _ => false

def isHolding : Scan → Bool
  | .holding _ _ _ => true
  | _ => false

theorem isAsking_request (q : Inquiry) (part : UsageSection) (feed : Feed) (scan : Scan) :
    (scan.request q part feed).1.isAsking = false := by
  cases h : (scan.request q part feed).1 with
  | asking rest handed => exact absurd h (request_ne_asking q part feed scan rest handed)
  | holding => rfl
  | finished => rfl
  | failed => rfl

theorem isHolding_settle (q : Inquiry) (cancelled : Bool) (tally : Tally) (scan : Scan) :
    (scan.settle q cancelled tally).1.isHolding = false := by
  cases scan with
  | holding site rest handed =>
    simp only [settle]
    split
    · rfl
    · split <;> rfl
  | asking => rfl
  | finished => rfl
  | failed => rfl

end Scan

/-- An inquiry during which nothing happens to the run. -/
def Inquiry.undisturbed (q : Inquiry) : Inquiry := { q with disturbance := .none }

/-- A request that meets neither a failure nor a cancellation is served from the list alone. -/
theorem Scan.request_undisturbed {q : Inquiry} (hx : ∀ r, q.disturbance.fails r = false)
    {part : UsageSection} {feed : Feed} {scan : Scan}
    (hc : (scan.request q part feed).2.token.isCancelled = false) :
    (scan.request q.undisturbed part {}).1 = (scan.request q part feed).1 := by
  cases scan with
  | asking rest handed =>
    have hserves : ∀ r, q.undisturbed.disturbance.fails r = false := fun _ => rfl
    have hquiet : ∀ r, (q.undisturbed.disturbance.touch r .live).isCancelled = false := fun _ => rfl
    simp only [request, hx, hserves, Bool.false_eq_true, if_false] at hc ⊢
    have hlive : (q.disturbance.touch ⟨q.declarationId, part, handed, feed.handedOut⟩
        feed.token).isCancelled = false := by
      split at hc <;> exact hc
    rw [hlive, hquiet]
    cases nextSite false rest <;> rfl
  | holding => rfl
  | finished => rfl
  | failed => rfl

/-- Without cancellations a request leaves the token as it is. -/
theorem Scan.token_request {q : Inquiry} (hq : ∀ r, q.disturbance.cancels r = false)
    (part : UsageSection) (feed : Feed) (scan : Scan) :
    (scan.request q part feed).2.token = feed.token := by
  cases scan with
  | asking rest handed =>
    simp only [request, Disturbance.touch, hq, Bool.false_eq_true, if_false]
    split
    · rfl
    · split <;> rfl
  | holding => rfl
  | finished => rfl
  | failed => rfl

/-! ## Both scans -/

namespace Scans

/-- A move that is not out of turn. The ordinary scan requests first, and both have to request before
either settles. -/
def InTurn (s : Scans) : Move → Prop
  | .request .ordinary => ¬ (s.ordinary.isAsking = true ∧ s.functional.isHolding = true)
  | .request .functional => ¬ (s.ordinary.isAsking = true ∧ s.functional.isAsking = true)
  | .settle .ordinary => ¬ (s.ordinary.isHolding = true ∧ s.functional.isAsking = true)
  | .settle .functional => ¬ (s.ordinary.isHolding = true ∧ s.functional.isHolding = true)

/-- The move that is due. -/
def turn (s : Scans) : Move :=
  match s.ordinary, s.functional with
  | .asking _ _, .holding _ _ _ => .settle .functional
  | .asking _ _, _ => .request .ordinary
  | .holding _ _ _, .asking _ _ => .request .functional
  | .holding _ _ _, _ => .settle .ordinary
  | _, .asking _ _ => .request .functional
  | _, _ => .settle .functional

/-- The scans without what they share with the rest of the run. -/
def forgetFeed (s : Scans) : Scans := { s with feed := {} }

/-- The scans after the move that is due, when nothing happens to the run. -/
def advance (q : Inquiry) (s : Scans) : Scans := (s.move q.undisturbed s.turn).forgetFeed

variable {q : Inquiry} {s s' s'' : Scans}

/-- Of the moves that are not out of turn, only the one that is due changes anything. -/
theorem move_eq_self_or_eq_turn {m : Move} (h : s.InTurn m) : s.move q m = s ∨ m = s.turn := by
  obtain ⟨ordinary, functional, tally, feed⟩ := s
  -- every pair of scans is either out of turn for the move, unmoved by it, or has it due
  rcases m with (_ | _) | (_ | _) <;> cases ordinary <;> cases functional <;>
    first
    | exact Or.inl rfl
    | exact Or.inr rfl
    | exact absurd ⟨rfl, rfl⟩ h

/-- When nothing happens to the run, a move does not depend on what the scans share with it. -/
theorem forgetFeed_move (hx : ∀ r, q.disturbance.fails r = false) {m : Move}
    (hc : (s.move q m).feed.token.isCancelled = false) :
    (s.move q m).forgetFeed = (s.forgetFeed.move q.undisturbed m).forgetFeed := by
  rcases m with (_ | _) | (_ | _)
  · have h := Scan.request_undisturbed hx hc
    exact congrArg (fun scan => (⟨scan, s.functional, s.tally, {}⟩ : Scans)) h.symm
  · have h := Scan.request_undisturbed hx hc
    exact congrArg (fun scan => (⟨s.ordinary, scan, s.tally, {}⟩ : Scans)) h.symm
  · have hlive : s.feed.token.isCancelled = false := hc
    simp only [move, settle, forgetFeed, hlive]
    rfl
  · have hlive : s.feed.token.isCancelled = false := hc
    simp only [move, settle, forgetFeed, hlive]
    rfl

theorem advance_of_not_isLive (h : s.isLive = false) : s.forgetFeed.advance q = s.forgetFeed := by
  obtain ⟨ordinary, functional, tally, feed⟩ := s
  cases ordinary <;> cases functional <;> first | rfl | cases h

theorem token_move (hq : ∀ r, q.disturbance.cancels r = false) (s : Scans) (m : Move) :
    (s.move q m).feed.token = s.feed.token := by
  rcases m with (_ | _) | (_ | _)
  · exact Scan.token_request hq .ordinary s.feed s.ordinary
  · exact Scan.token_request hq .functional s.feed s.functional
  · rfl
  · rfl

theorem token_play (hq : ∀ r, q.disturbance.cancels r = false) (s : Scans) (moves : List Move) :
    (s.play q moves).feed.token = s.feed.token := by
  induction moves generalizing s with
  | nil => rfl
  | cons m moves ih => exact (ih _).trans (token_move hq s m)

theorem token_run (hq : ∀ r, q.disturbance.cancels r = false) (s : Scans) :
    (s.run q).feed.token = s.feed.token := by
  obtain ⟨moves, hplay⟩ := s.exists_play_eq_run q
  rw [← hplay, token_play hq]

/-! ## The path of the scans -/

/-- Taking turns leads from one state of the scans to the other, when nothing happens to the run. -/
def Precedes (q : Inquiry) (s s' : Scans) : Prop :=
  ∃ moves, s'.forgetFeed = (advance q)^[moves] s.forgetFeed

theorem Precedes.refl (q : Inquiry) (s : Scans) : Precedes q s s := ⟨0, rfl⟩

theorem Precedes.trans (h : Precedes q s s') (h' : Precedes q s' s'') : Precedes q s s'' := by
  obtain ⟨moves, hm⟩ := h
  obtain ⟨moves', hm'⟩ := h'
  exact ⟨moves' + moves, by rw [Function.iterate_add_apply, ← hm, hm']⟩

/-- A move in its turn is a step of the path, or none. -/
theorem Precedes.of_move (hx : ∀ r, q.disturbance.fails r = false) {m : Move} (hm : s.InTurn m)
    (hc : (s.move q m).feed.token.isCancelled = false) : Precedes q s (s.move q m) := by
  rcases move_eq_self_or_eq_turn (q := q) hm with heq | rfl
  · rw [heq]
    exact .refl q s
  · exact ⟨1, forgetFeed_move hx hc⟩

/-- The path has one end. -/
theorem Precedes.eq_of_not_isLive (h : Precedes q s s') (h' : Precedes q s s'')
    (hl : s'.isLive = false) (hl' : s''.isLive = false) : s'.forgetFeed = s''.forgetFeed := by
  obtain ⟨moves, hm⟩ := h
  obtain ⟨moves', hm'⟩ := h'
  -- where the shorter path has ended, the longer one rests
  rcases Nat.le_total moves moves' with hle | hle
  · rw [hm', ← Nat.sub_add_cancel hle, Function.iterate_add_apply, ← hm,
      Function.iterate_fixed (advance_of_not_isLive hl)]
  · rw [hm, ← Nat.sub_add_cancel hle, Function.iterate_add_apply, ← hm',
      Function.iterate_fixed (advance_of_not_isLive hl')]

/-! ## Rounds -/

theorem isCancelled_move (q : Inquiry) (m : Move) (h : s.feed.token.isCancelled = true) :
    (s.move q m).feed.token.isCancelled = true := by
  rcases m with (_ | _) | (_ | _)
  · exact Scan.isCancelled_request q .ordinary h s.ordinary
  · exact Scan.isCancelled_request q .functional h s.functional
  · exact h
  · exact h

theorem isCancelled_play (q : Inquiry) (moves : List Move) (h : s.feed.token.isCancelled = true) :
    (s.play q moves).feed.token.isCancelled = true := by
  induction moves generalizing s with
  | nil => exact h
  | cons m moves ih => exact ih (isCancelled_move q m h)

theorem isCancelled_run (q : Inquiry) (h : s.feed.token.isCancelled = true) :
    (s.run q).feed.token.isCancelled = true := by
  obtain ⟨moves, hplay⟩ := s.exists_play_eq_run q
  rw [← hplay]
  exact isCancelled_play q moves h

/-- Between two rounds no scan holds a site. -/
def IsBetweenRounds (s : Scans) : Prop :=
  s.ordinary.isHolding = false ∧ s.functional.isHolding = false

theorem isBetweenRounds_start (ordinary : List UsageSite) (functional : Option (List UsageSite))
    (floor : Level) (feed : Feed) : (start ordinary functional floor feed).IsBetweenRounds :=
  ⟨rfl, by cases functional <;> rfl⟩

theorem isBetweenRounds_round (q : Inquiry) (s : Scans) : (s.round q).IsBetweenRounds :=
  ⟨Scan.isHolding_settle _ _ _ _, Scan.isHolding_settle _ _ _ _⟩

theorem Precedes.round (hx : ∀ r, q.disturbance.fails r = false) (hb : s.IsBetweenRounds)
    (hc : (s.round q).feed.token.isCancelled = false) : Precedes q s (s.round q) := by
  let requested := s.request q .ordinary
  let held := requested.request q .functional
  let settled := held.settle q .ordinary
  -- a token that is live after the round was live all along
  have hheld : held.feed.token.isCancelled = false := hc
  have hrequested : requested.feed.token.isCancelled = false := by
    rw [← Bool.not_eq_true] at hheld ⊢
    exact fun h => hheld (isCancelled_move q (.request .functional) h)
  have first : Precedes q s requested := .of_move (m := .request .ordinary) hx
    (fun h => absurd h.2 (by simp [hb.2])) hrequested
  have second : Precedes q requested held := .of_move (m := .request .functional) hx
    (fun h => absurd h.1 (by simp [requested, request, Scan.isAsking_request])) hheld
  have third : Precedes q held settled := .of_move (m := .settle .ordinary) hx
    (fun h => absurd h.2 (by simp [held, request, Scan.isAsking_request])) hheld
  have fourth : Precedes q settled (s.round q) := .of_move (m := .settle .functional) hx
    (fun h => absurd h.1 (by simp [settled, settle, Scan.isHolding_settle])) hheld
  exact ((first.trans second).trans third).trans fourth

/-- A run follows the path of the scans to its end. -/
theorem Precedes.run (hx : ∀ r, q.disturbance.fails r = false) (hb : s.IsBetweenRounds)
    (hc : (s.run q).feed.token.isCancelled = false) : Precedes q s (s.run q) := by
  fun_induction Scans.run q s with
  | case1 s _ ih =>
    have hround : (s.round q).feed.token.isCancelled = false := by
      rw [← Bool.not_eq_true] at hc ⊢
      exact fun h => hc (isCancelled_run q h)
    exact (Precedes.round hx hb hround).trans (ih (isBetweenRounds_round q s) hc)
  | case2 s _ => exact .refl q s

end Scans

end LeastAccess
