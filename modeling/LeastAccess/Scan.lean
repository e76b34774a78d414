import LeastAccess.Accumulator
import LeastAccess.UsageIndex

/-!
# Scanning the usages of a declaration

A declaration has one scan of its ordinary usages, and a functional type a second one. A scan alternates
between two moves: it requests a site, and it settles the site it holds. Settling drops the site if the run
was cancelled or the shared accumulator is saturated, and otherwise judges and joins it; a scan that finds
or brings about saturation stops. Between moves the other scan may move.

Time is counted in turns, which pass while a scan waits for the index. How many a scan takes depends on the
sites it was handed and on the way it stops.

`Scans.run` lets the live scans take turns: in each round all of them request, then all settle. A round
that starts with a live scan makes the weight of the scans smaller, which is why `run` ends.

A `Disturbance` says at which requests the run is cancelled and at which the index fails; a cancellation
takes effect before the request is served, and before the index can fail.

Main statements: `Scan.weight_settle_request` and `Scans.weight_round_lt`.
-/

namespace LeastAccess

/-! ## Requests -/

/-- What a scan tells when it asks for a site: whose usages, which scan, how many sites this scan was
handed, and how many all scans of the run were. -/
structure Request where
  declarationId : String
  part : UsageSection
  handed : Nat
  total : Nat

/-- What befalls the requests of a run. -/
structure Disturbance where
  /-- The run is cancelled at this request. -/
  cancels : Request → Bool
  /-- Why it is cancelled. -/
  reason : Option String := none
  /-- The index fails at this request. -/
  fails : Request → Bool
  /-- What it says then. -/
  complaint : String := ""

namespace Disturbance

/-- Nothing happens. -/
def none : Disturbance where
  cancels _ := false
  fails _ := false

/-- A limit on the sites handed out, at which the run is cancelled, and a number of sites after which a
scan that asks for more fails. -/
def ofLimits (siteLimit failAfter : Option Nat) (reason complaint : String) : Disturbance where
  cancels r := siteLimit.any fun n => 0 < r.handed && n ≤ r.total
  reason := some reason
  fails r := failAfter == some r.handed
  complaint := complaint

/-- The token when a request has been made. -/
def touch (d : Disturbance) (r : Request) (token : Token) : Token :=
  if d.cancels r then token.cancel d.reason else token

end Disturbance

/-- What the scans of a run share: its token and the number of sites handed out. -/
structure Feed where
  token : Token := .live
  handedOut : Nat := 0

/-- A usage site that was looked at, with the level it requires. -/
structure Visit where
  site : UsageSite
  level : Level

/-- The shared accumulator, and the visits in order. -/
structure Tally where
  accumulator : Accumulator
  visits : List Visit := []

namespace Tally

/-- Looks at a site. -/
def add (t : Tally) (v : Visit) : Tally :=
  ⟨(t.accumulator.visit).accumulate v.level, t.visits ++ [v]⟩

end Tally

/-- Whose usages are scanned, how a site is judged, and what befalls the requests. -/
structure Inquiry where
  declarationId : String
  judge : UsageSite → Level
  disturbance : Disturbance

/-! ## One scan -/

/-- The state of a scan. `handed` counts the sites it was given. A scan that has stopped knows how many
turns it took. -/
inductive Scan where
  | asking (rest : List UsageSite) (handed : Nat)
  | holding (site : UsageSite) (rest : List UsageSite) (handed : Nat)
  | finished (turns : Nat)
  | failed (turns : Nat)

namespace Scan

/-- A scan that has not moved yet. -/
def start (sites : List UsageSite) : Scan := .asking sites 0

/-- The turns in which a scan is handed some sites. A site takes two turns to leave the index, and two more
to reach the scan. -/
def turnsFor (handed : Nat) : Nat := 4 * handed

/-- The turns of a scan that hears of the end of the list. -/
def turnsToEnd (handed : Nat) : Nat := turnsFor handed + 2

/-- The turns of a scan that tells the index to keep the rest. -/
def turnsToLeave (handed : Nat) : Nat := turnsFor handed + 4

/-- The turns of a scan that hears of a failure; where a list was begun, it has to be closed first. -/
def turnsToFail (handed : Nat) : Nat := if handed = 0 then 1 else turnsFor handed + 3

/-- Asks the index for a site. -/
def request (q : Inquiry) (part : UsageSection) (feed : Feed) : Scan → Scan × Feed
  | .asking rest handed =>
    let r : Request := ⟨q.declarationId, part, handed, feed.handedOut⟩
    let token := q.disturbance.touch r feed.token
    if q.disturbance.fails r then (.failed (turnsToFail handed), { feed with token })
    else
      match nextSite token.isCancelled rest with
      | none => (.finished (turnsToEnd handed), { feed with token })
      | some (site, rest) => (.holding site rest (handed + 1), ⟨token, feed.handedOut + 1⟩)
  | scan => (scan, feed)

/-- Deals with the site the scan holds. -/
def settle (q : Inquiry) (cancelled : Bool) (tally : Tally) : Scan → Scan × Tally
  | .holding site rest handed =>
    if cancelled || tally.accumulator.saturated then (.finished (turnsToLeave handed), tally)
    else
      let tally := tally.add ⟨site, q.judge site⟩
      if tally.accumulator.saturated then (.finished (turnsToLeave handed), tally)
      else (.asking rest handed, tally)
  | scan => (scan, tally)

def isLive : Scan → Bool
  | .asking _ _ => true
  | .holding _ _ _ => true
  | _ => false

def hasFailed : Scan → Bool
  | .failed _ => true
  | _ => false

/-- The turns of a scan so far, without those it still waits for. -/
def turns : Scan → Nat
  | .asking _ handed => turnsFor handed
  | .holding _ _ handed => turnsFor handed
  | .finished turns => turns
  | .failed turns => turns

/-- How many moves the scan can still make, counted in rounds. -/
def weight : Scan → Nat
  | .asking rest _ => rest.length + 1
  | .holding _ rest _ => rest.length + 2
  | _ => 0

theorem weight_request_le (q : Inquiry) (part : UsageSection) (feed : Feed) (scan : Scan) :
    (scan.request q part feed).1.weight ≤ scan.weight := by
  cases scan with
  | asking rest handed =>
    simp only [request]
    split
    · exact Nat.zero_le _
    · split
      · exact Nat.zero_le _
      · next h => exact eq_cons_of_nextSite h ▸ Nat.le_refl _
  | holding => exact Nat.le_refl _
  | finished => exact Nat.le_refl _
  | failed => exact Nat.le_refl _

/-- After a request the scan asks no more: it holds a site or has stopped. -/
theorem request_ne_asking (q : Inquiry) (part : UsageSection) (feed : Feed) (scan : Scan)
    (rest : List UsageSite) (handed : Nat) :
    (scan.request q part feed).1 ≠ .asking rest handed := by
  cases scan with
  | asking rest' handed' =>
    simp only [request]
    split
    · exact nofun
    · split <;> exact nofun
  | holding => exact nofun
  | finished => exact nofun
  | failed => exact nofun

theorem weight_settle_le (q : Inquiry) (cancelled : Bool) (tally : Tally) (scan : Scan) :
    (scan.settle q cancelled tally).1.weight ≤ scan.weight := by
  cases scan with
  | holding site rest handed =>
    simp only [settle]
    split
    · exact Nat.zero_le _
    · split
      · exact Nat.zero_le _
      · exact Nat.le_succ _
  | asking => exact Nat.le_refl _
  | finished => exact Nat.le_refl _
  | failed => exact Nat.le_refl _

theorem weight_settle_holding (q : Inquiry) (cancelled : Bool) (tally : Tally) (site : UsageSite)
    (rest : List UsageSite) (handed : Nat) :
    ((Scan.holding site rest handed).settle q cancelled tally).1.weight <
      (Scan.holding site rest handed).weight := by
  simp only [settle]
  split
  · exact Nat.succ_pos _
  · split
    · exact Nat.succ_pos _
    · exact Nat.lt_succ_self _

/-- A request followed by settling makes a live scan lighter. -/
theorem weight_settle_request (q : Inquiry) (part : UsageSection) (feed : Feed) (cancelled : Bool)
    (tally : Tally) {scan : Scan} (h : scan.isLive = true) :
    ((scan.request q part feed).1.settle q cancelled tally).1.weight < scan.weight := by
  have hle := weight_request_le q part feed scan
  have hpos : 0 < scan.weight := by cases scan <;> first | exact Nat.succ_pos _ | simp [isLive] at h
  cases hs : (scan.request q part feed).1 with
  | asking rest handed => exact absurd hs (request_ne_asking q part feed scan rest handed)
  | holding site rest handed =>
    exact Nat.lt_of_lt_of_le (weight_settle_holding q cancelled tally site rest handed) (hs ▸ hle)
  | finished => exact hpos
  | failed => exact hpos

end Scan

/-! ## The scans of a declaration -/

/-- Both scans with what they share. -/
structure Scans where
  ordinary : Scan
  functional : Scan
  tally : Tally
  feed : Feed

namespace Scans

/-- The scans before their first move; without a second list the second scan has nothing to do. -/
def start (ordinary : List UsageSite) (functional : Option (List UsageSite)) (floor : Level)
    (feed : Feed) : Scans where
  ordinary := .start ordinary
  functional := match functional with
    | some sites => .start sites
    | none => .finished 0
  tally := ⟨.start floor, []⟩
  feed := feed

/-- A request of one of the scans. -/
def request (q : Inquiry) (s : Scans) : UsageSection → Scans
  | .ordinary =>
    let (scan, feed) := s.ordinary.request q .ordinary s.feed
    { s with ordinary := scan, feed }
  | .functional =>
    let (scan, feed) := s.functional.request q .functional s.feed
    { s with functional := scan, feed }

/-- One of the scans settles. -/
def settle (q : Inquiry) (s : Scans) : UsageSection → Scans
  | .ordinary =>
    let (scan, tally) := s.ordinary.settle q s.feed.token.isCancelled s.tally
    { s with ordinary := scan, tally }
  | .functional =>
    let (scan, tally) := s.functional.settle q s.feed.token.isCancelled s.tally
    { s with functional := scan, tally }

/-- Every live scan requests, ordinary usages first, then every scan settles in the same order. -/
def round (q : Inquiry) (s : Scans) : Scans :=
  let requested := (s.request q .ordinary).request q .functional
  (requested.settle q .ordinary).settle q .functional

def isLive (s : Scans) : Bool := s.ordinary.isLive || s.functional.isLive

def hasFailed (s : Scans) : Bool := s.ordinary.hasFailed || s.functional.hasFailed

/-- The turns until both scans have stopped. They run side by side. -/
def turns (s : Scans) : Nat := max s.ordinary.turns s.functional.turns

def weight (s : Scans) : Nat := s.ordinary.weight + s.functional.weight

theorem weight_round_lt (q : Inquiry) {s : Scans} (h : s.isLive = true) :
    (s.round q).weight < s.weight := by
  have request_le := Scan.weight_request_le q
  have settle_le := Scan.weight_settle_le q
  have lighter := @Scan.weight_settle_request q
  simp only [isLive, Bool.or_eq_true] at h
  simp only [weight, round, request, settle]
  rcases h with h | h
  · exact Nat.add_lt_add_of_lt_of_le (lighter _ _ _ _ h)
      (Nat.le_trans (settle_le _ _ _) (request_le _ _ _))
  · exact Nat.add_lt_add_of_le_of_lt (Nat.le_trans (settle_le _ _ _) (request_le _ _ _))
      (lighter _ _ _ _ h)

/-- Rounds until both scans have stopped. -/
def run (q : Inquiry) (s : Scans) : Scans :=
  if s.isLive then run q (s.round q) else s
  termination_by s.weight
  decreasing_by exact weight_round_lt q (by assumption)

end Scans

end LeastAccess
