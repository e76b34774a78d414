import LeastAccess.Binary64.Shortest
import LeastAccess.Failure
import LeastAccess.Pool
import LeastAccess.Report
import LeastAccess.Resolver
import LeastAccess.Timetable

/-!
# Analysis runs

A run resolves the declarations in document order and reports on them. A declaration whose turn comes after
a cancellation is marked cancelled without a look at it. The number of declarations that may be resolved at
the same time must be a positive whole number. What is found about a declaration does not depend on it, only
the order in which the findings are recorded does: a declaration takes as many turns as its scans need. That
order shows where two declarations share an id, since the finding that is recorded last counts.

Main statements: `findings_map_declaration` (one finding a declaration, in document order),
`recorded_perm` (all of them are recorded) and `recorded_one` (a single worker records them in that order).
-/

namespace LeastAccess

/-! ## The number of workers -/

/-- Why an analysis cannot be set up. -/
inductive AnalysisError where
  | badConcurrency (value : Binary64)
  /-- The number of workers is no number; how it was asked for. -/
  | noNumber (asked : String)
  deriving DecidableEq

namespace AnalysisError

/-- What was asked for. -/
def asked : AnalysisError → Json
  | .badConcurrency value => .number value
  | .noNumber asked => .text asked

/-- What was asked for, in running text. -/
def askedText : AnalysisError → String
  | .badConcurrency value => value.text
  | .noNumber asked => asked

def toFailure (e : AnalysisError) : Failure where
  kind := .analysis
  code := .invalidArgument
  message := "Concurrency must be a positive integer, got " ++ e.askedText
  context := some (.object [("concurrency", e.asked)])

end AnalysisError

namespace Analysis

/-- The number of workers when none is given. -/
def defaultConcurrency : Binary64 := .ofNat 4

/-- Refuses a number of workers that is no whole number or is less than one. -/
def checkConcurrency (value : Binary64) : Except AnalysisError Unit :=
  if !value.isInteger || value.lt .one then .error (.badConcurrency value) else .ok ()

/-! ## Runs -/

/-- What happens in a run. -/
inductive Event where
  | started (declarations : Nat) (concurrency : Binary64)
  | resolving (declaration : Declaration) (event : ResolverEvent)
  | withdrew (id : String)
  | completed (stats : Stats)
  | stopped (stats : Stats) (reason : Option String)

/-- A run under way. -/
structure Progress where
  feed : Feed
  findings : Findings := []
  /-- How many turns each finding took. -/
  turns : List Nat := []
  events : List Event := []

/-- The turn of a declaration. -/
def step (c : Codebase) (p : Policy) (x : Disturbance) (s : Progress) (d : Declaration) : Progress :=
  if s.feed.token.isCancelled then
    { s with findings := s.findings ++ [⟨d, .cancelled⟩], turns := s.turns ++ [0] }
  else
    let outcome := resolve c p x d s.feed
    { feed := outcome.feed
      findings := s.findings ++ [⟨d, outcome.resolution⟩]
      turns := s.turns ++ [outcome.turns]
      events := s.events ++ outcome.events.map (.resolving d) }

/-- The turns of all declarations. -/
def progress (c : Codebase) (p : Policy) (x : Disturbance) (feed : Feed) : Progress :=
  c.graph.declarations.foldl (step c p x) { feed }

/-- The findings in the order in which some number of workers records them. -/
def Progress.recorded (s : Progress) (workers : Nat) : Findings :=
  Timetable.completionOrder workers (s.findings.zip s.turns)

/-- A finished run. -/
structure Run where
  report : Report
  feed : Feed
  events : List Event

/-- The last event. -/
def closingEvent (report : Report) (token : Token) : Event :=
  if report.cancelled then .stopped report.stats token.reason? else .completed report.stats

/-- Analyses a codebase. -/
def run (c : Codebase) (p : Policy) (x : Disturbance) (concurrency : Binary64) (feed : Feed) : Run :=
  let s := progress c p x feed
  let recorded := s.recorded (workerCount concurrency c.graph.declarations.length)
  let report := Report.ofFindings c.graph s.feed.token.isCancelled recorded
  { report
    feed := s.feed
    events := .started c.graph.declarations.length concurrency :: s.events ++
      report.withdrawn.map .withdrew ++ [closingEvent report s.feed.token] }

theorem step_findings (c : Codebase) (p : Policy) (x : Disturbance) (s : Progress) (d : Declaration) :
    ∃ r, (step c p x s d).findings = s.findings ++ [⟨d, r⟩] := by
  unfold step
  split
  · exact ⟨_, rfl⟩
  · exact ⟨_, rfl⟩

/-- Every declaration gets one finding, in document order. -/
theorem findings_map_declaration (c : Codebase) (p : Policy) (x : Disturbance) (feed : Feed) :
    (progress c p x feed).findings.map (·.declaration) = c.graph.declarations := by
  have key : ∀ (ds : List Declaration) (s : Progress),
      (ds.foldl (step c p x) s).findings.map (·.declaration) = s.findings.map (·.declaration) ++ ds := by
    intro ds
    induction ds with
    | nil => simp
    | cons d rest ih =>
      intro s
      obtain ⟨r, hr⟩ := step_findings c p x s d
      rw [List.foldl_cons, ih, hr, List.map_append, List.append_assoc]
      rfl
  exact key c.graph.declarations { feed }

/-- It is known of every finding how many turns it took. -/
theorem map_fst_zip_turns (c : Codebase) (p : Policy) (x : Disturbance) (feed : Feed) :
    let s := progress c p x feed
    (s.findings.zip s.turns).map (·.1) = s.findings := by
  have key : ∀ (ds : List Declaration) (s : Progress), s.turns.length = s.findings.length →
      (ds.foldl (step c p x) s).turns.length = (ds.foldl (step c p x) s).findings.length := by
    intro ds
    induction ds with
    | nil => exact fun _ h => h
    | cons d rest ih =>
      intro s h
      refine ih (step c p x s d) ?_
      unfold step
      split <;> simp [h]
  exact List.map_fst_zip (Nat.le_of_eq (key c.graph.declarations { feed } rfl).symm)

/-- Every finding is recorded once, whatever the number of workers. -/
theorem recorded_perm (c : Codebase) (p : Policy) (x : Disturbance) (feed : Feed) (workers : Nat) :
    let s := progress c p x feed
    (s.recorded workers).Perm s.findings := by
  have h := Timetable.completionOrder_perm workers
    ((progress c p x feed).findings.zip (progress c p x feed).turns)
  rwa [map_fst_zip_turns] at h

/-- A single worker records the findings in document order. -/
theorem recorded_one (c : Codebase) (p : Policy) (x : Disturbance) (feed : Feed) :
    let s := progress c p x feed
    s.recorded 1 = s.findings :=
  (Timetable.completionOrder_one _).trans (map_fst_zip_turns c p x feed)

end Analysis

end LeastAccess
