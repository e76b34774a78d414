import LeastAccess.Analysis
import LeastAccess.Pool

/-!
# Schedules

A run with several workers, move by move. A worker takes the next declaration, its scans move, a
resolution is concluded from them and later recorded, and between any two of these acts another worker may
act or the run be cancelled. Nothing but the number of workers restricts the order; an act that does not fit
the state changes nothing.

What a run with several workers can answer is what some schedule records.

Main statements: `Scans.exists_play_eq_run` (taking turns is one order of the moves),
`exists_play_eq_conclude` (a task comes to its end while the others stay as they are) and
`exists_play_eq_progress` (one declaration after the other is one schedule).
-/

namespace LeastAccess

/-! ## Moves of scans -/

namespace Scans

/-- A move of one of the scans. -/
inductive Move where
  | request (part : UsageSection)
  | settle (part : UsageSection)

/-- The scans after a move. -/
def move (q : Inquiry) (s : Scans) : Move → Scans
  | .request part => s.request q part
  | .settle part => s.settle q part

/-- The scans after moves in any order. -/
def play (q : Inquiry) (s : Scans) (moves : List Move) : Scans := moves.foldl (move q) s

theorem play_append (q : Inquiry) (s : Scans) (moves more : List Move) :
    s.play q (moves ++ more) = (s.play q moves).play q more :=
  List.foldl_append

theorem round_eq_play (q : Inquiry) (s : Scans) :
    s.round q =
      s.play q [.request .ordinary, .request .functional, .settle .ordinary, .settle .functional] :=
  rfl

/-- Scans that take turns until both have stopped make some moves in some order. -/
theorem exists_play_eq_run (q : Inquiry) (s : Scans) : ∃ moves, s.play q moves = s.run q := by
  fun_induction run q s with
  | case1 s _ ih =>
    obtain ⟨moves, h⟩ := ih
    exact ⟨_ ++ moves, by rw [play_append, ← round_eq_play, h]⟩
  | case2 s _ => exact ⟨[], rfl⟩

theorem isLive_run (q : Inquiry) (s : Scans) : (s.run q).isLive = false := by
  fun_induction run q s with
  | case1 s _ ih => exact ih
  | case2 s h => simpa using h

end Scans

/-! ## Tasks -/

/-- What a worker is at. -/
inductive Task where
  /-- The scans of a declaration, with what its screening answered. -/
  | scanning (declaration : Declaration) (access : Level) (container : Option Declaration)
      (floor : Option Level) (scans : Scans)
  /-- A finding that is not recorded yet. -/
  | concluded (finding : Finding)

namespace Task

/-- A worker takes a declaration. -/
def start (c : Codebase) (p : Policy) (d : Declaration) (feed : Feed) : Task :=
  if feed.token.isCancelled then .concluded ⟨d, .cancelled⟩
  else
    match screen c.graph p d with
    | .settled resolution => .concluded ⟨d, resolution⟩
    | .scan access container floor => .scanning d access container floor (c.scansOf d floor feed)

/-- One of the scans moves; `feed` is what the tasks share. -/
def move (c : Codebase) (p : Policy) (x : Disturbance) (feed : Feed) (m : Scans.Move) : Task → Task × Feed
  | .scanning d access container floor scans =>
    let scans := { scans with feed }.move (c.inquiry p.options x d container) m
    (.scanning d access container floor scans, scans.feed)
  | task => (task, feed)

/-- Concludes from scans that have stopped, or of which one has failed. -/
def conclude (p : Policy) (feed : Feed) : Task → Task
  | .scanning d access container floor scans =>
    if scans.isLive && !scans.hasFailed then .scanning d access container floor scans
    else
      .concluded
        ⟨d, LeastAccess.conclude p.options d access container floor.isSome { scans with feed }⟩
  | task => task

/-- The finding of a task that has one. -/
def finding? : Task → Option Finding
  | .concluded finding => some finding
  | _ => none

end Task

/-! ## Acts -/

/-- A run under way: the declarations that no worker has taken, the tasks, what is recorded, and what all
scans share. -/
structure Schedule where
  queue : List Declaration
  tasks : List Task := []
  findings : Findings := []
  feed : Feed

namespace Schedule

/-- What can happen next; tasks are named by their places. -/
inductive Act where
  | take
  | move (task : Nat) (move : Scans.Move)
  | conclude (task : Nat)
  | record (task : Nat)
  | cancel (reason : Option String)

/-- What is analysed, and how many workers there are. -/
structure Setting where
  codebase : Codebase
  policy : Policy
  disturbance : Disturbance
  workers : Nat

/-- The state after an act. -/
def act (e : Setting) (s : Schedule) : Act → Schedule
  | .take =>
    match s.queue with
    | [] => s
    | d :: queue =>
      if s.tasks.length < e.workers then
        { s with queue, tasks := s.tasks ++ [.start e.codebase e.policy d s.feed] }
      else s
  | .move i m =>
    match s.tasks[i]? with
    | some task =>
      let (task, feed) := task.move e.codebase e.policy e.disturbance s.feed m
      { s with tasks := s.tasks.set i task, feed }
    | none => s
  | .conclude i =>
    match s.tasks[i]? with
    | some task => { s with tasks := s.tasks.set i (task.conclude e.policy s.feed) }
    | none => s
  | .record i =>
    match s.tasks[i]?.bind Task.finding? with
    | some finding => { s with tasks := s.tasks.eraseIdx i, findings := s.findings ++ [finding] }
    | none => s
  | .cancel reason => { s with feed := { s.feed with token := s.feed.token.cancel reason } }

/-- The state after acts in any order. -/
def play (e : Setting) (s : Schedule) (acts : List Act) : Schedule := acts.foldl (act e) s

/-- The state before the first act. -/
def start (e : Setting) (feed : Feed) : Schedule := { queue := e.codebase.graph.declarations, feed }

/-- Whether every declaration was taken and every task recorded. -/
def isComplete (s : Schedule) : Bool := s.queue.isEmpty && s.tasks.isEmpty

/-- What the run answers. -/
def report (e : Setting) (s : Schedule) : Report :=
  .ofFindings e.codebase.graph s.feed.token.isCancelled s.findings

theorem play_append (e : Setting) (s : Schedule) (acts more : List Act) :
    s.play e (acts ++ more) = (s.play e acts).play e more :=
  List.foldl_append

/-! ## One task to its end -/

section

variable (e : Setting) {s : Schedule} {i : Nat} {d : Declaration} {access : Level}
  {container : Option Declaration} {floor : Option Level} {scans : Scans}

/-- The moves of a task are those of its scans, while the other tasks stay as they are. -/
theorem exists_play_map_move (h : s.tasks[i]? = some (.scanning d access container floor scans))
    (moves : List Scans.Move) :
    let moved := Scans.play (e.codebase.inquiry e.policy.options e.disturbance d container)
      { scans with feed := s.feed } moves
    ∃ feed, s.play e (moves.map (.move i)) =
      { s with
        tasks := s.tasks.set i (.scanning d access container floor { moved with feed })
        feed := moved.feed } := by
  obtain ⟨hlt, heq⟩ := List.getElem?_eq_some_iff.mp h
  induction moves generalizing s scans with
  | nil =>
    refine ⟨scans.feed, ?_⟩
    show s = { s with tasks := s.tasks.set i (.scanning d access container floor scans) }
    rw [← heq, List.set_getElem_self]
  | cons m moves ih =>
    let moved := Scans.move (e.codebase.inquiry e.policy.options e.disturbance d container)
      { scans with feed := s.feed } m
    let next : Schedule :=
      { s with tasks := s.tasks.set i (.scanning d access container floor moved), feed := moved.feed }
    have hact : s.act e (.move i m) = next := by
      simp only [act, h]
      rfl
    have hlt' : i < next.tasks.length := by simpa [next] using hlt
    have hget : next.tasks[i] = .scanning d access container floor moved := List.getElem_set_self _
    obtain ⟨feed, hplay⟩ := ih (List.getElem?_eq_some_iff.mpr ⟨hlt', hget⟩) hlt' hget
    refine ⟨feed, ?_⟩
    show (s.act e (.move i m)).play e (moves.map (.move i)) = _
    rw [hact, hplay]
    simp only [next, List.set_set]
    rfl

/-- A task can take turns with its scans and record what they lead to, while the other tasks stay as they
are. -/
theorem exists_play_eq_conclude (h : s.tasks[i]? = some (.scanning d access container floor scans)) :
    let stopped := Scans.run (e.codebase.inquiry e.policy.options e.disturbance d container)
      { scans with feed := s.feed }
    ∃ acts, s.play e acts =
      { s with
        tasks := s.tasks.eraseIdx i
        findings := s.findings ++
          [⟨d, LeastAccess.conclude e.policy.options d access container floor.isSome stopped⟩]
        feed := stopped.feed } := by
  intro stopped
  obtain ⟨hlt, -⟩ := List.getElem?_eq_some_iff.mp h
  obtain ⟨moves, hmoves⟩ := Scans.exists_play_eq_run
    (e.codebase.inquiry e.policy.options e.disturbance d container) { scans with feed := s.feed }
  obtain ⟨feed, hplay⟩ := exists_play_map_move e h moves
  have hlive : stopped.isLive = false := Scans.isLive_run _ _
  have hconclude : Task.conclude e.policy stopped.feed (.scanning d access container floor { stopped with feed }) =
      .concluded ⟨d, LeastAccess.conclude e.policy.options d access container floor.isSome stopped⟩ := by
    have hlive' : ({ stopped with feed } : Scans).isLive = false := hlive
    rw [Task.conclude, hlive']
    rfl
  refine ⟨moves.map (.move i) ++ [.conclude i, .record i], ?_⟩
  rw [hmoves] at hplay
  rw [play_append, hplay]
  change Schedule.play e { s with
    tasks := s.tasks.set i (.scanning d access container floor { stopped with feed }), feed := stopped.feed } _ = _
  simp [play, act, hlt, hconclude, Task.finding?, List.eraseIdx_set_eq]

end

/-! ## One declaration after the other -/

/-- A single worker can deal with a declaration as a step of the sequential run does. -/
theorem exists_play_eq_step (e : Setting) (h : 0 < e.workers) (d : Declaration) (queue : List Declaration)
    (s : Analysis.Progress) :
    let next := Analysis.step e.codebase e.policy e.disturbance s d
    ∃ acts, play e ⟨d :: queue, [], s.findings, s.feed⟩ acts = ⟨queue, [], next.findings, next.feed⟩ := by
  have taken : act e ⟨d :: queue, [], s.findings, s.feed⟩ .take =
      ⟨queue, [.start e.codebase e.policy d s.feed], s.findings, s.feed⟩ := by
    simp [act, h]
  unfold Task.start at taken
  unfold Analysis.step resolve
  split
  · next cancelled =>
    rw [if_pos cancelled] at taken
    exact ⟨[.take, .record 0], by rw [play, List.foldl_cons, taken]; rfl⟩
  · next live =>
    rw [if_neg live] at taken
    cases screened : screen e.codebase.graph e.policy d with
    | settled resolution =>
      rw [screened] at taken
      exact ⟨[.take, .record 0], by rw [play, List.foldl_cons, taken]; rfl⟩
    | scan access container floor =>
      rw [screened] at taken
      let started : Schedule :=
        ⟨queue, [.scanning d access container floor (e.codebase.scansOf d floor s.feed)], s.findings, s.feed⟩
      have hget : started.tasks[0]? =
          some (.scanning d access container floor (e.codebase.scansOf d floor s.feed)) := rfl
      obtain ⟨acts, played⟩ := exists_play_eq_conclude e hget
      exact ⟨.take :: acts, by rw [play, List.foldl_cons, taken]; exact played⟩

/-- One worker that deals with a declaration after the other follows a schedule, whatever the number of
workers. -/
theorem exists_play_eq_progress (e : Setting) (h : 0 < e.workers) (feed : Feed) :
    let progress := Analysis.progress e.codebase e.policy e.disturbance feed
    ∃ acts, (start e feed).play e acts = ⟨[], [], progress.findings, progress.feed⟩ := by
  have key : ∀ (ds : List Declaration) (s : Analysis.Progress),
      let progress := ds.foldl (Analysis.step e.codebase e.policy e.disturbance) s
      ∃ acts, play e ⟨ds, [], s.findings, s.feed⟩ acts = ⟨[], [], progress.findings, progress.feed⟩ := by
    intro ds
    induction ds with
    | nil => exact fun s => ⟨[], rfl⟩
    | cons d ds ih =>
      intro s
      obtain ⟨first, hfirst⟩ := exists_play_eq_step e h d ds s
      obtain ⟨rest, hrest⟩ := ih (Analysis.step e.codebase e.policy e.disturbance s d)
      exact ⟨first ++ rest, by rw [play_append, hfirst, hrest]; rfl⟩
  exact key e.codebase.graph.declarations { feed }

end Schedule

end LeastAccess
