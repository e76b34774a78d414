import LeastAccess.Proofs.Scan.Turns
import Mathlib.Data.List.Perm.Basic

/-!
# Invariants of schedules

A property of tasks that every kind of act keeps holds of all tasks at any time, and of what they have
recorded. `Keeps` lists what has to be shown for a property, with the token as the only thing that tasks
have in common. It may use that the moves of scans follow a discipline, such as taking turns.

No act loses or doubles a declaration: it is queued, or a task is at it, or it is recorded.

* `Keeps.play` — what the acts keep, a schedule keeps
* `perm_declarations_play` — every declaration is in one place
-/

namespace LeastAccess

/-! ## Tasks -/

namespace Task

/-- The declaration that a task is at. -/
def declaration : Task → Declaration
  | .scanning d _ _ _ _ => d
  | .concluded finding => finding.declaration

theorem declaration_start (c : Codebase) (p : Policy) (d : Declaration) (feed : Feed) :
    (start c p d feed).declaration = d := by
  unfold start
  split
  · rfl
  · split <;> rfl

theorem declaration_move (c : Codebase) (p : Policy) (x : Disturbance) (feed : Feed) (m : Scans.Move)
    (task : Task) : (task.move c p x feed m).1.declaration = task.declaration := by
  cases task <;> rfl

theorem declaration_conclude (p : Policy) (feed : Feed) (task : Task) :
    (task.conclude p feed).declaration = task.declaration := by
  cases task with
  | scanning =>
    simp only [conclude]
    split <;> rfl
  | concluded => rfl

theorem eq_concluded_of_finding? {task : Task} {finding : Finding} (h : task.finding? = some finding) :
    task = .concluded finding := by
  cases task with
  | scanning => cases h
  | concluded => exact congrArg Task.concluded (Option.some.inj h)

end Task

namespace Schedule

variable {e : Setting} {s : Schedule}

/-! ## Disciplines -/

/-- An act that moves scans only as a discipline admits it. -/
def Admits (discipline : Scans → Scans.Move → Prop) (s : Schedule) : Act → Prop
  | .move i m => ∀ d access container floor scans,
      s.tasks[i]? = some (.scanning d access container floor scans) → discipline scans m
  | _ => True

/-- Acts that move scans only as a discipline admits it. -/
def Follows (e : Setting) (discipline : Scans → Scans.Move → Prop) (s : Schedule) : List Act → Prop
  | [] => True
  | a :: acts => s.Admits discipline a ∧ (s.act e a).Follows e discipline acts

theorem follows_of_forall {discipline : Scans → Scans.Move → Prop} (h : ∀ scans m, discipline scans m)
    (acts : List Act) : s.Follows e discipline acts := by
  induction acts generalizing s with
  | nil => trivial
  | cons a acts ih =>
    refine ⟨?_, ih⟩
    cases a with
    | move i m => exact fun _ _ _ _ scans _ => h scans m
    | _ => trivial

/-! ## Where the declarations are -/

/-- The declarations that are recorded, in work, or queued. -/
def declarations (s : Schedule) : List Declaration :=
  s.findings.map (·.declaration) ++ s.tasks.map (·.declaration) ++ s.queue

theorem map_set_declaration {tasks : List Task} {i : Nat} {task task' : Task}
    (hi : tasks[i]? = some task) (hd : task'.declaration = task.declaration) :
    (tasks.set i task').map (·.declaration) = tasks.map (·.declaration) := by
  obtain ⟨hlt, rfl⟩ := List.getElem?_eq_some_iff.mp hi
  have hlt' : i < (tasks.map (·.declaration)).length := by rwa [List.length_map]
  have hself := List.set_getElem_self hlt'
  rw [List.getElem_map] at hself
  rw [List.map_set, hd, hself]

/-- Only recording changes the order of the declarations. -/
theorem declarations_act (e : Setting) (s : Schedule) {a : Act} (ha : ∀ i, a ≠ .record i) :
    (s.act e a).declarations = s.declarations := by
  cases a with
  | take =>
    simp only [act]
    split
    · rfl
    · next d queue hq =>
      split
      · rw [declarations, declarations, hq]
        simp only [List.map_append, List.map_cons, List.map_nil, Task.declaration_start,
          List.append_assoc, List.cons_append, List.nil_append]
      · rfl
  | move i m =>
    simp only [act]
    split
    · next task hi =>
      have hd := Task.declaration_move e.codebase e.policy e.disturbance s.feed m task
      rw [declarations, declarations, map_set_declaration hi hd]
    · rfl
  | conclude i =>
    simp only [act]
    split
    · next task hi =>
      have hd := Task.declaration_conclude e.policy s.feed task
      rw [declarations, declarations, map_set_declaration hi hd]
    · rfl
  | record i => exact absurd rfl (ha i)
  | cancel => rfl

theorem perm_declarations_act (e : Setting) (s : Schedule) (a : Act) :
    (s.act e a).declarations.Perm s.declarations := by
  by_cases ha : ∀ i, a ≠ .record i
  · exact .of_eq (declarations_act e s ha)
  · obtain ⟨i, hi⟩ := not_forall.mp ha
    obtain rfl := not_not.mp hi
    simp only [act]
    split
    · next finding hf =>
      obtain ⟨task, hi, hfinding⟩ := Option.bind_eq_some_iff.mp hf
      obtain ⟨hlt, rfl⟩ := List.getElem?_eq_some_iff.mp hi
      have hmoved := (List.getElem_cons_eraseIdx_perm hlt).map (·.declaration)
      rw [Task.eq_concluded_of_finding? hfinding] at hmoved
      rw [declarations, declarations]
      simp only [List.map_append, List.append_assoc]
      exact (hmoved.append_right s.queue).append_left _
    · exact .refl _

/-- Every declaration is in one place. -/
theorem perm_declarations_play (e : Setting) (s : Schedule) (acts : List Act) :
    (s.play e acts).declarations.Perm s.declarations := by
  induction acts generalizing s with
  | nil => exact .refl _
  | cons a acts ih => exact (ih _).trans (perm_declarations_act e s a)

/-- At the end every declaration is recorded once. -/
theorem perm_declarations_of_isComplete {feed : Feed} {acts : List Act}
    (h : ((start e feed).play e acts).isComplete = true) :
    (((start e feed).play e acts).findings.map (·.declaration)).Perm e.codebase.graph.declarations := by
  have hperm := perm_declarations_play e (start e feed) acts
  obtain ⟨hqueue, htasks⟩ := Bool.and_eq_true_iff.mp h
  rw [declarations, List.isEmpty_iff.mp hqueue, List.isEmpty_iff.mp htasks] at hperm
  simpa only [List.map_nil, List.append_nil, declarations, start, List.nil_append] using hperm

/-! ## Properties of tasks -/

/-- A property of tasks that all acts keep; it may depend on whether the run was cancelled. -/
structure Keeps (e : Setting) (discipline : Scans → Scans.Move → Prop) (holds : Bool → Task → Prop) :
    Prop where
  mono : ∀ {cancelled cancelled' task}, (cancelled = true → cancelled' = true) →
    holds cancelled task → holds cancelled' task
  start : ∀ d ∈ e.codebase.graph.declarations, ∀ feed,
    holds feed.token.isCancelled (.start e.codebase e.policy d feed)
  move : ∀ {d access container floor scans} (feed : Feed) (m : Scans.Move), discipline scans m →
    holds feed.token.isCancelled (.scanning d access container floor scans) →
      let moved := Task.move e.codebase e.policy e.disturbance feed m
        (.scanning d access container floor scans)
      holds moved.2.token.isCancelled moved.1
  conclude : ∀ {d access container floor scans} (feed : Feed),
    scans.isLive = false ∨ scans.hasFailed = true →
    holds feed.token.isCancelled (.scanning d access container floor scans) →
      holds feed.token.isCancelled (.concluded
        ⟨d, LeastAccess.conclude e.policy.options d access container floor.isSome { scans with feed }⟩)

/-- What holds of every task and every finding. -/
structure Holds (e : Setting) (holds : Bool → Task → Prop) (s : Schedule) : Prop where
  queue : ∀ d ∈ s.queue, d ∈ e.codebase.graph.declarations
  tasks : ∀ task ∈ s.tasks, holds s.feed.token.isCancelled task
  findings : ∀ finding ∈ s.findings, holds s.feed.token.isCancelled (.concluded finding)

variable {discipline : Scans → Scans.Move → Prop} {holds : Bool → Task → Prop}

theorem isCancelled_move_task (c : Codebase) (p : Policy) (x : Disturbance) {feed : Feed}
    (h : feed.token.isCancelled = true) (m : Scans.Move) (task : Task) :
    (task.move c p x feed m).2.token.isCancelled = true := by
  cases task with
  | scanning d access container floor scans =>
    exact Scans.isCancelled_move (c.inquiry p.options x d container) m h
  | concluded => exact h

/-- What an act keeps. -/
theorem Keeps.act (k : Keeps e discipline holds) (h : s.Holds e holds) {a : Act}
    (ha : s.Admits discipline a) : (s.act e a).Holds e holds := by
  cases a with
  | take =>
    simp only [Schedule.act]
    split
    · exact h
    · next d queue hq =>
      split
      · refine ⟨fun d' hd' => h.queue d' (hq ▸ List.mem_cons_of_mem _ hd'), ?_, h.findings⟩
        intro task htask
        rcases List.mem_append.mp htask with htask | htask
        · exact h.tasks task htask
        · rw [List.mem_singleton.mp htask]
          exact k.start d (h.queue d (hq ▸ List.mem_cons_self)) s.feed
      · exact h
  | move i m =>
    simp only [Schedule.act]
    split
    · next task hi =>
      -- the other tasks and the findings see nothing of the move but the token
      have later (hc : s.feed.token.isCancelled = true) :=
        isCancelled_move_task e.codebase e.policy e.disturbance hc m task
      refine ⟨h.queue, ?_, fun finding hf => k.mono later (h.findings finding hf)⟩
      intro task' htask'
      rcases List.mem_or_eq_of_mem_set htask' with htask' | rfl
      · exact k.mono later (h.tasks task' htask')
      · have htask := h.tasks task (List.mem_of_getElem? hi)
        cases task with
        | scanning => exact k.move s.feed m (ha _ _ _ _ _ hi) htask
        | concluded => exact htask
    · exact h
  | conclude i =>
    simp only [Schedule.act]
    split
    · next task hi =>
      refine ⟨h.queue, ?_, h.findings⟩
      intro task' htask'
      rcases List.mem_or_eq_of_mem_set htask' with htask' | rfl
      · exact h.tasks task' htask'
      · have htask := h.tasks task (List.mem_of_getElem? hi)
        cases task with
        | scanning d access container floor scans =>
          simp only [Task.conclude]
          split
          · exact htask
          · next hstopped =>
            refine k.conclude s.feed ?_ htask
            cases hl : scans.isLive <;> cases hf : scans.hasFailed <;> simp [hl, hf] at hstopped ⊢
        | concluded => exact htask
    · exact h
  | record i =>
    simp only [Schedule.act]
    split
    · next finding hf =>
      obtain ⟨task, hi, hfinding⟩ := Option.bind_eq_some_iff.mp hf
      have htask := h.tasks task (List.mem_of_getElem? hi)
      refine ⟨h.queue, fun task' htask' => h.tasks task' (List.mem_of_mem_eraseIdx htask'), ?_⟩
      intro finding' hfinding'
      rcases List.mem_append.mp hfinding' with hfinding' | hfinding'
      · exact h.findings finding' hfinding'
      · rw [List.mem_singleton.mp hfinding', ← Task.eq_concluded_of_finding? hfinding]
        exact htask
    · exact h
  | cancel reason =>
    have later : s.feed.token.isCancelled = true → (s.feed.token.cancel reason).isCancelled = true :=
      Token.isCancelled_cancel reason
    exact ⟨h.queue, fun task htask => k.mono later (h.tasks task htask),
      fun finding hf => k.mono later (h.findings finding hf)⟩

/-- What the acts keep, a schedule keeps. -/
theorem Keeps.play (k : Keeps e discipline holds) (h : s.Holds e holds) {acts : List Act}
    (ha : s.Follows e discipline acts) : (s.play e acts).Holds e holds := by
  induction acts generalizing s with
  | nil => exact h
  | cons a acts ih => exact ih (k.act h ha.1) ha.2

theorem holds_start (e : Setting) (holds : Bool → Task → Prop) (feed : Feed) :
    (start e feed).Holds e holds :=
  ⟨fun _ hd => hd, fun _ htask => absurd htask List.not_mem_nil,
    fun _ hf => absurd hf List.not_mem_nil⟩

end Schedule

end LeastAccess
