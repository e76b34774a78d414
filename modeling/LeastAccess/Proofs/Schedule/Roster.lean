import LeastAccess.Proofs.Pool.Calls
import LeastAccess.Proofs.Schedule.Invariant
import Mathlib.Data.List.Induction
import Mathlib.Logic.Relation

/-!
# Who is at what

A pool tells its workers apart and knows when a worker notices that its call has ended; a schedule tells
what happens during a call. What both have in common is the roster: the items that wait, and those in work.
The steps of a crew and the acts of a schedule move it in the same ways, so what one of them can come to, so
can the other.

* `Crew.roster_step`, `Crew.exists_after` — the steps of a crew are the moves of its roster
* `Schedule.roster_act`, `Schedule.exists_play` — the acts of a schedule are the moves of its roster
* `Schedule.exists_play_iff_exists_after` — schedules and crews of as many workers reach the same rosters
-/

namespace LeastAccess

/-! ## Rosters -/

/-- The items that wait, and those in work. -/
structure Roster (α : Type) where
  waiting : List α
  working : List α := []

namespace Roster

variable {α : Type}

/-- The first item that waits is taken up, if there is one. -/
def take (r : Roster α) : Roster α :=
  match r.waiting with
  | [] => r
  | x :: rest => ⟨rest, r.working ++ [x]⟩

/-- The work at an item ends. -/
def finish (r : Roster α) (i : Nat) : Roster α := { r with working := r.working.eraseIdx i }

/-- How some workers can move a roster: a free one takes an item up, or one of them is done. -/
inductive Step (workers : Nat) (r : Roster α) : Roster α → Prop
  | take (free : r.working.length < workers) : Step workers r r.take
  | finish (i : Nat) : Step workers r (r.finish i)

variable {workers : Nat} {r r' : Roster α}

theorem length_working_take_le (r : Roster α) : r.take.working.length ≤ r.working.length + 1 := by
  unfold take
  split
  · exact Nat.le_succ _
  · exact Nat.le_of_eq List.length_append

theorem Step.length_working_le (h : Step workers r r') (hle : r.working.length ≤ workers) :
    r'.working.length ≤ workers := by
  cases h with
  | take free => exact Nat.le_trans (length_working_take_le r) free
  | finish i => exact Nat.le_trans (List.length_eraseIdx_le ..) hle

/-- There are never more items in work than workers. -/
theorem length_working_le {items : List α} (h : Relation.ReflTransGen (Step workers) ⟨items, []⟩ r) :
    r.working.length ≤ workers := by
  induction h with
  | refl => exact Nat.zero_le _
  | tail _ hs ih => exact hs.length_working_le ih

end Roster

/-! ## Crews -/

section

variable {β γ : Type} {g : β → Option γ} {l : List β}

theorem map_some_filterMap (h : ∀ b ∈ l, (g b).isSome) : (l.filterMap g).map some = l.map g := by
  induction l with
  | nil => rfl
  | cons b l ih =>
    obtain ⟨hb, hl⟩ := List.forall_mem_cons.mp h
    obtain ⟨x, hx⟩ := Option.isSome_iff_exists.mp hb
    rw [List.filterMap_cons_some hx, List.map_cons, List.map_cons, ih hl, hx]

theorem filterMap_eraseIdx (h : ∀ b ∈ l, (g b).isSome) (i : Nat) :
    (l.eraseIdx i).filterMap g = (l.filterMap g).eraseIdx i := by
  refine List.map_injective_iff.mpr (fun _ _ => Option.some.inj) ?_
  rw [map_some_filterMap fun b hb => h b (List.mem_of_mem_eraseIdx hb), ← List.eraseIdx_map,
    ← List.eraseIdx_map, map_some_filterMap h]

end

namespace Crew

variable {α β ε : Type} {f : α → Nat → β} {limit : Binary64} {items : List α} {steps : Nat}
  {c c' : Crew α β ε}

/-- The items that nobody has taken, and those whose calls are running. -/
def roster (items : List α) (c : Crew α β ε) : Roster α where
  waiting := c.pool.queue.map Prod.snd
  working := c.running.filterMap (items[·]?)

theorem roster_start (limit : Binary64) (items : List α) :
    (start limit items : Crew α β ε).roster items = ⟨items, []⟩ := by
  have hqueue : (Pool.present (items.map some)).map Prod.snd = items := by
    rw [Pool.present_map_some, Pool.numbered, List.map_map]
    exact List.zipIdx_map_fst 0 items
  exact congrArg (Roster.mk · []) hqueue

theorem Steady.isSome_of_mem_running (h : c.Steady f limit items steps) :
    ∀ i ∈ c.running, (items[i]?).isSome := by
  intro i hi
  have hlt := h.orderly.started i (List.mem_of_mem_filter hi)
  rw [List.getElem?_eq_getElem (Nat.lt_of_lt_of_le hlt h.orderly.length_started_le)]
  rfl

theorem Steady.length_working (h : c.Steady f limit items steps) :
    (c.roster items).working.length = c.running.length := by
  have hmap := congrArg List.length (map_some_filterMap h.isSome_of_mem_running)
  rwa [List.length_map, List.length_map] at hmap

/-- Whoever takes an item takes it up on the roster. -/
theorem roster_take {pool : Pool α β ε} {workers : Nat} {unnoticed : List Nat}
    (h : pool.Orderly f items workers) (hsub : unnoticed ⊆ pool.pending) (absent absent' : Nat) :
    roster items ⟨pool.take, absent', unnoticed⟩ = (roster items ⟨pool, absent, unnoticed⟩).take := by
  cases hq : pool.queue with
  | nil => simp [roster, Roster.take, Pool.take, running, hq]
  | cons first rest =>
    obtain ⟨j, x⟩ := first
    obtain ⟨hj, hx⟩ := h.eq_of_queue hq
    have hfresh : j ∉ unnoticed := fun hmem => by
      have hlt := h.started j (hsub hmem)
      omega
    simp [roster, Roster.take, Pool.take, running, hq, hfresh, hx]

/-- A call that has ended without notice is not running, whether its worker notices it or not. -/
theorem filter_erase_unnoticed {pending unnoticed : List Nat} {i : Nat} (hpending : pending.Nodup)
    (hi : i ∈ unnoticed) :
    ((pending.erase i).filter fun j => !(unnoticed.erase i).contains j) =
      pending.filter fun j => !unnoticed.contains j := by
  rw [hpending.erase_eq_filter, List.filter_filter]
  refine List.filter_congr fun j _ => ?_
  by_cases hj : j = i
  · simp [hj, hi]
  · simp [hj, List.mem_erase_of_ne hj]

/-- A worker that notices the end of its call takes an item up on the roster. -/
theorem Steady.roster_notice (h : c.Steady f limit items steps) {i : Nat} {x : α} {pool : Pool α β ε}
    (hi : i ∈ c.unnoticed) (hx : items[i]? = some x) (hs : c.pool.settle i (.ok (f x i)) = some pool) :
    roster items { c with pool, unnoticed := c.unnoticed.erase i } = (c.roster items).take := by
  have hpending := h.pending hi
  rw [Pool.settle_of_mem hpending] at hs
  obtain rfl := Option.some.inj hs
  have hsub : c.unnoticed.erase i ⊆ (c.pool.release i (f x i)).pending := by
    intro j hj
    obtain ⟨hne, hj⟩ := h.nodup.mem_erase_iff.mp hj
    exact (List.mem_erase_of_ne hne).mpr (h.pending hj)
  rw [roster_take (h.orderly.release hpending hx) hsub c.absent]
  have hrunning := filter_erase_unnoticed h.orderly.nodup hi
  simp only [roster, running, Pool.release, hrunning]

/-- A call that ends leaves the roster. -/
theorem Steady.roster_finish (h : c.Steady f limit items steps) {k : Nat} (hk : k < c.running.length) :
    roster items { c with unnoticed := c.unnoticed ++ [c.running[k]] } = (c.roster items).finish k := by
  have hnodup : c.running.Nodup := h.orderly.nodup.filter _
  have hrunning : running { c with unnoticed := c.unnoticed ++ [c.running[k]] } = c.running.eraseIdx k := by
    rw [← hnodup.erase_getElem k hk, hnodup.erase_eq_filter]
    generalize c.running[k] = i
    unfold running
    rw [List.filter_filter]
    refine List.filter_congr fun j _ => ?_
    rw [Bool.and_comm]
    by_cases hj : j = i <;> simp [hj]
  simp only [roster, Roster.finish, hrunning, filterMap_eraseIdx h.isSome_of_mem_running]

theorem Steady.length_running_lt (h : c.Steady f limit items steps) {i : Nat} (hi : i ∈ c.unnoticed) :
    c.running.length < c.pool.pending.length := by
  refine List.length_filter_lt_length_iff_exists.mpr ⟨i, h.pending hi, ?_⟩
  simpa using hi

/-- **A step of a crew is a move of its roster.** -/
theorem Steady.roster_step (h : c.Steady f limit items steps) (hs : Step f items c c') :
    Roster.Step (workerCount limit items.length) (c.roster items) (c'.roster items) := by
  have hle := h.orderly.length_le
  have habsent := h.absent_le
  have hrunning : c.running.length ≤ c.pool.pending.length := List.length_filter_le _ _
  cases hs with
  | @arrive pool absent unnoticed =>
    rw [roster_take h.orderly h.pending (absent + 1)]
    refine .take ?_
    rw [h.length_working]
    dsimp only at habsent hle hrunning
    omega
  | @finish _ i hi =>
    obtain ⟨k, hk, rfl⟩ := List.getElem_of_mem hi
    rw [h.roster_finish hk]
    exact .finish k
  | notice hi hx hs =>
    rw [h.roster_notice hi hx hs]
    refine .take ?_
    have hlt := h.length_running_lt hi
    rw [h.length_working]
    omega

/-- Where an item waits although not all workers are at work, one of them has not begun, or has not noticed
that its call has ended. -/
theorem Steady.exists_unnoticed (h : c.Steady f limit items steps) (habsent : c.absent = 0)
    (hwaiting : c.pool.queue ≠ []) (hfree : c.running.length < workerCount limit items.length) :
    ∃ i, i ∈ c.unnoticed := by
  refine List.exists_mem_of_ne_nil _ fun hnil => hwaiting (h.orderly.busy ?_)
  have hrunning : c.running = c.pool.pending := by simp [running, hnil]
  rw [← hrunning, habsent]
  exact hfree

/-- **Every move of its roster is what a crew can come to.** -/
theorem exists_after (h : c.After f limit items steps) {r : Roster α}
    (hr : Roster.Step (workerCount limit items.length) (c.roster items) r) :
    ∃ steps', ∃ c' : Crew α β ε, c'.After f limit items steps' ∧ c'.roster items = r := by
  have hsteady := h.steady
  cases hr with
  | take hfree =>
    rw [hsteady.length_working] at hfree
    by_cases hwaiting : c.pool.queue = []
    · exact ⟨steps, c, h, by simp [roster, Roster.take, hwaiting]⟩
    · obtain ⟨pool, absent, unnoticed⟩ := c
      cases absent with
      | succ absent => exact ⟨_, _, h.step .arrive, roster_take hsteady.orderly hsteady.pending _ _⟩
      | zero =>
        obtain ⟨i, hi⟩ := hsteady.exists_unnoticed rfl hwaiting hfree
        have hpending := hsteady.pending hi
        have hlt := Nat.lt_of_lt_of_le (hsteady.orderly.started i hpending) hsteady.orderly.length_started_le
        have hx := List.getElem?_eq_getElem hlt
        have hs := Pool.settle_of_mem hpending (f items[i] i)
        exact ⟨_, _, h.step (.notice hi hx hs), hsteady.roster_notice hi hx hs⟩
  | finish k =>
    by_cases hk : k < c.running.length
    · exact ⟨_, _, h.step (.finish (List.getElem_mem hk)), hsteady.roster_finish hk⟩
    · refine ⟨steps, c, h, ?_⟩
      rw [← hsteady.length_working, Nat.not_lt] at hk
      rw [Roster.finish, List.eraseIdx_of_length_le hk]

/-- The rosters that a crew can come to. -/
theorem exists_after_iff {r : Roster α} :
    (∃ steps, ∃ c : Crew α β ε, c.After f limit items steps ∧ c.roster items = r) ↔
      Relation.ReflTransGen (Roster.Step (workerCount limit items.length)) ⟨items, []⟩ r := by
  constructor
  · rintro ⟨steps, c, h, rfl⟩
    induction h with
    | start => rw [roster_start]
    | step h hs ih => exact ih.tail (h.steady.roster_step hs)
  · intro h
    induction h with
    | refl => exact ⟨0, .start limit items, .start, roster_start limit items⟩
    | tail _ hs ih =>
      obtain ⟨steps, c, h, rfl⟩ := ih
      exact exists_after h hs

end Crew

/-! ## Schedules -/

namespace Schedule

variable {e : Setting} {s : Schedule}

/-- The declarations that nobody has taken, and those of the tasks. -/
def roster (s : Schedule) : Roster Declaration := ⟨s.queue, s.tasks.map (·.declaration)⟩

/-- **An act of a schedule leaves its roster alone or moves it.** -/
theorem roster_act (e : Setting) (s : Schedule) (a : Act) :
    Relation.ReflGen (Roster.Step e.workers) s.roster (s.act e a).roster := by
  cases a with
  | take =>
    simp only [act]
    split
    · exact .refl
    · next d queue hq =>
      split
      · next hfree =>
        have htake : roster { s with queue, tasks := s.tasks ++ [.start e.codebase e.policy d s.feed] } =
            s.roster.take := by
          simp [roster, Roster.take, hq, Task.declaration_start]
        rw [htake]
        exact .single (.take (by simpa [roster] using hfree))
      · exact .refl
  | move i m =>
    simp only [act]
    split
    · next task hi =>
      have hd := Task.declaration_move e.codebase e.policy e.disturbance s.feed m task
      simp only [roster, map_set_declaration hi hd]
      exact .refl
    · exact .refl
  | conclude i =>
    simp only [act]
    split
    · next task hi =>
      have hd := Task.declaration_conclude e.policy s.feed task
      simp only [roster, map_set_declaration hi hd]
      exact .refl
    · exact .refl
  | record i =>
    simp only [act]
    split
    · next finding _ =>
      have hfinish : roster { s with tasks := s.tasks.eraseIdx i, findings := s.findings ++ [finding] } =
          s.roster.finish i := by
        simp [roster, Roster.finish, List.eraseIdx_map]
      rw [hfinish]
      exact .single (.finish i)
    · exact .refl
  | cancel => exact .refl

/-- There are never more tasks than workers. -/
theorem length_tasks_act_le (h : s.tasks.length ≤ e.workers) (a : Act) :
    (s.act e a).tasks.length ≤ e.workers := by
  have hmap (s : Schedule) : s.roster.working.length = s.tasks.length := List.length_map _
  rw [← hmap] at h ⊢
  obtain heq | hstep := (Relation.reflGen_iff _ _ _).mp (roster_act e s a)
  · rwa [heq]
  · exact hstep.length_working_le h

/-- **Every move of its roster is what the acts of a schedule can come to.** -/
theorem exists_play {r : Roster Declaration} (h : Roster.Step e.workers s.roster r) :
    ∃ acts, (s.play e acts).roster = r := by
  cases h with
  | take hfree =>
    refine ⟨[.take], ?_⟩
    have hlt : s.tasks.length < e.workers := by simpa [roster] using hfree
    show (s.act e .take).roster = _
    simp only [act, if_pos hlt]
    split
    · next hq => simp [roster, Roster.take, hq]
    · next hq => simp [roster, Roster.take, hq, Task.declaration_start]
  | finish i =>
    cases hi : s.tasks[i]? with
    | none =>
      refine ⟨[], ?_⟩
      have hle : s.roster.working.length ≤ i := by
        rw [roster, List.length_map]
        exact List.getElem?_eq_none_iff.mp hi
      rw [Roster.finish, List.eraseIdx_of_length_le hle]
      rfl
    | some task =>
      cases task with
      | concluded finding =>
        refine ⟨[.record i], ?_⟩
        show (s.act e (.record i)).roster = _
        simp [act, hi, Task.finding?, roster, Roster.finish, List.eraseIdx_map]
      | scanning d access container floor scans =>
        obtain ⟨acts, hplay⟩ := exists_play_eq_conclude e hi
        refine ⟨acts, ?_⟩
        rw [hplay]
        simp [roster, Roster.finish, List.eraseIdx_map]

/-- The rosters that a schedule can come to. -/
theorem exists_play_iff {feed : Feed} {r : Roster Declaration} :
    (∃ acts, ((start e feed).play e acts).roster = r) ↔
      Relation.ReflTransGen (Roster.Step e.workers) ⟨e.codebase.graph.declarations, []⟩ r := by
  constructor
  · rintro ⟨acts, rfl⟩
    induction acts using List.reverseRecOn with
    | nil => exact .refl
    | append_singleton acts a ih =>
      rw [play_append]
      exact ih.trans (roster_act e _ a).to_reflTransGen
  · intro h
    induction h with
    | refl => exact ⟨[], rfl⟩
    | tail _ hs ih =>
      obtain ⟨acts, rfl⟩ := ih
      obtain ⟨more, hmore⟩ := exists_play hs
      exact ⟨acts ++ more, by rw [play_append, hmore]⟩

/-- **Schedules are crews at work.** A schedule and a crew of as many workers, whose items are the declarations,
can come to the same rosters, whatever the calls of the crew answer. Neither ever has more items in work than
workers. -/
theorem exists_play_iff_exists_after {β ε : Type} {f : Declaration → Nat → β} {limit : Binary64}
    (hworkers : e.workers = workerCount limit e.codebase.graph.declarations.length) (feed : Feed)
    (r : Roster Declaration) :
    let items := e.codebase.graph.declarations
    ((∃ acts, ((start e feed).play e acts).roster = r) ↔
      ∃ steps, ∃ c : Crew Declaration β ε, c.After f limit items steps ∧ c.roster items = r) ∧
    ∀ acts, ((start e feed).play e acts).roster = r → r.working.length ≤ e.workers := by
  intro items
  refine ⟨?_, fun acts hr => Roster.length_working_le (exists_play_iff.mp ⟨acts, hr⟩)⟩
  rw [exists_play_iff, Crew.exists_after_iff, hworkers]

end Schedule

end LeastAccess
