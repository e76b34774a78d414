/-!
# Timetables

In which order the jobs of a pool get done, when it is known how many turns each of them takes. All workers
start at once. A worker that has done a job notices it in the next turn, and then takes the first job that
no worker has taken; of several workers that are free in the same turn the one with the smaller number goes
first, and its job is done before those that are done in the same turn by others.

Main statements: `completionOrder_perm` (every job gets done once) and `completionOrder_one` (a single
worker does the jobs in the order they come in).
-/

namespace LeastAccess

/-- A job that was done: by which worker, and in which turn. -/
structure Shift (α : Type) where
  job : α
  worker : Nat
  turn : Nat

namespace Shift

variable {α : Type}

/-- Whether a job was done no later than another one. -/
def notAfter (a b : Shift α) : Bool := a.turn < b.turn || (a.turn == b.turn && a.worker ≤ b.worker)

end Shift

namespace Timetable

variable {α : Type}

/-- The worker that is free first, and since when; the list says since when each of them is. -/
def firstFree : List Nat → Option (Nat × Nat)
  | [] => none
  | turn :: rest =>
    match firstFree rest with
    | none => some (0, turn)
    | some (worker, earlier) => if earlier < turn then some (worker + 1, earlier) else some (0, turn)

/-- Hands out jobs, each of which comes with the number of turns it takes, in order. -/
def shifts (free : List Nat) : List (α × Nat) → List (Shift α)
  | [] => []
  | (job, turns) :: rest =>
    let (worker, start) := (firstFree free).getD (0, 0)
    ⟨job, worker, start + turns⟩ :: shifts (free.set worker (start + turns + 1)) rest

/-- The jobs in the order in which they get done. -/
def completionOrder (workers : Nat) (jobs : List (α × Nat)) : List α :=
  ((shifts (List.replicate workers 0) jobs).mergeSort Shift.notAfter).map (·.job)

theorem map_job_shifts (free : List Nat) (jobs : List (α × Nat)) :
    (shifts free jobs).map (·.job) = jobs.map (·.1) := by
  induction jobs generalizing free with
  | nil => rfl
  | cons j rest ih => exact congrArg (j.1 :: ·) (ih _)

/-- Every job gets done once, whatever the number of workers. -/
theorem completionOrder_perm (workers : Nat) (jobs : List (α × Nat)) :
    (completionOrder workers jobs).Perm (jobs.map (·.1)) :=
  map_job_shifts (List.replicate workers 0) jobs ▸ (List.mergeSort_perm _ _).map _

/-- A single worker does nothing before the turn in which it is free. -/
theorem le_turn_of_mem_shifts {start : Nat} {jobs : List (α × Nat)} {s : Shift α}
    (h : s ∈ shifts [start] jobs) : start ≤ s.turn := by
  induction jobs generalizing start with
  | nil => cases h
  | cons j rest ih =>
    rcases List.mem_cons.1 h with rfl | h
    · exact Nat.le_add_right _ _
    · exact Nat.le_trans (Nat.le_trans (Nat.le_add_right _ _) (Nat.le_succ _)) (ih h)

/-- A single worker does the jobs one after the other. -/
theorem pairwise_shifts_one (start : Nat) (jobs : List (α × Nat)) :
    (shifts [start] jobs).Pairwise fun a b => a.notAfter b = true := by
  induction jobs generalizing start with
  | nil => exact .nil
  | cons j rest ih =>
    refine .cons (fun s hs => ?_) (ih (start + j.2 + 1))
    have later : start + j.2 + 1 ≤ s.turn := le_turn_of_mem_shifts hs
    simp only [Shift.notAfter, Bool.or_eq_true, decide_eq_true_eq]
    exact .inl later

/-- A single worker does the jobs in the order they come in. -/
theorem completionOrder_one (jobs : List (α × Nat)) : completionOrder 1 jobs = jobs.map (·.1) := by
  have sorted : (shifts (List.replicate 1 0) jobs).Pairwise fun a b => a.notAfter b = true :=
    pairwise_shifts_one 0 jobs
  rw [completionOrder, List.mergeSort_of_pairwise sorted, map_job_shifts]

end Timetable

end LeastAccess
