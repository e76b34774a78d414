import LeastAccess.Pool
import Mathlib.Data.List.Nodup
import Mathlib.Data.List.Perm.Subperm

/-!
# Which calls a pool makes

A pool whose calls succeed, step by step: workers begin one after the other, calls end in any order, and a
worker notices later that its call has ended, while other calls end. `Orderly` is what every worker that
begins and every call that ends keeps: what was started and what is queued are together the items in order,
no more calls are pending than there are workers, and there are fewer only when nothing is queued.

* `Pool.Orderly.take`, `Pool.Orderly.settle` — what the moves of a pool keep
* `every_item_is_called_once` — what holds at any time, and how it ends
-/

namespace LeastAccess

/-! ## Limits -/

/-- A binary64 value is a whole number. -/
def Binary64.IsWhole (x : Binary64) (k : Int) : Prop :=
  ∃ negative units representable,
    x = .finite negative units representable ∧ signed negative units = k * unitsPerOne

/-- As many workers as the limit says, but at least one and not more than there are items. -/
theorem workerCount_of_isWhole {limit : Binary64} {k : Int} (h : limit.IsWhole k) (items : Nat) :
    (workerCount limit items : Int) = max 1 (min k items) := by
  obtain ⟨negative, units, representable, rfl, hunits⟩ := h
  have hpos := Binary64.unitsPerOne_pos
  unfold Binary64.signed at hunits
  cases negative with
  | true =>
    -- a limit that is not positive leaves one worker
    have hk : k ≤ 0 := by
      by_contra hk
      have : (0 : Int) < k * Binary64.unitsPerOne := Int.mul_pos (by omega) (by omega)
      simp only [if_true] at hunits
      omega
    have hfloor : (Binary64.finite true units representable).floorNat = 0 := rfl
    show ((max 1 (min (Binary64.finite true units representable).floorNat items) : Nat) : Int) = _
    rw [hfloor]
    omega
  | false =>
    have hk : 0 ≤ k := by
      by_contra hk
      have : k * Binary64.unitsPerOne < 0 := Int.mul_neg_of_neg_of_pos (by omega) (by omega)
      simp only [Bool.false_eq_true, if_false] at hunits
      omega
    obtain ⟨n, rfl⟩ := Int.eq_ofNat_of_zero_le hk
    have hn : units = n * Binary64.unitsPerOne := by
      simp only [Bool.false_eq_true, if_false] at hunits
      exact_mod_cast hunits
    have hfloor : (Binary64.finite false units representable).floorNat = n := by
      show units / Binary64.unitsPerOne = n
      rw [hn, Nat.mul_div_cancel _ hpos]
    show ((max 1 (min (Binary64.finite false units representable).floorNat items) : Nat) : Int) = _
    rw [hfloor]
    omega

/-! ## Items with their positions -/

namespace Pool

variable {α β ε : Type}

/-- The items of a list with their positions. -/
def numbered (items : List α) : List (Nat × α) := items.zipIdx.map Prod.swap

theorem present_map_some (items : List α) : present (items.map some) = numbered items := by
  unfold present numbered
  rw [List.zipIdx_map, List.filterMap_map, ← List.filterMap_eq_map]
  rfl

theorem length_numbered (items : List α) : (numbered items).length = items.length := by
  simp [numbered]

theorem getElem?_numbered (items : List α) (i : Nat) :
    (numbered items)[i]? = items[i]?.map fun x => (i, x) := by
  unfold numbered
  rw [List.getElem?_map, List.getElem?_zipIdx, Option.map_map, Nat.zero_add]
  rfl

theorem nodup_positions (items : List α) : ((numbered items).map Prod.fst).Nodup := by
  have hfst : (numbered items).map Prod.fst = items.zipIdx.map Prod.snd := by
    unfold numbered
    rw [List.map_map]
    rfl
  rw [hfst, List.zipIdx_map_snd]
  exact List.nodup_range'

/-! ## Moves of a pool -/

/-- A pool of some workers that makes the calls of a function without failures: the items are started in
order, every call that has ended has left its result, and a worker is idle only if nothing is queued. -/
structure Orderly (f : α → Nat → β) (items : List α) (workers : Nat) (p : Pool α β ε) : Prop where
  calls : p.started ++ p.queue = numbered items
  nodup : p.pending.Nodup
  started : ∀ i ∈ p.pending, i < p.started.length
  length_le : p.pending.length ≤ workers
  busy : p.pending.length < workers → p.queue = []
  results : p.results = items.mapIdx fun i x =>
    if i < p.started.length ∧ i ∉ p.pending then some (f x i) else none
  failure : p.failure? = none

section

variable {f : α → Nat → β} {items : List α} {workers i : Nat} {x : α} {p q : Pool α β ε}

/-- The pool before any worker has begun. -/
def untouched (items : List α) : Pool α β ε where
  queue := present (items.map some)
  results := (items.map some).map fun _ => none

theorem orderly_untouched (f : α → Nat → β) (items : List α) :
    (untouched items : Pool α β ε).Orderly f items 0 where
  calls := present_map_some items
  nodup := List.nodup_nil
  started := nofun
  length_le := Nat.le_refl 0
  busy h := absurd h (Nat.not_lt_zero _)
  results := by
    show (items.map some).map (fun _ => none) = _
    rw [List.map_map]
    refine List.ext_getElem? fun i => ?_
    rw [List.getElem?_map, List.getElem?_mapIdx]
    cases items[i]? with
    | none => rfl
    | some x => simp [untouched]
  failure := rfl

/-- The item at the front of the queue is the first that was not started. -/
theorem Orderly.eq_of_queue (h : p.Orderly f items workers) {rest : List (Nat × α)}
    (hq : p.queue = (i, x) :: rest) : i = p.started.length ∧ items[i]? = some x := by
  have hget : (p.started ++ p.queue)[p.started.length]? = some (i, x) := by
    rw [hq, List.getElem?_append_right (Nat.le_refl _), Nat.sub_self]
    rfl
  rw [h.calls, getElem?_numbered] at hget
  obtain ⟨y, hy, heq⟩ := Option.map_eq_some_iff.mp hget
  obtain ⟨rfl, rfl⟩ := Prod.mk.inj heq
  exact ⟨rfl, hy⟩

theorem Orderly.length_started_le (h : p.Orderly f items workers) : p.started.length ≤ items.length := by
  have hlength := congrArg List.length h.calls
  rw [List.length_append, length_numbered] at hlength
  omega

/-- One more worker takes an item, if there is one. -/
theorem Orderly.take (h : p.Orderly f items workers) : p.take.Orderly f items (workers + 1) := by
  unfold Pool.take
  split
  · next hq =>
    exact { h with length_le := Nat.le_succ_of_le h.length_le, busy := fun _ => hq }
  · next j y rest hq =>
    obtain ⟨hj, -⟩ := h.eq_of_queue hq
    have hfresh : j ∉ p.pending := fun hmem => by
      have := h.started j hmem
      omega
    refine ⟨?_, ?_, ?_, ?_, ?_, ?_, h.failure⟩
    · show p.started ++ [(j, y)] ++ rest = _
      rw [← h.calls, hq, List.append_assoc]
      rfl
    · show (p.pending ++ [j]).Nodup
      rw [List.nodup_append]
      refine ⟨h.nodup, List.nodup_singleton j, ?_⟩
      rintro a ha b hb rfl
      exact hfresh (List.mem_singleton.mp hb ▸ ha)
    · intro i hi
      show i < (p.started ++ [(j, y)]).length
      rw [List.length_append, List.length_singleton]
      rcases List.mem_append.mp hi with hi | hi
      · have := h.started i hi
        omega
      · rw [List.mem_singleton.mp hi]
        omega
    · show (p.pending ++ [j]).length ≤ workers + 1
      rw [List.length_append, List.length_singleton]
      exact Nat.succ_le_succ h.length_le
    · intro hlt
      change (p.pending ++ [j]).length < workers + 1 at hlt
      rw [List.length_append, List.length_singleton] at hlt
      have hempty := h.busy (by omega)
      rw [hq] at hempty
      cases hempty
    · show p.results = _
      rw [h.results]
      refine List.ext_getElem? fun i => ?_
      rw [List.getElem?_mapIdx, List.getElem?_mapIdx]
      -- the item that was taken has no result yet, and the others keep what they have
      have hiff : i < (p.started ++ [(j, y)]).length ∧ i ∉ p.pending ++ [j] ↔
          i < p.started.length ∧ i ∉ p.pending := by
        rw [List.length_append, List.length_singleton, List.mem_append, List.mem_singleton, not_or]
        constructor
        · rintro ⟨hlt, hout, hne⟩
          exact ⟨by omega, hout⟩
        · rintro ⟨hlt, hout⟩
          exact ⟨by omega, hout, by omega⟩
      simp only [hiff]

/-- A call ends, and its worker has not taken another item yet. -/
def release (p : Pool α β ε) (i : Nat) (v : β) : Pool α β ε :=
  { p with pending := p.pending.erase i, results := p.results.set i (some v) }

theorem settle_of_mem (hi : i ∈ p.pending) (v : β) : p.settle i (.ok v) = some (p.release i v).take := by
  unfold settle
  rw [if_pos (List.contains_iff_mem.mpr hi)]
  rfl

theorem mem_of_settle {outcome : Except ε β} (h : p.settle i outcome = some q) : i ∈ p.pending := by
  unfold settle at h
  split at h
  · next hi => exact List.contains_iff_mem.mp hi
  · cases h

/-- The worker whose call has ended is missing for as long as it has not taken another item. -/
theorem Orderly.release (h : p.Orderly f items workers) (hi : i ∈ p.pending) (hx : items[i]? = some x) :
    (p.release i (f x i)).Orderly f items (workers - 1) := by
  have hlength : (p.pending.erase i).length = p.pending.length - 1 := List.length_erase_of_mem hi
  have hpos : 0 < p.pending.length := List.length_pos_of_mem hi
  refine ⟨h.calls, h.nodup.erase i, ?_, ?_, ?_, ?_, h.failure⟩
  · exact fun j hj => h.started j (List.mem_of_mem_erase hj)
  · have := h.length_le
    show (p.pending.erase i).length ≤ workers - 1
    omega
  · intro hlt
    change (p.pending.erase i).length < workers - 1 at hlt
    exact h.busy (by omega)
  · show p.results.set i (some (f x i)) = _
    refine List.ext_getElem? fun j => ?_
    rw [h.results, List.getElem?_set, List.getElem?_mapIdx, List.getElem?_mapIdx, List.length_mapIdx]
    have hmem : j ∈ p.pending.erase i ↔ j ≠ i ∧ j ∈ p.pending := h.nodup.mem_erase_iff
    by_cases hij : i = j
    · subst hij
      have hlt : i < items.length := (List.getElem?_eq_some_iff.mp hx).1
      have hnone : i ∉ p.pending.erase i := fun hin => (hmem.mp hin).1 rfl
      rw [if_pos rfl, if_pos hlt, hx, Option.map_some]
      exact congrArg some (if_pos ⟨h.started i hi, hnone⟩).symm
    · have hiff : j ∈ p.pending.erase i ↔ j ∈ p.pending := by
        rw [hmem]
        exact and_iff_right (Ne.symm hij)
      rw [if_neg hij]
      show _ = Option.map (fun x => if j < p.started.length ∧ j ∉ p.pending.erase i then some (f x j) else none) _
      simp only [hiff]

/-- A call of the function ends, and its worker takes another item, if there is one. -/
theorem Orderly.settle (h : p.Orderly f items workers) (hx : items[i]? = some x)
    (hs : p.settle i (.ok (f x i)) = some q) : q.Orderly f items workers := by
  have hi := mem_of_settle hs
  rw [settle_of_mem hi] at hs
  obtain rfl := Option.some.inj hs
  have hworkers : 1 ≤ workers := Nat.le_trans (List.length_pos_of_mem hi) h.length_le
  have hmore := (h.release hi hx).take
  rwa [Nat.sub_add_cancel hworkers] at hmore

/-- A worker that begins changes nothing in the number of calls that have not ended. -/
theorem length_take (p : Pool α β ε) :
    p.take.queue.length + p.take.pending.length = p.queue.length + p.pending.length := by
  unfold Pool.take
  split
  · rfl
  · next j y rest hq =>
    show rest.length + (p.pending ++ [j]).length = _
    rw [hq, List.length_append, List.length_singleton, List.length_cons]
    omega

theorem length_settle (hs : p.settle i (.ok (f x i)) = some q) :
    q.queue.length + q.pending.length + 1 = p.queue.length + p.pending.length := by
  have hi := mem_of_settle hs
  rw [settle_of_mem hi] at hs
  obtain rfl := Option.some.inj hs
  have hpos : 0 < p.pending.length := List.length_pos_of_mem hi
  have hlength : (p.pending.erase i).length = p.pending.length - 1 := List.length_erase_of_mem hi
  rw [length_take]
  show p.queue.length + (p.pending.erase i).length + 1 = _
  omega

theorem subset_take (p : Pool α β ε) : p.pending ⊆ p.take.pending := by
  unfold Pool.take
  split
  · exact List.Subset.refl _
  · exact List.subset_append_left _ _

/-- Every other call stays pending when one ends. -/
theorem mem_settle_of_ne (hs : p.settle i (.ok (f x i)) = some q) {j : Nat} (hj : j ∈ p.pending)
    (hne : j ≠ i) : j ∈ q.pending := by
  have hi := mem_of_settle hs
  rw [settle_of_mem hi] at hs
  obtain rfl := Option.some.inj hs
  exact subset_take _ ((List.mem_erase_of_ne hne).mpr hj)

end

end Pool

/-! ## Steps -/

/-- A pool whose workers begin one after the other, and notice with a delay that their calls have ended. -/
structure Crew (α β ε : Type) where
  pool : Pool α β ε
  /-- The number of workers that have not begun. -/
  absent : Nat
  /-- The positions of calls that have ended without their workers having noticed. -/
  unnoticed : List Nat := []

namespace Crew

variable {α β ε : Type}

/-- The crew before its first step. -/
def start (limit : Binary64) (items : List α) : Crew α β ε where
  pool := .untouched items
  absent := workerCount limit items.length

/-- The positions of the calls under way. -/
def running (c : Crew α β ε) : List Nat := c.pool.pending.filter fun i => !c.unnoticed.contains i

/-- How the work ended, once it has: all workers have begun and the pool has ended. -/
def outcome? (c : Crew α β ε) : Option (Except ε (List (Option β))) :=
  if c.absent = 0 then c.pool.outcome? else none

/-- What can happen next, when the calls are those of a function that does not fail. -/
inductive Step (f : α → Nat → β) (items : List α) : Crew α β ε → Crew α β ε → Prop
  /-- A worker begins. -/
  | arrive {pool : Pool α β ε} {absent : Nat} {unnoticed : List Nat} :
      Step f items ⟨pool, absent + 1, unnoticed⟩ ⟨pool.take, absent, unnoticed⟩
  /-- A call ends. -/
  | finish {c : Crew α β ε} {i : Nat} (hi : i ∈ c.running) :
      Step f items c { c with unnoticed := c.unnoticed ++ [i] }
  /-- A worker notices that its call has ended. -/
  | notice {c : Crew α β ε} {i : Nat} {x : α} {pool : Pool α β ε} (hi : i ∈ c.unnoticed)
      (hx : items[i]? = some x) (hs : c.pool.settle i (.ok (f x i)) = some pool) :
      Step f items c { c with pool, unnoticed := c.unnoticed.erase i }

/-- A crew that has made a number of steps from the start. -/
inductive After (f : α → Nat → β) (limit : Binary64) (items : List α) : Nat → Crew α β ε → Prop
  | start : After f limit items 0 (.start limit items)
  | step {steps : Nat} {c c' : Crew α β ε} (h : After f limit items steps c) (hs : Step f items c c') :
      After f limit items (steps + 1) c'

section

variable {f : α → Nat → β} {limit : Binary64} {items : List α} {steps : Nat} {c c' : Crew α β ε}

/-- What holds after a number of steps. The last fact counts the steps to come: one for every worker that
has not begun, two for every call that has not been started, and one or two for every pending one. -/
structure Steady (f : α → Nat → β) (limit : Binary64) (items : List α) (steps : Nat) (c : Crew α β ε) :
    Prop where
  absent_le : c.absent ≤ workerCount limit items.length
  orderly : c.pool.Orderly f items (workerCount limit items.length - c.absent)
  nodup : c.unnoticed.Nodup
  pending : c.unnoticed ⊆ c.pool.pending
  count : steps + c.absent + 2 * (c.pool.queue.length + c.pool.pending.length) =
    workerCount limit items.length + 2 * items.length + c.unnoticed.length

theorem steady_start (f : α → Nat → β) (limit : Binary64) (items : List α) :
    (start limit items : Crew α β ε).Steady f limit items 0 where
  absent_le := Nat.le_refl _
  orderly := by
    show Pool.Orderly f items (workerCount limit items.length - workerCount limit items.length) _
    rw [Nat.sub_self]
    exact Pool.orderly_untouched f items
  nodup := List.nodup_nil
  pending := List.nil_subset _
  count := by
    have hqueue : (Pool.present (items.map some)).length = items.length := by
      rw [Pool.present_map_some, Pool.length_numbered]
    show 0 + workerCount limit items.length + 2 * ((Pool.present (items.map some)).length + 0) =
      workerCount limit items.length + 2 * items.length + 0
    omega

/-- What a step keeps. -/
theorem Steady.step (h : c.Steady f limit items steps) (hs : Step f items c c') :
    c'.Steady f limit items (steps + 1) := by
  cases hs with
  | @arrive pool absent unnoticed =>
    have hle : absent + 1 ≤ workerCount limit items.length := h.absent_le
    have hcount := h.count
    have hlength := Pool.length_take pool
    refine ⟨by simp only []; omega, ?_, h.nodup, ?_, by simp only [] at hcount ⊢; omega⟩
    · have hmore := h.orderly.take
      have heq : workerCount limit items.length - (absent + 1) + 1 =
          workerCount limit items.length - absent := by omega
      exact heq ▸ hmore
    · exact List.Subset.trans h.pending (Pool.subset_take pool)
  | @finish _ i hi =>
    obtain ⟨hpending, hnew⟩ := List.mem_filter.mp hi
    have hfresh : i ∉ c.unnoticed := by simpa using hnew
    have hcount := h.count
    refine ⟨h.absent_le, h.orderly, ?_, ?_, ?_⟩
    · show (c.unnoticed ++ [i]).Nodup
      rw [List.nodup_append]
      refine ⟨h.nodup, List.nodup_singleton i, ?_⟩
      rintro a ha b hb rfl
      exact hfresh (List.mem_singleton.mp hb ▸ ha)
    · exact List.append_subset.mpr ⟨h.pending, by simpa using hpending⟩
    · simp only [List.length_append, List.length_singleton]
      omega
  | @notice _ i x pool hi hx hs =>
    have hcount := h.count
    have hlength := Pool.length_settle hs
    have herase : (c.unnoticed.erase i).length = c.unnoticed.length - 1 := List.length_erase_of_mem hi
    have hpos : 0 < c.unnoticed.length := List.length_pos_of_mem hi
    refine ⟨h.absent_le, h.orderly.settle hx hs, h.nodup.erase i, ?_, ?_⟩
    · intro j hj
      obtain ⟨hne, hj⟩ := h.nodup.mem_erase_iff.mp hj
      exact Pool.mem_settle_of_ne hs (h.pending hj) hne
    · simp only [herase]
      omega

/-- What a whole run keeps. -/
theorem After.steady (h : c.After f limit items steps) : c.Steady f limit items steps := by
  induction h with
  | start => exact steady_start f limit items
  | step _ hs ih => exact ih.step hs

theorem Steady.length_pending_le (h : c.Steady f limit items steps) :
    c.pool.pending.length ≤ workerCount limit items.length := by
  have hle := h.orderly.length_le
  omega

/-- What a crew has come to when its work has ended. -/
theorem Steady.of_outcome? (h : c.Steady f limit items steps) (hpos : 0 < workerCount limit items.length)
    {outcome : Except ε (List (Option β))} (ho : c.outcome? = some outcome) :
    c.pool.started = Pool.numbered items ∧ outcome = .ok ((items.mapIdx fun i x => f x i).map some) ∧
      steps = workerCount limit items.length + 2 * items.length := by
  unfold outcome? Pool.outcome? at ho
  rw [h.orderly.failure] at ho
  split at ho
  · next habsent =>
    simp only [List.isEmpty_iff] at ho
    split at ho
    · next hpending =>
      obtain rfl := Option.some.inj ho
      -- nobody is at work although there are workers, so nothing is queued
      have hqueue : c.pool.queue = [] := by
        refine h.orderly.busy ?_
        rw [hpending, habsent]
        exact hpos
      have hstarted : c.pool.started = Pool.numbered items := by
        rw [← h.orderly.calls, hqueue, List.append_nil]
      refine ⟨hstarted, ?_, ?_⟩
      · rw [h.orderly.results, hpending, hstarted, Pool.length_numbered]
        refine congrArg Except.ok (List.ext_getElem? fun i => ?_)
        rw [List.getElem?_mapIdx, List.getElem?_map, List.getElem?_mapIdx, Option.map_map]
        cases hi : items[i]? with
        | none => rfl
        | some x =>
          have hlt : i < items.length := (List.getElem?_eq_some_iff.mp hi).1
          exact congrArg some (if_pos ⟨hlt, List.not_mem_nil⟩)
      · have hunnoticed : c.unnoticed = [] := List.subset_nil.mp (hpending ▸ h.pending)
        have hcount := h.count
        rw [habsent, hqueue, hpending, hunnoticed] at hcount
        simp only [List.length_nil] at hcount
        omega
    · cases ho
  · cases ho

/-- While the work has not ended, something can happen. -/
theorem Steady.exists_step (h : c.Steady f limit items steps) (ho : c.outcome? = none) :
    ∃ c', Step f items c c' := by
  obtain ⟨pool, absent, unnoticed⟩ := c
  cases absent with
  | succ absent => exact ⟨_, .arrive⟩
  | zero =>
    have hne : pool.pending ≠ [] := by
      intro hnil
      have hfailure : pool.failure? = none := h.orderly.failure
      unfold outcome? Pool.outcome? at ho
      rw [if_pos rfl] at ho
      simp only [hfailure, hnil, List.isEmpty_nil, if_true] at ho
      cases ho
    obtain ⟨i, hi⟩ := List.exists_mem_of_ne_nil _ hne
    by_cases hnoticed : i ∈ unnoticed
    · -- the worker of a call that has ended can notice it
      have hlt : i < items.length :=
        Nat.lt_of_lt_of_le (h.orderly.started i hi) h.orderly.length_started_le
      exact ⟨_, .notice hnoticed (List.getElem?_eq_getElem hlt) (Pool.settle_of_mem hi _)⟩
    · exact ⟨_, .finish (List.mem_filter.mpr ⟨hi, by simpa using hnoticed⟩)⟩

theorem Steady.length_unnoticed_le (h : c.Steady f limit items steps) :
    c.unnoticed.length ≤ c.pool.pending.length :=
  (List.subperm_of_subset h.nodup h.pending).length_le

/-- A run has no more steps than one for every worker and two for every item. -/
theorem Steady.steps_le (h : c.Steady f limit items steps) :
    steps ≤ workerCount limit items.length + 2 * items.length := by
  have hcount := h.count
  have hle := h.length_unnoticed_le
  omega

/-- After that many steps the work has ended. -/
theorem Steady.isSome_outcome? (h : c.Steady f limit items steps)
    (hs : steps = workerCount limit items.length + 2 * items.length) : c.outcome?.isSome = true := by
  have hcount := h.count
  have hle := h.length_unnoticed_le
  have habsent : c.absent = 0 := by omega
  have hpending : c.pool.pending = [] := List.length_eq_zero_iff.mp (by omega)
  unfold outcome? Pool.outcome?
  simp [habsent, hpending, h.orderly.failure]

end

/-! ## The pool as it runs -/

section

variable {f : α → Nat → β} {limit : Binary64} {items : List α} {steps n : Nat} {p : Pool α β ε}

theorem After.takeTimes (h : After f limit items steps ⟨p, n, []⟩) :
    After f limit items (steps + n) ⟨p.takeTimes n, 0, []⟩ := by
  induction n generalizing p steps with
  | zero => exact h
  | succ n ih =>
    have hmore := ih (h.step .arrive)
    rw [Nat.succ_add_eq_add_succ] at hmore
    exact hmore

/-- All workers have begun, and no call has ended. -/
theorem after_start (f : α → Nat → β) (limit : Binary64) (items : List α) :
    After f limit items (workerCount limit items.length)
      (⟨.start limit (items.map some), 0, []⟩ : Crew α β ε) := by
  have hstart : After f limit items 0
      (⟨.untouched items, workerCount limit items.length, []⟩ : Crew α β ε) := .start
  have h := hstart.takeTimes
  rw [Nat.zero_add] at h
  unfold Pool.start
  rw [List.length_map]
  exact h

end

end Crew

/-- **A pool makes the call of every item once,** whatever the order in which its workers begin, its calls
end, and its workers notice that. At any time the limit on pending calls is kept, even if calls count that
have ended unnoticed, and the items started so far are the first ones, each of them once. A run goes on until
it has come to a result, which holds at the place of each item what the function answers for it; every item
has been started once then. It takes one step for every worker and two for every item to get there. -/
theorem every_item_is_called_once {α β ε : Type} (items : List α) (f : α → Nat → β) {limit : Binary64}
    {k : Int} (whole : limit.IsWhole k) :
    Crew.After f limit items (workerCount limit items.length)
        (⟨.start limit (items.map some), 0, []⟩ : Crew α β ε) ∧
      ∀ (steps : Nat) (c : Crew α β ε), c.After f limit items steps →
        (c.running.Sublist c.pool.pending ∧ (c.pool.pending.length : Int) ≤ max 1 (min k items.length)) ∧
        (c.pool.started <+: Pool.numbered items ∧ (c.pool.started.map Prod.fst).Nodup) ∧
        (∀ outcome, c.outcome? = some outcome → c.pool.started = Pool.numbered items ∧
          outcome = .ok ((items.mapIdx fun i x => f x i).map some)) ∧
        (c.outcome? = none → ∃ c', Crew.Step f items c c') ∧
        steps ≤ workerCount limit items.length + 2 * items.length ∧
        (c.outcome?.isSome = true ↔ steps = workerCount limit items.length + 2 * items.length) := by
  have hworkers := workerCount_of_isWhole whole items.length
  have hpos : 0 < workerCount limit items.length := by omega
  refine ⟨Crew.after_start f limit items, fun steps c hafter => ?_⟩
  have h := hafter.steady
  have hstarted : c.pool.started <+: Pool.numbered items := ⟨_, h.orderly.calls⟩
  refine ⟨⟨List.filter_sublist, ?_⟩, ⟨hstarted, ?_⟩, ?_, h.exists_step, h.steps_le, ?_, h.isSome_outcome?⟩
  · have hle := h.length_pending_le
    omega
  · exact (hstarted.map Prod.fst).sublist.nodup (Pool.nodup_positions items)
  · intro outcome ho
    obtain ⟨hall, hresult, -⟩ := h.of_outcome? hpos ho
    exact ⟨hall, hresult⟩
  · intro hsome
    obtain ⟨outcome, ho⟩ := Option.isSome_iff_exists.mp hsome
    exact (h.of_outcome? hpos ho).2.2

/-- Two, as a limit. -/
def Binary64.two : Binary64 :=
  .finite false (2 <<< unitExponent) ⟨2, unitExponent, by decide, by rw [unitExponent]; decide, rfl⟩

theorem Binary64.isWhole_two : two.IsWhole 2 := by
  refine ⟨false, _, _, rfl, ?_⟩
  simp only [signed, unitsPerOne, Nat.shiftLeft_eq, Bool.false_eq_true, if_false]
  push_cast
  omega

/-- Two calls that end before either of their workers notices, the second one first. -/
theorem three_items_with_two_workers :
    Binary64.two.IsWhole 2 ∧
      ∃ c : Crew Nat Nat String, c.After (fun x i => x + i) .two [10, 20, 30] 8 ∧
        c.pool.started = [(0, 10), (1, 20), (2, 30)] ∧
        c.outcome? = some (.ok [some 10, some 21, some 32]) := by
  have hworkers : workerCount .two [10, 20, 30].length = 2 := by
    have h := workerCount_of_isWhole Binary64.isWhole_two [10, 20, 30].length
    simp only [List.length_cons, List.length_nil] at h ⊢
    omega
  obtain ⟨hstart, hruns⟩ :=
    @every_item_is_called_once Nat Nat String [10, 20, 30] (fun x i => x + i) .two 2 Binary64.isWhole_two
  have hpool : (Pool.start .two ([10, 20, 30].map some) : Pool Nat Nat String) =
      { queue := [(2, 30)], pending := [0, 1], started := [(0, 10), (1, 20)],
        results := [none, none, none] } := by
    unfold Pool.start
    rw [List.length_map, hworkers]
    rfl
  rw [hpool, hworkers] at hstart
  have hended := (hstart.step (.finish (i := 1) (by decide))).step (.finish (i := 0) (by decide))
  have hsecond : Crew.After (fun x i => x + i) .two [10, 20, 30] 5
      (⟨{ queue := [], pending := [0, 2], started := [(0, 10), (1, 20), (2, 30)],
          results := [none, some 21, none] }, 0, [0]⟩ : Crew Nat Nat String) :=
    hended.step (.notice (i := 1) (by decide) rfl rfl)
  have hfirst : Crew.After (fun x i => x + i) .two [10, 20, 30] 6
      (⟨{ queue := [], pending := [2], started := [(0, 10), (1, 20), (2, 30)],
          results := [some 10, some 21, none] }, 0, []⟩ : Crew Nat Nat String) :=
    hsecond.step (.notice (i := 0) (by decide) rfl rfl)
  have hthird : Crew.After (fun x i => x + i) .two [10, 20, 30] 8
      (⟨{ queue := [], started := [(0, 10), (1, 20), (2, 30)],
          results := [some 10, some 21, some 32] }, 0, []⟩ : Crew Nat Nat String) :=
    (hfirst.step (.finish (i := 2) (by decide))).step (.notice (i := 2) (by decide) rfl rfl)
  obtain ⟨-, -, hover, -⟩ := hruns _ _ hthird
  obtain ⟨hstarted, -⟩ := hover _ rfl
  exact ⟨Binary64.isWhole_two, _, hthird, hstarted, rfl⟩

end LeastAccess
