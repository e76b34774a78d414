import LeastAccess.Accumulator
import Mathlib.Data.List.Induction
import Mathlib.Data.List.Perm.Basic

/-!
# Accumulating in any order

The scans of a declaration write one accumulator, and the declarations of a run one map of container levels.
Each update is made in one go, so what can vary is the order of the updates. It does not show: two updates
commute, and what has been reached tells which updates there were, but not when.

* `Accumulator.Reflects.update` — what one update does to what has been accumulated
* `Accumulator.reflects_updateAll` — what any updates come to
* `ContainerLevels.get?_accumulateAll` — every type gets the levels that were meant for it
* `order_of_updates_does_not_show` — all of it for updates in any order
-/

namespace LeastAccess

/-! ## The accumulator of a declaration -/

namespace Accumulator

/-- An update of an accumulator. -/
inductive Update where
  | visit
  | accumulate (level : Level)
  deriving DecidableEq, Repr

/-- The level that an update joins, if it does. -/
def Update.level? : Update → Option Level
  | .visit => none
  | .accumulate level => some level

/-- The levels that updates join, in their order. -/
def Update.levels (us : List Update) : List Level := us.filterMap level?

def update (a : Accumulator) : Update → Accumulator
  | .visit => a.visit
  | .accumulate level => a.accumulate level

/-- One update after the other. -/
def updateAll (a : Accumulator) (us : List Update) : Accumulator := us.foldl update a

theorem updateAll_append (a : Accumulator) (us vs : List Update) :
    a.updateAll (us ++ vs) = (a.updateAll us).updateAll vs := List.foldl_append

/-- The order of two updates does not matter. -/
theorem update_comm (a : Accumulator) (u v : Update) : (a.update u).update v = (a.update v).update u := by
  cases u with
  | visit =>
    cases v with
    | visit => rfl
    | accumulate m => exact visit_accumulate a m
  | accumulate l =>
    cases v with
    | visit => exact (visit_accumulate a l).symm
    | accumulate m => exact accumulate_comm a l m

theorem updateAll_perm {us vs : List Update} (h : us.Perm vs) (a : Accumulator) :
    a.updateAll us = a.updateAll vs :=
  h.foldl_eq' (fun u _ v _ a => update_comm a u v) a

/-- An accumulator that started from a seed and has seen some updates. -/
structure Reflects (seed : Level) (us : List Update) (a : Accumulator) : Prop where
  level : a.level = Level.join seed (Update.levels us)
  saturated_iff : a.saturated = true ↔ Update.levels us ≠ [] ∧ a.level = .pub
  sitesVisited : a.sitesVisited = us.count .visit

theorem reflects_start (seed : Level) : (start seed).Reflects seed [] where
  level := rfl
  saturated_iff := by simp [start, Update.levels]
  sitesVisited := rfl

theorem Update.levels_append_visit (us : List Update) : levels (us ++ [.visit]) = levels us := by
  simp [levels, level?]

theorem Update.levels_append_accumulate (us : List Update) (l : Level) :
    levels (us ++ [.accumulate l]) = levels us ++ [l] := by
  simp [levels, level?]

variable {seed : Level} {us : List Update} {a : Accumulator}

/-- A visit counts, and leaves level and saturation as they are. -/
theorem Reflects.visit (h : a.Reflects seed us) : a.visit.Reflects seed (us ++ [.visit]) where
  level := by
    rw [Update.levels_append_visit]
    exact h.level
  saturated_iff := by
    rw [Update.levels_append_visit]
    exact h.saturated_iff
  sitesVisited := by
    rw [List.count_append, ← h.sitesVisited]
    rfl

/-- A level is joined. A public one saturates, and what was saturated is public and stays so. -/
theorem Reflects.accumulate (h : a.Reflects seed us) (l : Level) :
    (a.accumulate l).Reflects seed (us ++ [.accumulate l]) where
  level := by
    rw [Update.levels_append_accumulate, Level.join_append, ← h.level]
    rfl
  saturated_iff := by
    rw [Update.levels_append_accumulate, saturated_accumulate_iff fun hs => (h.saturated_iff.mp hs).2]
    simp
  sitesVisited := by
    rw [List.count_append, ← h.sitesVisited]
    rfl

theorem Reflects.update (h : a.Reflects seed us) (u : Update) : (a.update u).Reflects seed (us ++ [u]) := by
  cases u with
  | visit => exact h.visit
  | accumulate l => exact h.accumulate l

/-- What any updates come to. -/
theorem reflects_updateAll (seed : Level) (us : List Update) :
    ((start seed).updateAll us).Reflects seed us := by
  induction us using List.reverseRecOn with
  | nil => exact reflects_start seed
  | append_singleton us u ih =>
    rw [updateAll_append]
    exact ih.update u

theorem Reflects.foundUsage_iff (h : a.Reflects seed us) : a.foundUsage = true ↔ .visit ∈ us := by
  rw [foundUsage, h.sitesVisited, decide_eq_true_iff, List.count_pos_iff]

/-! ### Nothing goes back -/

theorem level_le_update (a : Accumulator) (u : Update) : a.level ≤ (a.update u).level := by
  cases u with
  | visit => exact Level.le_refl _
  | accumulate l => exact Level.le_max_left _ _

theorem saturated_update (u : Update) (h : a.saturated = true) : (a.update u).saturated = true := by
  cases u with
  | visit => exact h
  | accumulate l =>
    show (a.accumulate l).saturated = true
    rw [saturated_accumulate, h, Bool.true_or]

theorem level_le_updateAll (a : Accumulator) (us : List Update) : a.level ≤ (a.updateAll us).level := by
  induction us generalizing a with
  | nil => exact Level.le_refl _
  | cons u us ih =>
    calc a.level
      _ ≤ (a.update u).level := level_le_update a u
      _ ≤ ((a.update u).updateAll us).level := ih (a.update u)

theorem saturated_updateAll (us : List Update) (h : a.saturated = true) :
    (a.updateAll us).saturated = true := by
  induction us generalizing a with
  | nil => exact h
  | cons u us ih => exact ih (saturated_update u h)

end Accumulator

/-! ## The levels of containers -/

theorem Level.broadest?_append_singleton (levels : List Level) (l : Level) :
    broadest? (levels ++ [l]) = some ((broadest? levels).elim l (max · l)) := by
  cases levels with
  | nil => rfl
  | cons a rest => exact congrArg some (join_append a rest [l])

namespace ContainerLevels

/-- One update after the other. -/
def accumulateAll (m : ContainerLevels) (updates : List (String × Level)) : ContainerLevels :=
  updates.foldl (fun m u => m.accumulate u.1 u.2) m

theorem accumulateAll_append (m : ContainerLevels) (us vs : List (String × Level)) :
    m.accumulateAll (us ++ vs) = (m.accumulateAll us).accumulateAll vs := List.foldl_append

theorem accumulateAll_perm {us vs : List (String × Level)} (h : us.Perm vs) (m : ContainerLevels) :
    m.accumulateAll us = m.accumulateAll vs :=
  h.foldl_eq' (fun u _ v _ m => accumulate_comm m u.1 v.1 u.2 v.2) m

/-- The levels meant for one type, in the order of the updates. -/
def levelsFor (id : String) (updates : List (String × Level)) : List Level :=
  (updates.filter (·.1 == id)).map Prod.snd

theorem raised_eq_elim (m : ContainerLevels) (id : String) (l : Level) :
    m.raised id l = (m.get? id).elim l (max · l) := by
  unfold raised
  cases m.get? id <;> rfl

/-- Every type gets the join of the levels that were meant for it, and nothing if there were none. -/
theorem get?_accumulateAll (updates : List (String × Level)) (id : String) :
    (empty.accumulateAll updates).get? id = Level.broadest? (levelsFor id updates) := by
  induction updates using List.reverseRecOn with
  | nil => rfl
  | append_singleton updates u ih =>
    obtain ⟨container, l⟩ := u
    rw [accumulateAll_append]
    show ((empty.accumulateAll updates).accumulate container l).get? id = _
    rw [get?_accumulate]
    by_cases h : id = container
    · subst h
      have hlevels : levelsFor id (updates ++ [(id, l)]) = levelsFor id updates ++ [l] := by
        simp [levelsFor]
      rw [if_pos rfl, raised_eq_elim, ih, hlevels, Level.broadest?_append_singleton]
    · have hlevels : levelsFor id (updates ++ [(container, l)]) = levelsFor id updates := by
        simp [levelsFor, Ne.symm h]
      rw [if_neg h, ih, hlevels]

end ContainerLevels

/-! ## Any order -/

/-- **The order of updates does not show.** Whatever updates an accumulator has seen since it started from a
seed, it is the same after them in any other order. It holds the join of the seed and the levels; it is
saturated exactly if there was a level and the join is public; it counts the visits, and has found a usage if
there was one. Whatever updates follow, its level does not fall, and it stays saturated. The levels of
containers are the same after updates in any order, too: every type has the join of its own levels. -/
theorem order_of_updates_does_not_show :
    (∀ (seed : Level) (us : List Accumulator.Update),
      let reached := (Accumulator.start seed).updateAll us
      let levels := Accumulator.Update.levels us
      (∀ vs, us.Perm vs → (Accumulator.start seed).updateAll vs = reached) ∧
      reached.level = Level.join seed levels ∧
      (reached.saturated = true ↔ levels ≠ [] ∧ reached.level = .pub) ∧
      reached.sitesVisited = us.count .visit ∧
      (reached.foundUsage = true ↔ .visit ∈ us) ∧
      ∀ more, reached.level ≤ (reached.updateAll more).level ∧
        (reached.saturated = true → (reached.updateAll more).saturated = true)) ∧
    ∀ updates : List (String × Level),
      (∀ vs, updates.Perm vs →
        ContainerLevels.empty.accumulateAll vs = ContainerLevels.empty.accumulateAll updates) ∧
      ∀ id, (ContainerLevels.empty.accumulateAll updates).get? id =
        Level.broadest? (ContainerLevels.levelsFor id updates) := by
  refine ⟨?_, fun updates => ⟨fun vs h => ?_, fun id => ?_⟩⟩
  · intro seed us reached levels
    have h : reached.Reflects seed us := Accumulator.reflects_updateAll seed us
    refine ⟨fun vs hperm => ?_, h.level, h.saturated_iff, h.sitesVisited, h.foundUsage_iff, fun more => ?_⟩
    · exact Accumulator.updateAll_perm hperm.symm _
    · exact ⟨Accumulator.level_le_updateAll reached more, Accumulator.saturated_updateAll more⟩
  · exact ContainerLevels.accumulateAll_perm h.symm _
  · exact ContainerLevels.get?_accumulateAll updates id

/-- A public seed saturates only with the first level, and two types in turns keep their levels apart. -/
theorem updates_of_public_seed_in_another_order :
    let us : List Accumulator.Update := [.visit, .accumulate .prot, .visit, .accumulate .priv]
    let vs : List Accumulator.Update := [.visit, .visit, .accumulate .priv, .accumulate .prot]
    let seen := (Accumulator.start .pub).updateAll us
    let updates : List (String × Level) := [("T", .pkg), ("U", .priv), ("T", .priv), ("U", .prot)]
    let others : List (String × Level) := [("U", .prot), ("U", .priv), ("T", .priv), ("T", .pkg)]
    (us.Perm vs ∧ (Accumulator.start .pub).updateAll vs = seen) ∧
      ((Accumulator.start .pub).saturated = false ∧ seen.saturated = true ∧
        (seen.updateAll [.accumulate .pkg]).saturated = true) ∧
      (seen.level = .pub ∧ seen.sitesVisited = 2 ∧ seen.foundUsage = true) ∧
      updates.Perm others ∧
      ContainerLevels.empty.accumulateAll others = ContainerLevels.empty.accumulateAll updates ∧
      (ContainerLevels.empty.accumulateAll updates).get? "U" = some .prot := by
  intro us vs seen updates others
  obtain ⟨haccumulator, hcontainers⟩ := order_of_updates_does_not_show
  obtain ⟨hperm, hlevel, hsaturated, hvisited, hfound, hmore⟩ := haccumulator .pub us
  obtain ⟨hany, hget⟩ := hcontainers updates
  have hus : us.Perm vs := by decide
  have hupdates : updates.Perm others := by decide
  have hfull : seen.saturated = true := hsaturated.mpr ⟨by decide, hlevel⟩
  exact ⟨⟨hus, hperm vs hus⟩, ⟨rfl, hfull, (hmore _).2 hfull⟩, ⟨hlevel, hvisited, hfound.mpr (by decide)⟩,
    hupdates, hany others hupdates, hget "U"⟩

end LeastAccess
