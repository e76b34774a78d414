import LeastAccess.Level

/-!
# Accumulating levels

`Accumulator` joins the levels that the usages of one declaration require; all scans of the declaration
share it. It is saturated once a level was accumulated and the join is public: no further usage can change
it. A public seed alone does not saturate it.

`ContainerLevels` joins, for every type, the levels of what it contains.

Main statements: `accumulate_comm`, `visit_accumulate` (steps commute) and `ContainerLevels.accumulate_comm`.
-/

namespace LeastAccess

/-- The join of the levels found so far, and how many usages were looked at. -/
structure Accumulator where
  level : Level
  saturated : Bool := false
  sitesVisited : Nat := 0
  deriving DecidableEq, Repr

namespace Accumulator

/-- An accumulator that starts from a floor. -/
def start (seed : Level) : Accumulator := { level := seed }

/-- Counts one usage. -/
def visit (a : Accumulator) : Accumulator := { a with sitesVisited := a.sitesVisited + 1 }

/-- Joins one level. -/
def accumulate (a : Accumulator) (level : Level) : Accumulator :=
  let joined := max a.level level
  { a with level := joined, saturated := a.saturated || joined == .pub }

/-- Whether any usage was counted. -/
def foundUsage (a : Accumulator) : Bool := 0 < a.sitesVisited

theorem visit_accumulate (a : Accumulator) (l : Level) :
    (a.visit).accumulate l = (a.accumulate l).visit := rfl

/-- The order of two levels does not matter. -/
theorem accumulate_comm (a : Accumulator) (l m : Level) :
    (a.accumulate l).accumulate m = (a.accumulate m).accumulate l := by
  obtain ⟨level, saturated, visited⟩ := a
  cases level <;> cases l <;> cases m <;> cases saturated <;> rfl

/-- Saturation lasts, and only a public level saturates. -/
theorem saturated_accumulate (a : Accumulator) (l : Level) :
    (a.accumulate l).saturated = (a.saturated || (a.accumulate l).level == .pub) := rfl

/-- Where only what is public was saturated, a level saturates exactly if the join is public. -/
theorem saturated_accumulate_iff {a : Accumulator} (h : a.saturated = true → a.level = .pub) (l : Level) :
    (a.accumulate l).saturated = true ↔ (a.accumulate l).level = .pub := by
  rw [saturated_accumulate, Bool.or_eq_true, beq_iff_eq]
  refine ⟨fun hor => hor.elim (fun hs => ?_) id, Or.inr⟩
  show max a.level l = .pub
  rw [h hs, Level.pub_max]

end Accumulator

/-- The join of the levels of what each type contains; nothing for a type of which nothing is known. -/
structure ContainerLevels where
  get? : String → Option Level

namespace ContainerLevels

def empty : ContainerLevels := ⟨fun _ => none⟩

/-- The level of a type after one more level. -/
def raised (m : ContainerLevels) (id : String) (level : Level) : Level :=
  match m.get? id with
  | some previous => max previous level
  | none => level

/-- Joins one level into that of a type. -/
def accumulate (m : ContainerLevels) (id : String) (level : Level) : ContainerLevels :=
  let next := m.raised id level
  ⟨fun x => if x = id then some next else m.get? x⟩

@[simp] theorem get?_empty (id : String) : empty.get? id = none := rfl

theorem get?_accumulate (m : ContainerLevels) (id : String) (level : Level) (x : String) :
    (m.accumulate id level).get? x = if x = id then some (m.raised id level) else m.get? x := rfl

@[ext] theorem ext {m m' : ContainerLevels} (h : ∀ id, m.get? id = m'.get? id) : m = m' := by
  cases m
  cases m'
  congr
  exact funext h

/-- The order of two updates does not matter. -/
theorem accumulate_comm (m : ContainerLevels) (c d : String) (k l : Level) :
    (m.accumulate c k).accumulate d l = (m.accumulate d l).accumulate c k := by
  refine ContainerLevels.ext fun x => ?_
  by_cases hcd : c = d
  · subst hcd
    simp only [get?_accumulate, raised, if_true]
    split
    · cases m.get? c with
      | none => simp [Level.max_comm k l]
      | some p => simp [Level.max_assoc, Level.max_comm k l]
    · rfl
  · simp only [get?_accumulate, raised, if_neg hcd, if_neg (Ne.symm hcd)]
    by_cases hx : x = c
    · simp [hx, hcd]
    · simp [hx]

end ContainerLevels

end LeastAccess
