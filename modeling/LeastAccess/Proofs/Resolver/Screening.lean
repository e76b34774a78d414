import LeastAccess.Resolver

/-!
# What screening settles

A declaration that is screened out has no level or keeps its current one. One that is scanned has a
current level, and its container is the declared type around it, if there is one.

* `level?_of_screen` — a level that screening settles is the current one
* `screen_ne_cancelled` — screening cancels nothing
* `screen_eq_scan_iff`, `of_screen_eq_scan`, `startsFrom_of_screen` — what is scanned, and what a scan starts
  from
-/

namespace LeastAccess

variable {g : Graph} {p : Policy} {d : Declaration} {m : Modifiers} {access level : Level}
  {container container' : Option Declaration} {floor : Option Level} {resolution : Resolution}

/-- A level below the current one is another one. -/
theorem access?_ne_of_lt {current : Level} (h : d.access? = some current) (hlt : level < current) :
    d.access? ≠ some level := by
  intro hkept
  rw [h] at hkept
  cases hkept
  exact Nat.lt_irrefl _ hlt

theorem level?_of_screenIn (h : screenIn g p d m container = .settled resolution) :
    resolution.level? = some m.access := by
  unfold screenIn at h
  split at h
  · cases h
    rfl
  · split at h
    · split at h
      · cases h
        rfl
      · cases h
    · cases h

/-- A scan starts from the floor of an entry point, and from none otherwise. -/
def Policy.StartsFrom (p : Policy) (g : Graph) (d : Declaration) : Option Level → Prop
  | none => p.entryPoint.covers g d = false
  | some floor => p.entryPoint.covers g d = true ∧ p.entryPoint.floor? g d = some floor

/-- What no reason keeps is scanned, unless it is an entry point without a floor. -/
theorem screenIn_eq_scan_iff : screenIn g p d m container = .scan access container' floor ↔
    access = m.access ∧ container' = container ∧ keepReason? g p d m container = none ∧
      p.StartsFrom g d floor := by
  constructor
  · intro h
    unfold screenIn at h
    split at h
    · cases h
    · next hkeep =>
      split at h
      · next hcovers =>
        split at h
        · cases h
        · next hfloor =>
          cases h
          exact ⟨rfl, rfl, hkeep, hcovers, hfloor⟩
      · next hcovers =>
        cases h
        exact ⟨rfl, rfl, hkeep, Bool.eq_false_iff.mpr hcovers⟩
  · rintro ⟨rfl, rfl, hkeep, hstart⟩
    cases floor with
    | none => simp [screenIn, hkeep, show p.entryPoint.covers g d = false from hstart]
    | some floor => simp [screenIn, hkeep, hstart.1, hstart.2]

/-- What screening answers with modifiers, for a declaration whose container is known. -/
theorem screen_cases (g : Graph) (p : Policy) (d : Declaration) :
    (∃ resolution, screen g p d = .settled resolution ∧ resolution.level? = none) ∨
      ∃ m, d.modifiers = some m ∧ screen g p d = screenIn g p d m (d.containerId.bind g.find?) := by
  unfold screen
  cases hm : d.modifiers with
  | none => exact Or.inl ⟨_, rfl, rfl⟩
  | some m =>
    simp only []
    split
    · exact Or.inl ⟨_, rfl, rfl⟩
    · cases hc : d.containerId with
      | none => exact Or.inr ⟨m, rfl, rfl⟩
      | some id =>
        cases hf : g.find? id with
        | none => exact Or.inl ⟨.unresolvable .danglingContainer, by simp only [hf], rfl⟩
        | some container => exact Or.inr ⟨m, rfl, by simp only [hf, Option.bind_some]⟩

/-- A declaration is scanned if it has modifiers, is no unwanted constant, has no unknown container, and is
scanned with the one it has. -/
theorem screen_eq_scan_iff : screen g p d = .scan access container floor ↔
    ∃ m, d.modifiers = some m ∧ (p.options.constants = false → d.isConstant m = false) ∧
      (∀ id, d.containerId = some id → (g.find? id).isSome = true) ∧
      screenIn g p d m (d.containerId.bind g.find?) = .scan access container floor := by
  unfold screen
  cases d.modifiers with
  | none => simp
  | some m =>
    simp only [Option.some.injEq, exists_eq_left']
    by_cases hwanted : p.options.constants = false → d.isConstant m = false
    · rw [if_neg (by simpa using hwanted), and_iff_right hwanted]
      cases d.containerId with
      | none => simp
      | some id => cases hf : g.find? id <;> simp [hf]
    · rw [if_pos (by simpa using hwanted)]
      refine iff_of_false (fun heq => ?_) fun h => hwanted h.1
      cases heq

/-- A level that screening settles is the current one. -/
theorem level?_of_screen (h : screen g p d = .settled resolution)
    (hl : resolution.level? = some level) : d.access? = some level := by
  rcases screen_cases g p d with ⟨other, hother, hnone⟩ | ⟨m, hm, hin⟩
  · rw [h] at hother
    cases hother
    rw [hl] at hnone
    cases hnone
  · rw [h] at hin
    rw [level?_of_screenIn hin.symm] at hl
    rw [Declaration.access?, hm, Option.map_some, hl]

/-- What screening settles has a level, or says why there is none. -/
theorem settled_cases (h : screen g p d = .settled resolution) :
    (∃ level, resolution.level? = some level) ∨ resolution = .excluded ∨
      resolution = .unresolvable .missingModifiers ∨ resolution = .unresolvable .danglingContainer := by
  unfold screen at h
  split at h
  · cases h
    simp
  · split at h
    · cases h
      simp
    · split at h
      · exact Or.inl ⟨_, level?_of_screenIn h⟩
      · split at h
        · cases h
          simp
        · exact Or.inl ⟨_, level?_of_screenIn h⟩

/-- Screening cancels nothing. -/
theorem screen_ne_cancelled (g : Graph) (p : Policy) (d : Declaration) :
    screen g p d ≠ .settled .cancelled := by
  intro h
  rcases settled_cases h with ⟨level, hl⟩ | hr | hr | hr
  · cases hl
  · cases hr
  · cases hr
  · cases hr

/-- A scan starts from a current level and the declared type around the declaration. -/
theorem of_screen_eq_scan (h : screen g p d = .scan access container floor) :
    d.access? = some access ∧ d.containerId.bind g.find? = container := by
  obtain ⟨m, hm, -, -, hin⟩ := screen_eq_scan_iff.mp h
  obtain ⟨haccess, hcontainer, -, -⟩ := screenIn_eq_scan_iff.mp hin
  exact ⟨by rw [Declaration.access?, hm, haccess]; rfl, hcontainer.symm⟩

theorem startsFrom_of_screen (h : screen g p d = .scan access container floor) :
    p.StartsFrom g d floor := by
  obtain ⟨m, -, -, -, hin⟩ := screen_eq_scan_iff.mp h
  exact (screenIn_eq_scan_iff.mp hin).2.2.2

end LeastAccess
