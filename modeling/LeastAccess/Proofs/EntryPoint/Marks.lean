import LeastAccess.EntryPoint

/-!
# What marks an entry point

However rules are combined, it is single annotations, main methods and fixed rules that mark a declaration,
each with a floor or without one. `EntryPointRule.Marks` lists these marks. A rule covers what it marks. Its
floor is the broadest floor of the marks, and it has none as soon as one mark has none, so neither the order
nor the nesting of rules shows in it.

* `EntryPointRule.covers_iff` — a rule covers what it marks
* `EntryPointRule.isFloor_floor?` — the floor is that of the marks
* `EntryPointRule.covers_eq_of_marks`, `EntryPointRule.floor?_eq_of_marks` — nothing but marks counts
-/

namespace LeastAccess

/-- A declaration carries an annotation of some name. -/
def Declaration.Carries (d : Declaration) (wanted : String) : Prop :=
  ∃ actual ∈ d.annotations, Annotations.isNamed actual wanted = true

theorem Annotations.anyNamed_iff {d : Declaration} {wanted : String} :
    anyNamed d.annotations wanted = true ↔ d.Carries wanted := List.any_eq_true

/-! ## Floors -/

/-- The floor of what is marked with some floors: none if one of them is missing, else the broadest. -/
def IsFloor (marks : Option Level → Prop) : Option Level → Prop
  | none => marks none
  | some broadest => ¬ marks none ∧ marks (some broadest) ∧ ∀ l, marks (some l) → l ≤ broadest

namespace IsFloor

variable {marks marks' : Option Level → Prop} {floor floor' : Option Level}

theorem congr (h : IsFloor marks floor) (hiff : ∀ f, marks f ↔ marks' f) : IsFloor marks' floor := by
  cases floor with
  | none => exact (hiff none).mp h
  | some broadest =>
    obtain ⟨hnone, hsome, hle⟩ := h
    exact ⟨fun hmark => hnone ((hiff none).mpr hmark), (hiff _).mp hsome,
      fun l hmark => hle l ((hiff _).mpr hmark)⟩

theorem unique (h : IsFloor marks floor) (h' : IsFloor marks floor') : floor = floor' := by
  cases floor with
  | none =>
    cases floor' with
    | none => rfl
    | some broadest' => exact absurd h h'.1
  | some broadest =>
    cases floor' with
    | none => exact absurd h' h.1
    | some broadest' => rw [Level.le_antisymm (h'.2.2 _ h.2.1) (h.2.2 _ h'.2.1)]

/-- There is no floor exactly if one is missing. -/
theorem eq_none_iff (h : IsFloor marks floor) : floor = none ↔ marks none := by
  cases floor with
  | none => exact iff_of_true rfl h
  | some broadest => exact iff_of_false nofun h.1

/-- A floor is as broad as each one it stands for. -/
theorem le {broadest l : Level} (h : IsFloor marks (some broadest)) (hmark : marks (some l)) : l ≤ broadest :=
  h.2.2 l hmark

/-- What is marked with one floor has that floor. -/
theorem eq (floor : Option Level) : IsFloor (floor = ·) floor := by
  cases floor with
  | none => rfl
  | some l => exact ⟨nofun, rfl, fun l' hl => Option.some.inj hl ▸ Level.le_refl l⟩

/-- The floor of several floors is the floor of all that they stand for. -/
theorem flatten {ι : Type} {part : ι → Prop} {marksOf : ι → Option Level → Prop} {floorOf : ι → Option Level}
    (h : IsFloor (fun f => ∃ i, part i ∧ floorOf i = f) floor)
    (hpart : ∀ i, part i → IsFloor (marksOf i) (floorOf i)) :
    IsFloor (fun f => ∃ i, part i ∧ marksOf i f) floor := by
  cases floor with
  | none =>
    obtain ⟨i, hi, hf⟩ := h
    exact ⟨i, hi, (hpart i hi).eq_none_iff.mp hf⟩
  | some broadest =>
    obtain ⟨hnone, ⟨i, hi, hf⟩, hle⟩ := h
    refine ⟨?_, ⟨i, hi, ?_⟩, ?_⟩
    · rintro ⟨j, hj, hmark⟩
      exact hnone ⟨j, hj, (hpart j hj).eq_none_iff.mpr hmark⟩
    · have hfloor := hpart i hi
      rw [hf] at hfloor
      exact hfloor.2.1
    · rintro l ⟨j, hj, hmark⟩
      -- the part has a floor, since none is missing, and that floor is at least this mark
      have hfloor := hpart j hj
      cases hj' : floorOf j with
      | none => exact absurd ⟨j, hj, hj'⟩ hnone
      | some own =>
        rw [hj'] at hfloor
        exact Level.le_trans (hfloor.le hmark) (hle own ⟨j, hj, hj'⟩)

end IsFloor

namespace EntryPointRule

theorem isFloor_joinFloors {floors : List (Option Level)} (h : floors ≠ []) :
    IsFloor (· ∈ floors) (joinFloors floors) := by
  rw [joinFloors]
  by_cases hnone : none ∈ floors
  · rw [if_pos (List.any_eq_true.mpr ⟨none, hnone, rfl⟩)]
    exact hnone
  · have hall : ¬ floors.any Option.isNone = true := by
      rw [List.any_eq_true]
      rintro ⟨f, hf, hisNone⟩
      exact hnone (Option.isNone_iff_eq_none.mp hisNone ▸ hf)
    rw [if_neg hall]
    have hmem (l : Level) : l ∈ floors.filterMap (fun f => f) ↔ some l ∈ floors := by simp
    cases hlevels : floors.filterMap (fun f => f) with
    | nil =>
      -- a floor that is not missing would be among the levels
      obtain ⟨f, hf⟩ := List.exists_mem_of_ne_nil floors h
      cases f with
      | none => exact absurd hf hnone
      | some l =>
        have hl := (hmem l).mpr hf
        rw [hlevels] at hl
        exact absurd hl List.not_mem_nil
    | cons a rest =>
      have hmem' (l : Level) : l ∈ a :: rest ↔ some l ∈ floors := hlevels ▸ hmem l
      show IsFloor _ (some (Level.join a rest))
      refine ⟨hnone, (hmem' _).mp ?_, fun l hl => ?_⟩
      · rcases Level.join_eq_or_mem a rest with hjoin | hjoin
        · rw [hjoin]
          exact List.mem_cons_self
        · exact List.mem_cons_of_mem _ hjoin
      · rcases List.mem_cons.mp ((hmem' l).mpr hl) with rfl | hl
        · exact Level.seed_le_join _ _
        · exact Level.le_join hl

/-- The floor of a combination is that of the rules in it that cover the declaration. -/
theorem isFloor_anyOf {g : Graph} {d : Declaration} {rules : List EntryPointRule}
    (h : covers g d (.anyOf rules) = true) :
    IsFloor (fun f => ∃ rule, (rule ∈ rules ∧ covers g d rule = true) ∧ floor? g d rule = f)
      (floor? g d (.anyOf rules)) := by
  rw [covers, coversAny_eq, List.any_eq_true] at h
  obtain ⟨rule, hmem, hcovers⟩ := h
  have hne : floors g d rules ≠ [] := by
    rw [floors_eq]
    exact List.ne_nil_of_mem (List.mem_map_of_mem (List.mem_filter.mpr ⟨hmem, hcovers⟩))
  rw [floor?]
  refine (isFloor_joinFloors hne).congr fun f => ?_
  rw [floors_eq, List.mem_map]
  simp only [List.mem_filter]

/-! ## Marks -/

/-- A rule marks a declaration with a floor, or without one. -/
inductive Marks (g : Graph) (d : Declaration) : EntryPointRule → Option Level → Prop
  | annotated {annotations : List EntryPointMarker} {marker : EntryPointMarker} (hmem : marker ∈ annotations)
      (hcarries : d.Carries marker.name) : Marks g d (.annotated annotations) marker.minLevel
  | mainMethod (h : isMainMethod g d = true) : Marks g d .mainMethods none
  | fixed (floor : Option Level) : Marks g d (.fixed true floor) floor
  | anyOf {rules : List EntryPointRule} {rule : EntryPointRule} {floor : Option Level} (hmem : rule ∈ rules)
      (h : Marks g d rule floor) : Marks g d (.anyOf rules) floor

section

variable {g : Graph} {d : Declaration}

theorem marks_annotated_iff {annotations : List EntryPointMarker} {floor : Option Level} :
    Marks g d (.annotated annotations) floor ↔
      ∃ marker ∈ annotations, d.Carries marker.name ∧ marker.minLevel = floor := by
  constructor
  · rintro (⟨hmem, hcarries⟩)
    exact ⟨_, hmem, hcarries, rfl⟩
  · rintro ⟨marker, hmem, hcarries, rfl⟩
    exact .annotated hmem hcarries

theorem marks_mainMethods_iff {floor : Option Level} :
    Marks g d .mainMethods floor ↔ isMainMethod g d = true ∧ floor = none := by
  constructor
  · rintro (_ | h)
    exact ⟨h, rfl⟩
  · rintro ⟨h, rfl⟩
    exact .mainMethod h

theorem marks_anyOf_iff {rules : List EntryPointRule} {floor : Option Level} :
    Marks g d (.anyOf rules) floor ↔ ∃ rule ∈ rules, Marks g d rule floor := by
  constructor
  · rintro (_ | _ | _ | ⟨hmem, h⟩)
    exact ⟨_, hmem, h⟩
  · rintro ⟨rule, hmem, h⟩
    exact .anyOf hmem h

theorem mem_carried_iff {annotations : List EntryPointMarker} {marker : EntryPointMarker} :
    marker ∈ carried annotations d ↔ marker ∈ annotations ∧ d.Carries marker.name := by
  rw [carried, List.mem_filter, Annotations.anyNamed_iff]

mutual

/-- **A rule covers what it marks.** -/
theorem covers_iff : ∀ rule : EntryPointRule, covers g d rule = true ↔ ∃ floor, Marks g d rule floor
  | .annotated annotations => by
    rw [covers, Bool.not_eq_true', List.isEmpty_eq_false_iff_exists_mem]
    simp only [mem_carried_iff, marks_annotated_iff]
    constructor
    · rintro ⟨marker, hmem, hcarries⟩
      exact ⟨_, marker, hmem, hcarries, rfl⟩
    · rintro ⟨_, marker, hmem, hcarries, rfl⟩
      exact ⟨marker, hmem, hcarries⟩
  | .mainMethods => by
    rw [covers]
    simp [marks_mainMethods_iff]
  | .fixed answer floor => by
    rw [covers]
    constructor
    · rintro rfl
      exact ⟨floor, .fixed floor⟩
    · rintro ⟨_, _ | _ | _ | _⟩
      rfl
  | .anyOf rules => by
    rw [covers, coversAny_iff rules]
    simp only [marks_anyOf_iff]
    constructor
    · rintro ⟨rule, hmem, floor, h⟩
      exact ⟨floor, rule, hmem, h⟩
    · rintro ⟨floor, rule, hmem, h⟩
      exact ⟨rule, hmem, floor, h⟩

theorem coversAny_iff : ∀ rules : List EntryPointRule,
    coversAny g d rules = true ↔ ∃ rule ∈ rules, ∃ floor, Marks g d rule floor
  | [] => by simp [coversAny]
  | rule :: rest => by
    rw [coversAny, Bool.or_eq_true, covers_iff rule, coversAny_iff rest]
    simp only [List.mem_cons, or_and_right, exists_or, exists_eq_left]

end

mutual

/-- **The floor of a rule is that of its marks.** -/
theorem isFloor_floor? : ∀ rule : EntryPointRule, covers g d rule = true →
    IsFloor (Marks g d rule) (floor? g d rule)
  | .annotated annotations, h => by
    rw [covers, Bool.not_eq_true', List.isEmpty_eq_false_iff] at h
    have hne : (carried annotations d).map (·.minLevel) ≠ [] := fun hnil => h (List.map_eq_nil_iff.mp hnil)
    rw [floor?]
    refine (isFloor_joinFloors hne).congr fun floor => ?_
    simp only [List.mem_map, mem_carried_iff, marks_annotated_iff, and_assoc]
  | .mainMethods, h => by
    rw [covers] at h
    exact .mainMethod h
  | .fixed answer floor, h => by
    rw [covers] at h
    subst h
    have hmarks (f : Option Level) : floor = f ↔ Marks g d (.fixed true floor) f := by
      constructor
      · rintro rfl
        exact .fixed floor
      · rintro (_ | _ | _ | _)
        rfl
    rw [floor?]
    exact (IsFloor.eq floor).congr hmarks
  | .anyOf rules, h => by
    refine ((isFloor_anyOf h).flatten fun rule hrule => isFloor_each rules rule hrule.1 hrule.2).congr fun f => ?_
    rw [marks_anyOf_iff]
    constructor
    · rintro ⟨rule, ⟨hmem, -⟩, hmark⟩
      exact ⟨rule, hmem, hmark⟩
    · rintro ⟨rule, hmem, hmark⟩
      exact ⟨rule, ⟨hmem, (covers_iff rule).mpr ⟨f, hmark⟩⟩, hmark⟩

theorem isFloor_each : ∀ rules : List EntryPointRule, ∀ rule ∈ rules, covers g d rule = true →
    IsFloor (Marks g d rule) (floor? g d rule)
  | [], _, hmem, _ => absurd hmem List.not_mem_nil
  | first :: rest, rule, hmem, h => by
    rcases List.mem_cons.mp hmem with heq | hmem
    · exact heq ▸ isFloor_floor? first (heq ▸ h)
    · exact isFloor_each rest rule hmem h

end

end

/-! ## The same marks -/

section

variable {g g' : Graph} {d d' : Declaration} {rule rule' : EntryPointRule}

/-- Marks go by annotations and by main methods, and by nothing else. -/
theorem Marks.of_carries (hcarries : ∀ name, d.Carries name → d'.Carries name)
    (hmain : isMainMethod g d = true → isMainMethod g' d' = true) {floor : Option Level}
    (h : Marks g d rule floor) : Marks g' d' rule floor := by
  induction h with
  | annotated hmem hc => exact .annotated hmem (hcarries _ hc)
  | mainMethod h => exact .mainMethod (hmain h)
  | fixed floor => exact .fixed floor
  | anyOf hmem _ ih => exact .anyOf hmem ih

theorem covers_eq_of_marks (h : ∀ floor, Marks g d rule floor ↔ Marks g' d' rule' floor) :
    covers g d rule = covers g' d' rule' := by
  rw [Bool.eq_iff_iff, covers_iff, covers_iff]
  exact exists_congr h

/-- Rules with the same marks have the same floor. -/
theorem floor?_eq_of_marks (h : ∀ floor, Marks g d rule floor ↔ Marks g' d' rule' floor)
    (hcovers : covers g d rule = true) : floor? g d rule = floor? g' d' rule' :=
  ((isFloor_floor? rule hcovers).congr h).unique
    (isFloor_floor? rule' ((covers_eq_of_marks h).symm.trans hcovers))

end

end EntryPointRule

end LeastAccess
