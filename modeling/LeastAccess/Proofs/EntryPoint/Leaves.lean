import LeastAccess.Proofs.EntryPoint.Marks

/-!
# The leaves of a combination

A rule that is put together from others answers as the collection of its leaves, which are the rules in it,
at any depth, that are not put together themselves. Order, repetition and nesting do not show, and neither
does a leaf that does not cover the declaration, whatever floor it has.

* `EntryPointRule.covers_iff_leaf` — what one of the leaves covers is covered
* `EntryPointRule.isFloor_leaves` — the floor is that of the leaves that cover the declaration
* `EntryPointRule.combination_is_flat` — all of it together, and the annotations of a rule as rules of their own
-/

namespace LeastAccess

namespace EntryPointRule

mutual

/-- The rules in a rule that are not put together from others. -/
def leaves : EntryPointRule → List EntryPointRule
  | .annotated annotations => [.annotated annotations]
  | .mainMethods => [.mainMethods]
  | .fixed covers floor => [.fixed covers floor]
  | .anyOf rules => leavesOf rules

/-- The leaves of some rules, one after the other. -/
def leavesOf : List EntryPointRule → List EntryPointRule
  | [] => []
  | rule :: rest => leaves rule ++ leavesOf rest

end

theorem mem_leavesOf_iff {leaf : EntryPointRule} {rules : List EntryPointRule} :
    leaf ∈ leavesOf rules ↔ ∃ rule ∈ rules, leaf ∈ leaves rule := by
  induction rules with
  | nil => simp [leavesOf]
  | cons rule rest ih => simp [leavesOf, ih]

mutual

/-- What holds of every leaf, and of a combination of what it holds of, holds of every rule. -/
theorem induction_on_leaves {P : EntryPointRule → Prop} (leaf : ∀ rule, leaves rule = [rule] → P rule)
    (anyOf : ∀ rules : List EntryPointRule, (∀ rule ∈ rules, P rule) → P (.anyOf rules)) :
    ∀ rule : EntryPointRule, P rule
  | .annotated annotations => leaf _ (by rw [leaves])
  | .mainMethods => leaf _ (by rw [leaves])
  | .fixed covers floor => leaf _ (by rw [leaves])
  | .anyOf rules => anyOf rules (induction_on_each leaf anyOf rules)

theorem induction_on_each {P : EntryPointRule → Prop} (leaf : ∀ rule, leaves rule = [rule] → P rule)
    (anyOf : ∀ rules : List EntryPointRule, (∀ rule ∈ rules, P rule) → P (.anyOf rules)) :
    ∀ (rules : List EntryPointRule), ∀ rule ∈ rules, P rule
  | [], _, hmem => absurd hmem List.not_mem_nil
  | first :: rest, rule, hmem => by
    rcases List.mem_cons.mp hmem with heq | hmem
    · exact heq ▸ induction_on_leaves leaf anyOf first
    · exact induction_on_each leaf anyOf rest rule hmem

end

section

variable {g : Graph} {d : Declaration}

theorem covers_anyOf_iff {rules : List EntryPointRule} :
    covers g d (.anyOf rules) = true ↔ ∃ rule ∈ rules, covers g d rule = true := by
  rw [covers, coversAny_eq, List.any_eq_true]

/-- A rule covers what one of its leaves covers. -/
theorem covers_iff_leaf (rule : EntryPointRule) :
    covers g d rule = true ↔ ∃ leaf ∈ leaves rule, covers g d leaf = true := by
  induction rule using induction_on_leaves with
  | leaf rule hleaf => simp [hleaf]
  | anyOf rules ih =>
    rw [covers_anyOf_iff, leaves]
    simp only [mem_leavesOf_iff]
    constructor
    · rintro ⟨rule, hmem, hcovers⟩
      obtain ⟨leaf, hleaf, hcovers⟩ := (ih rule hmem).mp hcovers
      exact ⟨leaf, ⟨rule, hmem, hleaf⟩, hcovers⟩
    · rintro ⟨leaf, ⟨rule, hmem, hleaf⟩, hcovers⟩
      exact ⟨rule, hmem, (ih rule hmem).mpr ⟨leaf, hleaf, hcovers⟩⟩

/-- The floor of a leaf of a rule that covers the declaration. -/
def LeafFloor (g : Graph) (d : Declaration) (rule : EntryPointRule) (floor : Option Level) : Prop :=
  ∃ leaf ∈ leaves rule, covers g d leaf = true ∧ floor? g d leaf = floor

/-- The floor of a rule is that of its leaves that cover the declaration. -/
theorem isFloor_leaves (rule : EntryPointRule) (h : covers g d rule = true) :
    IsFloor (LeafFloor g d rule) (floor? g d rule) := by
  induction rule using induction_on_leaves with
  | leaf rule hleaf =>
    refine (IsFloor.eq _).congr fun floor => ?_
    simp [LeafFloor, hleaf, h]
  | anyOf rules ih =>
    refine ((isFloor_anyOf h).flatten fun rule hrule => ih rule hrule.1 hrule.2).congr fun floor => ?_
    simp only [LeafFloor, leaves, mem_leavesOf_iff]
    constructor
    · rintro ⟨rule, ⟨hmem, -⟩, leaf, hleaf, hcovers, hfloor⟩
      exact ⟨leaf, ⟨rule, hmem, hleaf⟩, hcovers, hfloor⟩
    · rintro ⟨leaf, ⟨rule, hmem, hleaf⟩, hcovers, hfloor⟩
      have hrule := (covers_iff_leaf rule).mpr ⟨leaf, hleaf, hcovers⟩
      exact ⟨rule, ⟨hmem, hrule⟩, leaf, hleaf, hcovers, hfloor⟩

/-! ## The same answers -/

/-- Two rules cover the declaration or not alike, and have the same floor. -/
def AnswersAs (g : Graph) (d : Declaration) (rule rule' : EntryPointRule) : Prop :=
  covers g d rule = covers g d rule' ∧ floor? g d rule = floor? g d rule'

/-- A combination that does not cover the declaration has no floor. -/
theorem floor?_anyOf_of_not_covers {rules : List EntryPointRule} (h : covers g d (.anyOf rules) ≠ true) :
    floor? g d (.anyOf rules) = none := by
  have hnone : rules.filter (covers g d) = [] :=
    List.filter_eq_nil_iff.mpr fun rule hmem hcovers => h (covers_anyOf_iff.mpr ⟨rule, hmem, hcovers⟩)
  rw [floor?, floors_eq, hnone]
  rfl

/-- Only leaves that cover the declaration count, wherever and however often they stand. -/
theorem answersAs_of_leaves {rules rules' : List EntryPointRule}
    (h : ∀ leaf, covers g d leaf = true →
      (leaf ∈ leaves (.anyOf rules) ↔ leaf ∈ leaves (.anyOf rules'))) :
    AnswersAs g d (.anyOf rules) (.anyOf rules') := by
  have hcovers : covers g d (.anyOf rules) = covers g d (.anyOf rules') := by
    rw [Bool.eq_iff_iff, covers_iff_leaf, covers_iff_leaf]
    exact exists_congr fun leaf => and_congr_left fun hleaf => h leaf hleaf
  refine ⟨hcovers, ?_⟩
  by_cases hrules : covers g d (.anyOf rules) = true
  · refine ((isFloor_leaves _ hrules).congr fun floor => ?_).unique (isFloor_leaves _ (hcovers ▸ hrules))
    exact exists_congr fun leaf => and_congr_left fun hleaf => h leaf hleaf.1
  · rw [floor?_anyOf_of_not_covers hrules, floor?_anyOf_of_not_covers (hcovers ▸ hrules)]

/-- A combination answers by which rules are in it. -/
theorem answersAs_of_mem_iff {rules rules' : List EntryPointRule} (h : ∀ rule, rule ∈ rules ↔ rule ∈ rules') :
    AnswersAs g d (.anyOf rules) (.anyOf rules') := by
  refine answersAs_of_leaves fun leaf _ => ?_
  simp only [leaves, mem_leavesOf_iff, h]

/-- A combination in a combination may be replaced by what is in it. -/
theorem answersAs_splice (before inner after : List EntryPointRule) :
    AnswersAs g d (.anyOf (before ++ .anyOf inner :: after)) (.anyOf (before ++ inner ++ after)) := by
  refine answersAs_of_leaves fun leaf _ => ?_
  simp [leaves, mem_leavesOf_iff, or_and_right, exists_or]

/-! ## Single annotations -/

theorem covers_annotated_singleton (a : EntryPointMarker) :
    covers g d (.annotated [a]) = Annotations.anyNamed d.annotations a.name := by
  rw [covers, carried]
  cases h : Annotations.anyNamed d.annotations a.name <;> simp [h]

/-- The floor of a rule for one annotation is that of the annotation, if it is there. -/
theorem floor?_annotated_singleton {a : EntryPointMarker} (h : covers g d (.annotated [a]) = true) :
    floor? g d (.annotated [a]) = a.minLevel := by
  rw [covers_annotated_singleton] at h
  have hcarried : carried [a] d = [a] := by simp [carried, h]
  rw [floor?, hcarried]
  cases hfloor : a.minLevel <;> simp [joinFloors, hfloor, Level.broadest?]

/-- The rules for the single annotations that cover the declaration are those for the carried ones. -/
theorem floors_annotated_singletons (annotations : List EntryPointMarker) :
    floors g d (annotations.map fun a => .annotated [a]) = (carried annotations d).map (·.minLevel) := by
  induction annotations with
  | nil => rfl
  | cons a rest ih =>
    rw [List.map_cons, floors, ih]
    by_cases h : covers g d (.annotated [a]) = true
    · have hcarried : carried (a :: rest) d = a :: carried rest d :=
        List.filter_cons_of_pos (covers_annotated_singleton a ▸ h)
      rw [if_pos h, floor?_annotated_singleton h, hcarried, List.map_cons]
    · have hcarried : carried (a :: rest) d = carried rest d :=
        List.filter_cons_of_neg (covers_annotated_singleton a ▸ h)
      rw [if_neg h, hcarried]

/-- A rule for some annotations answers as the combination of the rules for each of them. -/
theorem answersAs_annotated (annotations : List EntryPointMarker) :
    AnswersAs g d (.annotated annotations) (.anyOf (annotations.map fun a => .annotated [a])) := by
  constructor
  · rw [Bool.eq_iff_iff, covers_iff, covers_iff]
    refine exists_congr fun floor => ?_
    rw [marks_annotated_iff, marks_anyOf_iff]
    constructor
    · rintro ⟨marker, hmem, h⟩
      exact ⟨_, List.mem_map_of_mem hmem, marks_annotated_iff.mpr ⟨marker, List.mem_singleton_self _, h⟩⟩
    · rintro ⟨_, hmem, h⟩
      obtain ⟨a, ha, rfl⟩ := List.mem_map.mp hmem
      obtain ⟨marker, hmarker, h⟩ := marks_annotated_iff.mp h
      rw [List.mem_singleton.mp hmarker] at h
      exact ⟨a, ha, h⟩
  · rw [floor?, floor?, floors_annotated_singletons]

end

end EntryPointRule

/-- A field that an injection framework and a test framework reach. -/
def Sample.markedField : Declaration where
  id := "A.f"
  name := "f"
  kind := .field
  annotations := ["@Inject", "org.junit.Test"]

namespace EntryPointRule

/-- **Combined rules are a flat, unordered collection.** A combination answers by which rules are in it, however
often and in which order, and one that is in it may be replaced by what is in that one. Leaves that do not cover
the declaration do not count. A rule covers what one of its leaves covers, and then its floor is missing exactly
if one of the leaves that cover the declaration has none; otherwise it is the broadest of theirs. A rule for
some annotations is the combination of the rules for each of them. -/
theorem combination_is_flat (g : Graph) (d : Declaration) :
    (∀ rules rules' : List EntryPointRule, (∀ rule, rule ∈ rules ↔ rule ∈ rules') →
      AnswersAs g d (.anyOf rules) (.anyOf rules')) ∧
    (∀ before inner after : List EntryPointRule,
      AnswersAs g d (.anyOf (before ++ .anyOf inner :: after)) (.anyOf (before ++ inner ++ after))) ∧
    (∀ rules rules' : List EntryPointRule,
      (∀ leaf, covers g d leaf = true → (leaf ∈ leaves (.anyOf rules) ↔ leaf ∈ leaves (.anyOf rules'))) →
        AnswersAs g d (.anyOf rules) (.anyOf rules')) ∧
    (∀ rule : EntryPointRule,
      (covers g d rule = true ↔ ∃ leaf ∈ leaves rule, covers g d leaf = true) ∧
      (covers g d rule = true →
        (floor? g d rule = none ↔ ∃ leaf ∈ leaves rule, covers g d leaf = true ∧ floor? g d leaf = none) ∧
        ∀ broadest, floor? g d rule = some broadest →
          (∃ leaf ∈ leaves rule, covers g d leaf = true ∧ floor? g d leaf = some broadest) ∧
          ∀ leaf ∈ leaves rule, covers g d leaf = true →
            ∃ floor, floor? g d leaf = some floor ∧ floor ≤ broadest)) ∧
    ∀ annotations : List EntryPointMarker,
      AnswersAs g d (.annotated annotations) (.anyOf (annotations.map fun a => .annotated [a])) := by
  refine ⟨fun _ _ => answersAs_of_mem_iff, answersAs_splice, fun _ _ => answersAs_of_leaves,
    fun rule => ⟨covers_iff_leaf rule, fun hcovers => ?_⟩, answersAs_annotated⟩
  have hfloor := isFloor_leaves rule hcovers
  refine ⟨hfloor.eq_none_iff, fun broadest hbroadest => ?_⟩
  rw [hbroadest] at hfloor
  refine ⟨hfloor.2.1, fun leaf hleaf hcovers => ?_⟩
  cases hown : floor? g d leaf with
  | none => exact absurd ⟨leaf, hleaf, hcovers, hown⟩ hfloor.1
  | some floor => exact ⟨floor, rfl, hfloor.le ⟨leaf, hleaf, hcovers, hown⟩⟩

/-- Rules in three layers, with a broad floor that does not cover the field, and then with one missing. -/
theorem floor_of_nested_rules :
    let g : Graph := ⟨[]⟩
    let d := Sample.markedField
    let injected : EntryPointRule := .annotated [⟨"javax.inject.Inject", some .pkg⟩, ⟨"Keep", some .pub⟩]
    let nested : EntryPointRule := .anyOf [injected, .anyOf [.fixed true (some .prot)]]
    let rules : List EntryPointRule := [.fixed false (some .pub), nested, .mainMethods]
    let kept : EntryPointRule := .anyOf (.annotated [⟨"Test", none⟩] :: rules)
    AnswersAs g d (.anyOf rules) (.anyOf (nested :: rules.reverse)) ∧
      AnswersAs g d (.anyOf rules) (.anyOf [injected, .fixed true (some .prot)]) ∧
      floor? g d (.anyOf rules) = some .prot ∧
      (∀ leaf ∈ leaves (.anyOf rules), covers g d leaf = true →
        ∃ floor, floor? g d leaf = some floor ∧ floor ≤ .prot) ∧
      covers g d kept = true ∧ floor? g d kept = none := by
  intro g d injected nested rules kept
  obtain ⟨hmem, -, hleaves, hfloor, -⟩ := combination_is_flat g d
  have hcovers : covers g d (.anyOf rules) = true := by decide +kernel
  have hkept : covers g d kept = true := by decide +kernel
  have hprot : floor? g d (.anyOf rules) = some .prot := by decide +kernel
  refine ⟨hmem _ _ fun rule => ?_, hleaves _ _ fun leaf hleaf => ?_, hprot,
    (((hfloor _).2 hcovers).2 .prot hprot).2, hkept, ?_⟩
  · simp only [rules, List.reverse_cons, List.reverse_nil, List.nil_append, List.cons_append, List.mem_cons,
      List.not_mem_nil, or_false]
    grind
  · -- the two leaves that are left out do not cover the field
    have hfixed : leaf ≠ .fixed false (some .pub) := by
      rintro rfl
      cases hleaf
    have hmain : leaf ≠ .mainMethods := by
      rintro rfl
      exact absurd hleaf (by decide +kernel)
    simp [rules, nested, injected, leaves, leavesOf, hfixed, hmain]
  · exact ((hfloor kept).2 hkept).1.mpr ⟨.annotated [⟨"Test", none⟩], by simp [kept, leaves, leavesOf],
      by decide +kernel, by decide +kernel⟩

end EntryPointRule

end LeastAccess
