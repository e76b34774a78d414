import LeastAccess.Schema.Basic
import Mathlib.Data.List.Forall2

/-!
# The grammar of a schema

A check computes what a schema makes of a document, with all issues. `Schema.Reads` says the same without
issues: which documents a schema reads, and as what. It is read off the schema alone. An object is read
field by field, so members that no field names are left out; a record is read in key order and drops the
reserved key; a refinement holds of what has been read.

* `Schema.check_eq_accept_iff` — the check accepts exactly what the schema reads
* `Schema.validate_eq_ok_iff` — so does validation
* `Schema.issues_ne_nil_of_validate` — a refusal names at least one issue
-/

namespace LeastAccess

mutual

/-- A schema reads a document, or the absence of one, as the second document. -/
def Schema.Reads : Schema → Option Json → Json → Prop
  | .text nonEmpty, v, w => ∃ s, v = some (.text s) ∧ w = .text s ∧ (nonEmpty = true → s ≠ "")
  | .flag, v, w => ∃ b, v = some (.bool b) ∧ w = .bool b
  | .whole positive, v, w => ∃ x, v = some (.number x) ∧ w = .number x ∧ x.isInteger = true ∧
      if positive then x.isPositive = true else x.isNegative = false
  | .word options, v, w => ∃ s ∈ options, v = some (.text s) ∧ w = .text s
  | .one, v, w => v = some (.number .one) ∧ w = .number .one
  | .nullable inner, v, w => v = some .null ∧ w = .null ∨ v ≠ some .null ∧ inner.Reads v w
  | .list item, v, w => ∃ items ws, v = some (.list items) ∧ w = .list ws ∧
      List.Forall₂ (fun x w => item.Reads (some x) w) items ws
  | .record item, v, w => ∃ members ms, v = some (.object members) ∧
      w = .object (ms.filter (·.1 != reservedKey)) ∧
      List.Forall₂ (fun m m' => m.1 = m'.1 ∧ item.Reads (some m.2) m'.2)
        (Members.inKeyOrder members) ms
  | .object fields, v, w => ∃ members ms, v = some (.object members) ∧ w = .object ms ∧
      fields.Read members ms
  | .tagged tag variants, v, w => ∃ members, v = some (.object members) ∧
      ∃ s, Members.get? members tag = some (.text s) ∧
        ∃ ms, w = .object ((tag, .text s) :: ms) ∧ variants.Read s members ms
  | .refined inner rule, v, w => inner.Reads v w ∧ rule.holds w = true

/-- Fields read the members of an object as members. -/
def Fields.Read : Fields → Members Json → List (String × Json) → Prop
  | .none, _, ms => ms = []
  | .required name schema rest, members, ms => ∃ w ms', ms = (name, w) :: ms' ∧
      schema.Reads (Members.get? members name) w ∧ rest.Read members ms'
  | .optional name schema rest, members, ms =>
      match Members.get? members name with
      | some v => ∃ w ms', ms = (name, w) :: ms' ∧ schema.Reads (some v) w ∧ rest.Read members ms'
      | none => rest.Read members ms
  | .defaulted name value schema rest, members, ms => ∃ w ms', ms = (name, w) :: ms' ∧
      schema.Reads (some ((Members.get? members name).getD value)) w ∧ rest.Read members ms'

/-- The fields of the variant that a word names read the members of an object. -/
def Variants.Read : Variants → String → Members Json → List (String × Json) → Prop
  | .none, _, _, _ => False
  | .variant name fields rest, s, members, ms =>
    if s = name then fields.Read members ms else rest.Read s members ms

end

/-! ## Accepted parts -/

theorem wholeFaults_eq_nil_iff {positive : Bool} {x : Binary64} : wholeFaults positive x = [] ↔
    x.isInteger = true ∧ if positive then x.isPositive = true else x.isNegative = false := by
  cases positive <;> simp [wholeFaults]

namespace Checked

variable {start : Nat} {c : Checked} {cs : List Checked} {v w : Json} {ws : List Json}
  {members : List (String × Checked)} {ms : List (String × Json)}

theorem eq_accept_iff : c = accept w ↔ c.value? = some w ∧ c.issues = [] := by
  cases c
  simp [accept]

theorem accept_inj : accept v = accept w ↔ w = v := by
  rw [eq_accept_iff, accept, eq_comm (a := w)]
  simp

theorem spotted_eq_accept_iff {faults : List Fault} :
    spotted v faults = accept w ↔ w = v ∧ faults = [] := by
  rw [eq_accept_iff, spotted, eq_comm (a := w)]
  simp

theorem reject_ne_accept {fault : Fault} : reject fault ≠ accept w := by
  simp [reject, accept]

theorem mismatch_ne_accept {expected : String} {v : Option Json} : mismatch expected v ≠ accept w := by
  cases v <;> exact reject_ne_accept

theorem refine_eq_accept_iff {rule : Refinement} :
    c.refine rule = accept w ↔ c = accept w ∧ rule.holds w = true := by
  rw [refine]
  cases hc : c.value? with
  | none => simp [eq_accept_iff, hc]
  | some v =>
    by_cases hv : rule.holds v = true
    · simp [eq_accept_iff, hc, hv]
      rintro rfl -
      exact hv
    · simp [eq_accept_iff, hc, hv]
      rintro rfl -
      simpa using hv

/-- What is put together from parts is accepted if the parts are. -/
theorem assembled_eq_accept_iff {α : Type} {parts : Option α × List Issue} {f : α → Json} :
    (⟨parts.1.map f, parts.2⟩ : Checked) = accept w ↔ ∃ a, w = f a ∧ parts = (some a, []) := by
  obtain ⟨values, issues⟩ := parts
  cases values <;> simp [eq_accept_iff, eq_comm (a := w)]

/-- The items of a list are accepted if each of them is. -/
theorem ofItems_eq_accepted_iff : ofItems start cs = (some ws, []) ↔ cs = ws.map accept := by
  induction cs generalizing start ws with
  | nil => cases ws <;> simp [ofItems]
  | cons c cs ih =>
    cases hrest : ofItems (start + 1) cs with
    | mk values issues =>
      have ih (ws : List Json) := @ih (start + 1) ws
      rw [hrest] at ih
      rw [ofItems, hrest]
      cases hc : c.value? with
      | none => cases ws <;> simp [eq_accept_iff, hc]
      | some v =>
        cases values <;> cases ws <;>
          simp [eq_accept_iff, hc, ← ih, issuesUnder, and_assoc, and_left_comm]

theorem ofMembers_eq_accepted_iff : ofMembers members = (some ms, []) ↔
    members = ms.map fun m => (m.1, accept m.2) := by
  induction members generalizing ms with
  | nil => cases ms <;> simp [ofMembers]
  | cons m members ih =>
    cases hrest : ofMembers members with
    | mk values issues =>
      rw [hrest] at ih
      rw [ofMembers, hrest]
      cases hc : m.2.value? with
      | none => cases ms <;> simp [eq_accept_iff, hc, Prod.ext_iff]
      | some v =>
        cases values <;> cases ms <;>
          simp [eq_accept_iff, hc, ← ih, issuesUnder, and_assoc, and_left_comm, Prod.ext_iff]

theorem cons_eq_accepted_iff {k : String} :
    (k, c) :: members = ms.map (fun m => (m.1, accept m.2)) ↔ ∃ w ms', ms = (k, w) :: ms' ∧
      c = accept w ∧ members = ms'.map fun m => (m.1, accept m.2) := by
  rw [eq_comm, List.map_eq_cons_iff]
  constructor
  · rintro ⟨⟨k', w⟩, ms', rfl, h, rfl⟩
    rw [Prod.mk.injEq] at h
    obtain ⟨rfl, rfl⟩ := h
    exact ⟨w, ms', rfl, rfl, rfl⟩
  · rintro ⟨w, ms', rfl, rfl, rfl⟩
    exact ⟨(k, w), ms', rfl, rfl, rfl⟩

end Checked

/-! ## One step of a check -/

namespace Schema

variable {v : Option Json} {w : Json}

theorem check_text_iff {nonEmpty : Bool} : check (.text nonEmpty) v = .accept w ↔
    ∃ s, v = some (.text s) ∧ w = .text s ∧ (nonEmpty = true → s ≠ "") := by
  rw [check.eq_def]
  rcases v with _ | (_ | _ | _ | s | _ | _)
  case some.text => simp [Checked.spotted_eq_accept_iff]
  all_goals simp [Checked.mismatch_ne_accept]

theorem check_flag_iff : check .flag v = .accept w ↔ ∃ b, v = some (.bool b) ∧ w = .bool b := by
  rw [check.eq_def]
  rcases v with _ | (_ | b | _ | _ | _ | _)
  case some.bool => simp [Checked.accept_inj]
  all_goals simp [Checked.mismatch_ne_accept]

theorem check_whole_iff {positive : Bool} : check (.whole positive) v = .accept w ↔
    ∃ x, v = some (.number x) ∧ w = .number x ∧ x.isInteger = true ∧
      if positive then x.isPositive = true else x.isNegative = false := by
  rw [check.eq_def]
  rcases v with _ | (_ | _ | (_ | _ | _) | _ | _ | _)
  case some.number.nan => simp [Checked.mismatch_ne_accept, Binary64.isInteger]
  case some.number.infinity => simp [Checked.spotted_eq_accept_iff, wholeFaults_eq_nil_iff]
  case some.number.finite => simp [Checked.spotted_eq_accept_iff, wholeFaults_eq_nil_iff]
  all_goals simp [Checked.mismatch_ne_accept]

theorem check_word_iff {options : List String} : check (.word options) v = .accept w ↔
    ∃ s ∈ options, v = some (.text s) ∧ w = .text s := by
  rw [check.eq_def]
  rcases v with _ | (_ | _ | _ | s | _ | _)
  case some.text =>
    by_cases hs : s ∈ options
    · simp [hs, Checked.accept_inj]
    · simp [hs, Checked.reject_ne_accept]
  all_goals simp [Checked.reject_ne_accept]

theorem check_one_iff : check .one v = .accept w ↔ v = some (.number .one) ∧ w = .number .one := by
  rw [check.eq_def]
  rcases v with _ | (_ | _ | x | _ | _ | _)
  case some.number =>
    by_cases hx : x = .one
    · simp [hx, Checked.accept_inj]
    · simp [hx, Checked.reject_ne_accept]
  all_goals simp [Checked.reject_ne_accept]

theorem check_nullable_iff {inner : Schema} : check (.nullable inner) v = .accept w ↔
    v = some .null ∧ w = .null ∨ v ≠ some .null ∧ check inner v = .accept w := by
  rw [check.eq_def]
  rcases v with _ | (_ | _ | _ | _ | _ | _)
  case some.null => simp [Checked.accept_inj]
  all_goals simp

theorem check_list_iff {item : Schema} : check (.list item) v = .accept w ↔
    ∃ items ws, v = some (.list items) ∧ w = .list ws ∧
      List.Forall₂ (fun x w => check item (some x) = .accept w) items ws := by
  rw [check.eq_def]
  rcases v with _ | (_ | _ | _ | _ | items | _)
  case some.list =>
    have hitems (ws : List Json) : List.Forall₂ (fun x w => check item (some x) = .accept w) items ws ↔
        Checked.ofItems 0 (items.map fun x => check item (some x)) = (some ws, []) := by
      rw [Checked.ofItems_eq_accepted_iff, ← List.forall₂_eq_eq_eq, List.forall₂_map_left_iff,
        List.forall₂_map_right_iff]
    simp only [Option.some.injEq, Json.list.injEq, exists_and_left, exists_eq_left', hitems]
    exact Checked.assembled_eq_accept_iff
  all_goals simp [Checked.mismatch_ne_accept]

theorem check_record_iff {item : Schema} : check (.record item) v = .accept w ↔
    ∃ members ms, v = some (.object members) ∧ w = .object (ms.filter (·.1 != reservedKey)) ∧
      List.Forall₂ (fun m m' => m.1 = m'.1 ∧ check item (some m.2) = .accept m'.2)
        (Members.inKeyOrder members) ms := by
  rw [check.eq_def]
  rcases v with _ | (_ | _ | _ | _ | _ | members)
  case some.object =>
    have hmembers (ms : List (String × Json)) :
        List.Forall₂ (fun m m' => m.1 = m'.1 ∧ check item (some m.2) = .accept m'.2)
            (Members.inKeyOrder members) ms ↔
          Checked.ofMembers ((Members.inKeyOrder members).map fun m => (m.1, check item (some m.2))) =
            (some ms, []) := by
      rw [Checked.ofMembers_eq_accepted_iff, ← List.forall₂_eq_eq_eq, List.forall₂_map_left_iff,
        List.forall₂_map_right_iff]
      simp only [Prod.mk.injEq]
    simp only [Option.some.injEq, Json.object.injEq, exists_and_left, exists_eq_left', hmembers]
    exact Checked.assembled_eq_accept_iff
  all_goals simp [Checked.mismatch_ne_accept]

theorem check_object_iff {fields : Fields} : check (.object fields) v = .accept w ↔
    ∃ members ms, v = some (.object members) ∧ w = .object ms ∧
      checkFields fields members = ms.map fun m => (m.1, .accept m.2) := by
  rw [check.eq_def]
  rcases v with _ | (_ | _ | _ | _ | _ | members)
  case some.object =>
    simp only [Option.some.injEq, Json.object.injEq, exists_and_left, exists_eq_left',
      ← Checked.ofMembers_eq_accepted_iff]
    exact Checked.assembled_eq_accept_iff
  all_goals simp [Checked.mismatch_ne_accept]

theorem check_tagged_iff {tag : String} {variants : Variants} :
    check (.tagged tag variants) v = .accept w ↔ ∃ members, v = some (.object members) ∧
      checkVariants tag variants variants.names (Members.get? members tag) members = .accept w := by
  rw [check.eq_def]
  rcases v with _ | (_ | _ | _ | _ | _ | members)
  case some.object => simp
  all_goals simp [Checked.mismatch_ne_accept]

end Schema

/-! ## The check against the grammar -/

mutual

/-- **A schema accepts what its grammar reads.** -/
theorem Schema.check_eq_accept_iff : ∀ (s : Schema) (v : Option Json) (w : Json),
    s.check v = .accept w ↔ s.Reads v w
  | .text _, _, _ => by rw [Schema.check_text_iff, Schema.Reads]
  | .flag, _, _ => by rw [Schema.check_flag_iff, Schema.Reads]
  | .whole _, _, _ => by rw [Schema.check_whole_iff, Schema.Reads]
  | .word _, _, _ => by rw [Schema.check_word_iff, Schema.Reads]
  | .one, _, _ => by rw [Schema.check_one_iff, Schema.Reads]
  | .nullable inner, v, w => by
    rw [Schema.check_nullable_iff, Schema.check_eq_accept_iff inner v w, Schema.Reads]
  | .list item, _, _ => by
    simp only [Schema.check_list_iff, fun x => Schema.check_eq_accept_iff item (some x), Schema.Reads]
  | .record item, _, _ => by
    simp only [Schema.check_record_iff, fun x => Schema.check_eq_accept_iff item (some x), Schema.Reads]
  | .object fields, _, _ => by
    simp only [Schema.check_object_iff, Fields.check_eq_accept_iff fields, Schema.Reads]
  | .tagged tag variants, v, w => by
    simp only [Schema.check_tagged_iff, Variants.check_eq_accept_iff variants, Schema.Reads]
  | .refined inner rule, v, w => by
    rw [Schema.check_refined, Checked.refine_eq_accept_iff, Schema.check_eq_accept_iff inner v w,
      Schema.Reads]

theorem Fields.check_eq_accept_iff : ∀ (fields : Fields) (members : Members Json)
    (ms : List (String × Json)),
    Schema.checkFields fields members = ms.map (fun m => (m.1, .accept m.2)) ↔ fields.Read members ms
  | .none, members, ms => by
    rw [Schema.checkFields, Fields.Read]
    exact eq_comm.trans List.map_eq_nil_iff
  | .required name schema rest, members, ms => by
    rw [Schema.checkFields, Fields.Read, Checked.cons_eq_accepted_iff]
    simp only [Schema.check_eq_accept_iff schema, Fields.check_eq_accept_iff rest]
  | .optional name schema rest, members, ms => by
    rw [Schema.checkFields, Fields.Read]
    cases Members.get? members name with
    | none => exact Fields.check_eq_accept_iff rest members ms
    | some v =>
      simp only [Checked.cons_eq_accepted_iff, Schema.check_eq_accept_iff schema,
        Fields.check_eq_accept_iff rest]
  | .defaulted name value schema rest, members, ms => by
    rw [Schema.checkFields, Fields.Read, Checked.cons_eq_accepted_iff]
    simp only [Schema.check_eq_accept_iff schema, Fields.check_eq_accept_iff rest]

theorem Variants.check_eq_accept_iff : ∀ (variants : Variants) (tag : String) (options : List String)
    (chosen : Option Json) (members : Members Json) (w : Json),
    Schema.checkVariants tag variants options chosen members = .accept w ↔
      ∃ s, chosen = some (.text s) ∧
        ∃ ms, w = .object ((tag, .text s) :: ms) ∧ variants.Read s members ms
  | .none, _, _, _, _, _ => by
    simp [Schema.checkVariants, Variants.Read, Checked.eq_accept_iff]
  | .variant name fields rest, tag, options, chosen, members, w => by
    rw [Schema.checkVariants.eq_def]
    rcases chosen with _ | (_ | _ | _ | s | _ | _)
    case some.text =>
      simp only [Option.some.injEq, Json.text.injEq, exists_eq_left', Variants.Read]
      by_cases hs : s = name
      · simp only [if_pos hs, ← Fields.check_eq_accept_iff fields, ← Checked.ofMembers_eq_accepted_iff]
        exact Checked.assembled_eq_accept_iff
      · simp only [if_neg hs]
        rw [Variants.check_eq_accept_iff rest]
        simp
    -- what is no word names no variant, neither this one nor one of the rest
    all_goals
      refine (Variants.check_eq_accept_iff rest _ _ _ _ _).trans ?_
      simp

end

/-- What a document is read as is determined. -/
theorem Schema.Reads.unique {s : Schema} {v : Option Json} {w w' : Json} (h : s.Reads v w) (h' : s.Reads v w') :
    w = w' := by
  rw [← Schema.check_eq_accept_iff] at h h'
  exact Checked.accept_inj.mp (h'.symm.trans h)

/-! ## Refusals -/

/-- A check without a value has an issue. -/
def Checked.Explained (c : Checked) : Prop := c.value? = none → c.issues ≠ []

namespace Checked

theorem explained_of_value {v : Json} {issues : List Issue} : Explained ⟨some v, issues⟩ :=
  fun h => nomatch h

theorem explained_reject {fault : Fault} : (reject fault).Explained := fun _ => List.cons_ne_nil _ _

theorem explained_mismatch {expected : String} {v : Option Json} : (mismatch expected v).Explained := by
  cases v <;> exact explained_reject

theorem issuesUnder_eq_nil_iff {c : Checked} {step : PathStep} : c.issuesUnder step = [] ↔ c.issues = [] :=
  List.map_eq_nil_iff

theorem explained_ofItems {f : List Json → Json} {cs : List Checked} (h : ∀ c ∈ cs, c.Explained)
    (start : Nat) : Explained ⟨(ofItems start cs).1.map f, (ofItems start cs).2⟩ := by
  simp only [Explained, Option.map_eq_none_iff]
  induction cs generalizing start with
  | nil => exact fun h => nomatch h
  | cons c cs ih =>
    obtain ⟨hc, hcs⟩ := List.forall_mem_cons.mp h
    intro hnone hnil
    rw [ofItems, List.append_eq_nil_iff, issuesUnder_eq_nil_iff] at hnil
    obtain ⟨v, hv⟩ := Option.ne_none_iff_exists'.mp fun h => hc h hnil.1
    obtain ⟨vs, hvs⟩ := Option.ne_none_iff_exists'.mp fun h => ih hcs (start + 1) h hnil.2
    simp [ofItems, hv, hvs] at hnone

theorem explained_ofMembers {f : List (String × Json) → Json} {members : List (String × Checked)}
    (h : ∀ m ∈ members, m.2.Explained) :
    Explained ⟨(ofMembers members).1.map f, (ofMembers members).2⟩ := by
  simp only [Explained, Option.map_eq_none_iff]
  induction members with
  | nil => exact fun h => nomatch h
  | cons m members ih =>
    obtain ⟨hm, hmembers⟩ := List.forall_mem_cons.mp h
    intro hnone hnil
    rw [ofMembers, List.append_eq_nil_iff, issuesUnder_eq_nil_iff] at hnil
    obtain ⟨v, hv⟩ := Option.ne_none_iff_exists'.mp fun h => hm h hnil.1
    obtain ⟨ms, hms⟩ := Option.ne_none_iff_exists'.mp fun h => ih hmembers h hnil.2
    simp [ofMembers, hv, hms] at hnone

theorem Explained.refine {c : Checked} {rule : Refinement} (h : c.Explained) :
    (c.refine rule).Explained := by
  rw [Checked.refine]
  cases hv : c.value? with
  | none => exact h
  | some v =>
    simp only []
    split <;> simp [Explained, hv]

end Checked

mutual

theorem Schema.explained_check : ∀ (s : Schema) (v : Option Json), (s.check v).Explained
  | .text _, v => by
    rw [Schema.check.eq_def]
    rcases v with _ | (_ | _ | _ | _ | _ | _)
    case some.text => exact Checked.explained_of_value
    all_goals exact Checked.explained_mismatch
  | .flag, v => by
    rw [Schema.check.eq_def]
    rcases v with _ | (_ | _ | _ | _ | _ | _)
    case some.bool => exact Checked.explained_of_value
    all_goals exact Checked.explained_mismatch
  | .whole _, v => by
    rw [Schema.check.eq_def]
    rcases v with _ | (_ | _ | (_ | _ | _) | _ | _ | _)
    case some.number.infinity => exact Checked.explained_of_value
    case some.number.finite => exact Checked.explained_of_value
    all_goals exact Checked.explained_mismatch
  | .word options, v => by
    rw [Schema.check.eq_def]
    rcases v with _ | (_ | _ | _ | s | _ | _)
    case some.text =>
      simp only []
      split
      · exact Checked.explained_of_value
      · exact Checked.explained_reject
    all_goals exact Checked.explained_reject
  | .one, v => by
    rw [Schema.check.eq_def]
    rcases v with _ | (_ | _ | x | _ | _ | _)
    case some.number =>
      simp only []
      split
      · exact Checked.explained_of_value
      · exact Checked.explained_reject
    all_goals exact Checked.explained_reject
  | .nullable inner, v => by
    rw [Schema.check.eq_def]
    rcases v with _ | (_ | _ | _ | _ | _ | _)
    case some.null => exact Checked.explained_of_value
    all_goals exact Schema.explained_check inner _
  | .list item, v => by
    rw [Schema.check.eq_def]
    rcases v with _ | (_ | _ | _ | _ | items | _)
    case some.list =>
      refine Checked.explained_ofItems ?_ 0
      rintro c hc
      obtain ⟨x, -, rfl⟩ := List.mem_map.mp hc
      exact Schema.explained_check item (some x)
    all_goals exact Checked.explained_mismatch
  | .record item, v => by
    rw [Schema.check.eq_def]
    rcases v with _ | (_ | _ | _ | _ | _ | members)
    case some.object =>
      refine Checked.explained_ofMembers ?_
      rintro m hm
      obtain ⟨x, -, rfl⟩ := List.mem_map.mp hm
      exact Schema.explained_check item (some x.2)
    all_goals exact Checked.explained_mismatch
  | .object fields, v => by
    rw [Schema.check.eq_def]
    rcases v with _ | (_ | _ | _ | _ | _ | members)
    case some.object => exact Checked.explained_ofMembers (Fields.explained_check fields members)
    all_goals exact Checked.explained_mismatch
  | .tagged tag variants, v => by
    rw [Schema.check.eq_def]
    rcases v with _ | (_ | _ | _ | _ | _ | members)
    case some.object => exact Variants.explained_check variants _ _ _ _
    all_goals exact Checked.explained_mismatch
  | .refined inner rule, v => by
    rw [Schema.check_refined]
    exact (Schema.explained_check inner v).refine

theorem Fields.explained_check : ∀ (fields : Fields) (members : Members Json),
    ∀ m ∈ Schema.checkFields fields members, m.2.Explained
  | .none, _ => by simp [Schema.checkFields]
  | .required name schema rest, members => by
    rw [Schema.checkFields]
    exact List.forall_mem_cons.mpr ⟨Schema.explained_check schema _, Fields.explained_check rest members⟩
  | .optional name schema rest, members => by
    rw [Schema.checkFields]
    cases Members.get? members name with
    | none => exact Fields.explained_check rest members
    | some v =>
      exact List.forall_mem_cons.mpr ⟨Schema.explained_check schema _, Fields.explained_check rest members⟩
  | .defaulted name value schema rest, members => by
    rw [Schema.checkFields]
    exact List.forall_mem_cons.mpr ⟨Schema.explained_check schema _, Fields.explained_check rest members⟩

theorem Variants.explained_check : ∀ (variants : Variants) (tag : String) (options : List String)
    (chosen : Option Json) (members : Members Json),
    (Schema.checkVariants tag variants options chosen members).Explained
  | .none, _, _, _, _ => by
    rw [Schema.checkVariants]
    exact fun _ => List.cons_ne_nil _ _
  | .variant name fields rest, tag, options, chosen, members => by
    rw [Schema.checkVariants.eq_def]
    rcases chosen with _ | (_ | _ | _ | s | _ | _)
    case some.text =>
      simp only []
      split
      · exact Checked.explained_ofMembers (Fields.explained_check fields members)
      · exact Variants.explained_check rest _ _ _ _
    all_goals exact Variants.explained_check rest _ _ _ _

end

/-! ## Validation -/

namespace Schema

variable {s : Schema} {v : Option Json} {w : Json}

/-- **Validation gives the document that a schema reads.** -/
theorem validate_eq_ok_iff : s.validate v = .ok w ↔ s.Reads v w := by
  rw [← check_eq_accept_iff, validate]
  split
  · next u hu =>
    rw [hu, Checked.eq_accept_iff]
    simp
  · next hne => exact ⟨(nomatch ·), fun h => absurd h (hne w)⟩

/-- What is refused has an issue. -/
theorem issues_ne_nil_of_validate {issues : List Issue} (h : s.validate v = .error issues) :
    issues ≠ [] := by
  rw [validate] at h
  split at h
  · cases h
  · next hne =>
    cases h
    intro hnil
    obtain ⟨u, hu⟩ := Option.ne_none_iff_exists'.mp fun hnone => explained_check s v hnone hnil
    exact hne u (Checked.eq_accept_iff.mpr ⟨hu, hnil⟩)

end Schema

end LeastAccess
