import LeastAccess.Json.View
import LeastAccess.Proofs.Json.KeyOrder
import LeastAccess.Proofs.Reordering.Shuffled
import LeastAccess.Proofs.Schema.Grammar

/-!
# Reading documents in another order

A schema reads a list item by item and an object key by key. So if one document has the items of another one
in some order, or the members of another one, it is read as the same items or members in the other order.

* `Json.Itemwise`, `Json.Keywise` — documents that correspond to each other up to order
* `Schema.Preserves` — corresponding documents are read as corresponding documents
-/

namespace LeastAccess

/-! ## Corresponding documents -/

namespace Json

/-- Two lists whose items correspond in some order, or one document twice. -/
inductive Itemwise (R : Json → Json → Prop) : Json → Json → Prop
  | same (v : Json) : Itemwise R v v
  | list {items items' : List Json} (h : Shuffled R items items') : Itemwise R (.list items) (.list items')

/-- Two objects whose members correspond key by key, or one document twice. The order of the members does
not show in look-ups. -/
inductive Keywise (R : String → Json → Json → Prop) : Json → Json → Prop
  | same (v : Json) : Keywise R v v
  | object {members members' : Members Json}
      (h : ∀ key, Option.Rel (R key) (Members.get? members key) (Members.get? members' key)) :
      Keywise R (.object members) (.object members')

section

variable {R : Json → Json → Prop} {K : String → Json → Json → Prop} {v v' : Json}

theorem Itemwise.items (hrefl : ∀ v, R v v) (h : Itemwise R v v') : Shuffled R v.items v'.items := by
  cases h with
  | same => exact ⟨_, List.forall₂_same.mpr fun v _ => hrefl v, .refl _⟩
  | list h => exact h

theorem Keywise.get? (hrefl : ∀ key v, K key v v) (h : Keywise K v v') (key : String) :
    Option.Rel (K key) (v.get? key) (v'.get? key) := by
  cases h with
  | same =>
    cases v.get? key with
    | none => exact .none
    | some w => exact .some (hrefl key w)
  | object h => exact h key

theorem Keywise.memberAt (hrefl : ∀ key v, K key v v) (h : Keywise K v v') (key : String) :
    K key (v.memberAt key) (v'.memberAt key) := by
  rw [Json.memberAt, Json.memberAt]
  rcases rel_cases (h.get? hrefl key) with ⟨hw, hw'⟩ | ⟨w, w', hw, hw', hr⟩
  · rw [hw, hw']
    exact hrefl key _
  · rw [hw, hw']
    exact hr

end

end Json

namespace Members

variable {α β : Type}

/-- Members in the same order correspond key by key. -/
theorem rel_get? {K : String → α → β → Prop} {ms : Members α} {ms' : Members β}
    (h : List.Forall₂ (fun m m' => m.1 = m'.1 ∧ K m.1 m.2 m'.2) ms ms') (key : String) :
    Option.Rel (K key) (get? ms key) (get? ms' key) := by
  induction h with
  | nil => exact .none
  | @cons m m' ms ms' hfirst _ ih =>
    obtain ⟨k, v⟩ := m
    obtain ⟨k', v'⟩ := m'
    obtain ⟨rfl, hr⟩ := hfirst
    rw [get?_cons, get?_cons]
    rcases rel_cases ih with ⟨hrest, hrest'⟩ | ⟨w, w', hrest, hrest', hw⟩
    · rw [hrest, hrest', Option.none_or, Option.none_or]
      by_cases hk : k = key
      · rw [if_pos hk, if_pos hk]
        exact .some (hk ▸ hr)
      · rw [if_neg hk, if_neg hk]
        exact .none
    · rw [hrest, hrest']
      exact .some hw

/-- Without a key that is left out, the others are found as before. -/
theorem get?_filter_ne (ms : Members α) (reserved key : String) :
    get? (ms.filter (·.1 != reserved)) key = if key = reserved then none else get? ms key := by
  induction ms with
  | nil => exact (ite_self none).symm
  | cons m ms ih =>
    obtain ⟨k, v⟩ := m
    by_cases hk : k = reserved
    · subst hk
      have hdropped : ((k, v) :: ms).filter (·.1 != k) = ms.filter (·.1 != k) := by simp
      rw [hdropped, ih, get?_cons]
      split
      · rfl
      · next hkey => rw [if_neg (Ne.symm hkey), Option.or_none]
    · have hkept : ((k, v) :: ms).filter (·.1 != reserved) = (k, v) :: ms.filter (·.1 != reserved) := by
        simp [hk]
      rw [hkept, get?_cons, get?_cons, ih]
      split
      · next hkey => rw [if_neg fun heq => hk (heq.trans hkey), Option.none_or]
      · rfl

end Members

/-- Corresponding members in some order correspond key by key, as long as no key is repeated. -/
theorem Json.Keywise.of_shuffled {K : String → Json → Json → Prop} {members members' : Members Json}
    (h : Shuffled (fun m m' => m.1 = m'.1 ∧ K m.1 m.2 m'.2) members members')
    (hkeys : (members'.map Prod.fst).Nodup) : Json.Keywise K (.object members) (.object members') := by
  obtain ⟨middle, hitems, hperm⟩ := h
  refine .object fun key => ?_
  rw [Members.get?_perm hperm.symm hkeys]
  exact Members.rel_get? hitems key

/-! ## Schemas -/

/-- Documents that correspond to each other are read as documents that do. -/
def Schema.Preserves (s : Schema) (R : Json → Json → Prop) : Prop :=
  ∀ v v' w, R v v' → s.Reads (some v) w → ∃ w', s.Reads (some v') w' ∧ R w w'

/-- Something holds of all fields. -/
def Fields.All (P : String → Schema → Prop) : Fields → Prop
  | .none => True
  | .required name schema rest => P name schema ∧ rest.All P
  | .optional name schema rest => P name schema ∧ rest.All P
  | .defaulted name _ schema rest => P name schema ∧ rest.All P

/-- Fields read members that correspond key by key as such members. -/
theorem Fields.exists_read {K : String → Json → Json → Prop} (hrefl : ∀ key v, K key v v)
    {members members' : Members Json}
    (h : ∀ key, Option.Rel (K key) (Members.get? members key) (Members.get? members' key)) :
    ∀ (fields : Fields) (_ : fields.All fun key schema => schema.Preserves (K key))
      (ms : List (String × Json)), fields.Read members ms →
        ∃ ms', fields.Read members' ms' ∧ List.Forall₂ (fun m m' => m.1 = m'.1 ∧ K m.1 m.2 m'.2) ms ms'
  | .none, _, ms, hread => by
    rw [Fields.Read] at hread
    subst hread
    exact ⟨[], by rw [Fields.Read], .nil⟩
  | .required name schema rest, hfields, ms, hread => by
    obtain ⟨hschema, hrest⟩ := hfields
    rw [Fields.Read] at hread
    obtain ⟨w, ms, rfl, hw, hread⟩ := hread
    obtain ⟨ms', hread', hms⟩ := Fields.exists_read hrefl h rest hrest ms hread
    have hvalue : ∃ w', schema.Reads (Members.get? members' name) w' ∧ K name w w' := by
      rcases rel_cases (h name) with ⟨hv, hv'⟩ | ⟨v, v', hv, hv', hr⟩
      · rw [hv] at hw
        exact ⟨w, hv' ▸ hw, hrefl name w⟩
      · rw [hv] at hw
        rw [hv']
        exact hschema v v' w hr hw
    obtain ⟨w', hw', hr⟩ := hvalue
    exact ⟨(name, w') :: ms', by rw [Fields.Read]; exact ⟨w', ms', rfl, hw', hread'⟩, .cons ⟨rfl, hr⟩ hms⟩
  | .optional name schema rest, hfields, ms, hread => by
    obtain ⟨hschema, hrest⟩ := hfields
    rw [Fields.Read] at hread
    rcases rel_cases (h name) with ⟨hv, hv'⟩ | ⟨v, v', hv, hv', hr⟩
    · rw [hv] at hread
      obtain ⟨ms', hread', hms⟩ := Fields.exists_read hrefl h rest hrest ms hread
      exact ⟨ms', by rw [Fields.Read, hv']; exact hread', hms⟩
    · rw [hv] at hread
      obtain ⟨w, ms, rfl, hw, hread⟩ := hread
      obtain ⟨ms', hread', hms⟩ := Fields.exists_read hrefl h rest hrest ms hread
      obtain ⟨w', hw', hr⟩ := hschema v v' w hr hw
      refine ⟨(name, w') :: ms', ?_, .cons ⟨rfl, hr⟩ hms⟩
      rw [Fields.Read, hv']
      exact ⟨w', ms', rfl, hw', hread'⟩
  | .defaulted name value schema rest, hfields, ms, hread => by
    obtain ⟨hschema, hrest⟩ := hfields
    rw [Fields.Read] at hread
    obtain ⟨w, ms, rfl, hw, hread⟩ := hread
    obtain ⟨ms', hread', hms⟩ := Fields.exists_read hrefl h rest hrest ms hread
    -- where nothing is given, the default is read in both orders
    have hvalue : K name ((Members.get? members name).getD value) ((Members.get? members' name).getD value) := by
      rcases rel_cases (h name) with ⟨hv, hv'⟩ | ⟨v, v', hv, hv', hr⟩
      · rw [hv, hv']
        exact hrefl name _
      · rw [hv, hv']
        exact hr
    obtain ⟨w', hw', hr⟩ := hschema _ _ w hvalue hw
    exact ⟨(name, w') :: ms', by rw [Fields.Read]; exact ⟨w', ms', rfl, hw', hread'⟩, .cons ⟨rfl, hr⟩ hms⟩

namespace Schema

variable {R : Json → Json → Prop}

theorem preserves_eq (s : Schema) : s.Preserves (· = ·) := by
  rintro v _ w rfl hw
  exact ⟨w, hw, rfl⟩

/-- What corresponding values are read as corresponds, since it is determined. -/
theorem rel_of_reads {item : Schema} (h : item.Preserves R) {v v' w w' : Option Json} (hr : Option.Rel R v v')
    (hw : Option.Rel (fun v w => item.Reads (some v) w) v w)
    (hw' : Option.Rel (fun v w => item.Reads (some v) w) v' w') : Option.Rel R w w' := by
  cases hr with
  | none =>
    cases hw
    cases hw'
    exact .none
  | some hr =>
    cases hw with
    | some hw =>
      cases hw' with
      | some hw' =>
        obtain ⟨w'', hw'', hr'⟩ := h _ _ _ hr hw
        rw [hw''.unique hw'] at hr'
        exact .some hr'

/-- What is found under a key of a record is read from what is found under it. -/
theorem rel_reads {item : Schema} {members : Members Json} {ms : List (String × Json)}
    (hread : List.Forall₂ (fun m m' => m.1 = m'.1 ∧ item.Reads (some m.2) m'.2)
      (Members.inKeyOrder members) ms) (key : String) :
    Option.Rel (fun v w => item.Reads (some v) w) (Members.get? members key) (Members.get? ms key) := by
  rw [← Members.get?_inKeyOrder]
  exact @Members.rel_get? _ _ (fun _ v w => item.Reads (some v) w) _ _ hread key

/-- What stands under a key of the corresponding object is read too, since what corresponds to it is. -/
theorem exists_reads_of_mem {item : Schema} (h : item.Preserves R) {members members' : Members Json}
    {ms : List (String × Json)}
    (hmembers : ∀ key, Option.Rel R (Members.get? members key) (Members.get? members' key))
    (hread : List.Forall₂ (fun m m' => m.1 = m'.1 ∧ item.Reads (some m.2) m'.2)
      (Members.inKeyOrder members) ms) :
    ∀ m ∈ Members.inKeyOrder members', ∃ m' : String × Json, m.1 = m'.1 ∧ item.Reads (some m.2) m'.2 := by
  intro m hm
  have hget := Members.get?_of_mem_inKeyOrder hm
  have hcorresponding := hmembers m.1
  rw [hget] at hcorresponding
  rcases rel_cases hcorresponding with ⟨-, hnone⟩ | ⟨v, _, hv, heq, hr⟩
  · cases hnone
  · cases heq
    rcases rel_cases (rel_reads hread m.1) with ⟨hnone, -⟩ | ⟨_, w, hsome, -, hw⟩
    · rw [hv] at hnone
      cases hnone
    · rw [hv] at hsome
      cases hsome
      obtain ⟨w', hw', -⟩ := h _ _ w hr hw
      exact ⟨(m.1, w'), rfl, hw'⟩

theorem exists_forall₂ {α β : Type} {P : α → β → Prop} {l : List α} (h : ∀ a ∈ l, ∃ b, P a b) :
    ∃ l', List.Forall₂ P l l' := by
  induction l with
  | nil => exact ⟨[], .nil⟩
  | cons a l ih =>
    obtain ⟨b, hb⟩ := h a List.mem_cons_self
    obtain ⟨l', hl'⟩ := ih fun a' ha' => h a' (List.mem_cons_of_mem a ha')
    exact ⟨b :: l', .cons hb hl'⟩

namespace Preserves

theorem list {item : Schema} (h : item.Preserves R) : (Schema.list item).Preserves (Json.Itemwise R) := by
  intro v v' w hv hw
  cases hv with
  | same => exact ⟨w, hw, .same w⟩
  | list hitems =>
    rw [Reads] at hw
    obtain ⟨items, ws, heq, rfl, hread⟩ := hw
    cases heq
    obtain ⟨ws', hread', hws⟩ := hitems.forall₂ hread h
    exact ⟨.list ws', by rw [Reads]; exact ⟨_, ws', rfl, rfl, hread'⟩, .list hws⟩

theorem object {K : String → Json → Json → Prop} {fields : Fields} (hrefl : ∀ key v, K key v v)
    (h : fields.All fun key schema => schema.Preserves (K key)) :
    (Schema.object fields).Preserves (Json.Keywise K) := by
  intro v v' w hv hw
  cases hv with
  | same => exact ⟨w, hw, .same w⟩
  | object hmembers =>
    rw [Reads] at hw
    obtain ⟨members, ms, heq, rfl, hread⟩ := hw
    cases heq
    obtain ⟨ms', hread', hms⟩ := fields.exists_read hrefl hmembers h ms hread
    exact ⟨.object ms', by rw [Reads]; exact ⟨_, ms', rfl, rfl, hread'⟩, .object (Members.rel_get? hms)⟩

/-- A record is read in the order of its keys, and each key is found in it as before. -/
theorem record {item : Schema} (h : item.Preserves R) :
    (Schema.record item).Preserves (Json.Keywise fun _ => R) := by
  intro v v' w hv hw
  cases hv with
  | same => exact ⟨w, hw, .same w⟩
  | @object members members' hmembers =>
    rw [Reads] at hw
    obtain ⟨_, ms, heq, rfl, hread⟩ := hw
    cases heq
    obtain ⟨ms', hread'⟩ := exists_forall₂ (exists_reads_of_mem h hmembers hread)
    refine ⟨_, by rw [Reads]; exact ⟨members', ms', rfl, rfl, hread'⟩, .object fun key => ?_⟩
    rw [Members.get?_filter_ne, Members.get?_filter_ne]
    split
    · exact .none
    · exact rel_of_reads h (hmembers key) (rel_reads hread key) (rel_reads hread' key)

theorem refined {inner : Schema} {rule : Refinement} (h : inner.Preserves R)
    (hrule : ∀ w w', R w w' → rule.holds w = true → rule.holds w' = true) :
    (Schema.refined inner rule).Preserves R := by
  intro v v' w hv hw
  rw [Reads] at hw
  obtain ⟨w', hw', hr⟩ := h v v' w hv hw.1
  exact ⟨w', by rw [Reads]; exact ⟨hw', hrule w w' hr hw.2⟩, hr⟩

end Preserves

end Schema

end LeastAccess
