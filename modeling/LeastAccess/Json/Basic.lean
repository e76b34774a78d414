import LeastAccess.Binary64.Rounding

/-!
# Documents

A `Json` value is a document as its text gives it: an object keeps its members in the order of the text,
repeated keys included. Two views say what such an object means. `Members.get?` looks a key up, the last
of several equal keys counting. `Members.inKeyOrder` lists the members the way every walk over an object
visits them: one member per key, keys that are array indices first in ascending order, then the others in
the order in which they first occur.

Main statements: `Members.get?_inKeyOrder` (both views agree) and `Members.nodup_inKeyOrder`.
-/

namespace LeastAccess

/-- A document. -/
inductive Json where
  | null
  | bool (value : Bool)
  | number (value : Binary64)
  | text (value : String)
  | list (items : List Json)
  | object (members : List (String × Json))
  deriving Inhabited

/-! ## The members of an object -/

/-- Keys with values, in the order of the text. -/
abbrev Members (α : Type) := List (String × α)

namespace Members

variable {α β : Type}

/-- The value of a key; the last one if the key is repeated. -/
def get? : Members α → String → Option α
  | [], _ => none
  | (k, v) :: rest, key =>
    match get? rest key with
    | some w => some w
    | none => if k = key then some v else none

/-- The keys, each at its first position. -/
def keys : Members α → List String
  | [] => []
  | (k, _) :: rest => k :: (keys rest).filter (· != k)

/-- The array index that a key spells, if it is the usual spelling of one. -/
def index? (key : String) : Option Nat :=
  let cs := key.toList
  if cs.isEmpty || !cs.all Char.isDigit then none
  else if cs.head? = some '0' && 1 < cs.length then none
  else if 10 < cs.length then none
  else
    let n := cs.foldl (fun n c => n * 10 + (c.toNat - 48)) 0
    if n < 4294967295 then some n else none

/-- Insertion of a key into keys sorted by index. -/
def insertIndex (n : Nat) (key : String) : List (Nat × String) → List (Nat × String)
  | [] => [(n, key)]
  | (m, k) :: rest => if n ≤ m then (n, key) :: (m, k) :: rest else (m, k) :: insertIndex n key rest

/-- Keys that are array indices in ascending order, then the other keys as they stand. -/
def sortKeys (ks : List String) : List String :=
  let indexed := ks.foldr (fun k acc =>
    match index? k with
    | some n => insertIndex n k acc
    | none => acc) []
  indexed.map Prod.snd ++ ks.filter fun k => (index? k).isNone

/-- The members as a walk visits them. -/
def inKeyOrder (ms : Members α) : Members α :=
  (sortKeys (keys ms)).filterMap fun k => (get? ms k).map fun v => (k, v)

@[simp] theorem get?_nil (key : String) : get? ([] : Members α) key = none := rfl

theorem get?_cons (k : String) (v : α) (rest : Members α) (key : String) :
    get? ((k, v) :: rest) key = (get? rest key).or (if k = key then some v else none) := by
  rw [get?]
  cases get? rest key <;> simp

theorem get?_map (f : α → β) (ms : Members α) (key : String) :
    get? (ms.map fun m => (m.1, f m.2)) key = (get? ms key).map f := by
  induction ms with
  | nil => rfl
  | cons m rest ih =>
    obtain ⟨k, v⟩ := m
    simp only [List.map_cons, get?_cons, ih]
    cases get? rest key <;> by_cases h : k = key <;> simp [h]

/-- A value that is looked up belongs to the members. -/
theorem mem_of_get? {ms : Members α} {k : String} {v : α} (h : get? ms k = some v) :
    (k, v) ∈ ms := by
  induction ms with
  | nil => simp at h
  | cons m rest ih =>
    obtain ⟨k', v'⟩ := m
    rw [get?_cons] at h
    cases hg : get? rest k with
    | some w => exact List.mem_cons_of_mem _ (ih (by simpa [hg] using h))
    | none =>
      by_cases hk : k' = k
      · subst hk
        simp only [hg, if_true, Option.none_or, Option.some.injEq] at h
        exact h ▸ List.mem_cons_self
      · simp [hg, hk] at h

theorem mem_keys {ms : Members α} {k : String} : k ∈ keys ms ↔ k ∈ ms.map Prod.fst := by
  induction ms with
  | nil => simp [keys]
  | cons m rest ih =>
    simp only [keys, List.mem_cons, List.mem_filter, ih, List.map_cons, bne_iff_ne]
    by_cases h : k = m.1 <;> simp [h]

theorem nodup_keys (ms : Members α) : (keys ms).Nodup := by
  induction ms with
  | nil => exact List.nodup_nil
  | cons m rest ih =>
    rw [keys, List.nodup_cons]
    exact ⟨by simp, ih.filter _⟩

/-- A key that occurs has a value. -/
theorem get?_isSome_iff {ms : Members α} {k : String} : (get? ms k).isSome ↔ k ∈ keys ms := by
  rw [mem_keys]
  induction ms with
  | nil => simp
  | cons m rest ih =>
    obtain ⟨k', v'⟩ := m
    simp only [get?_cons, List.map_cons, List.mem_cons, ← ih]
    cases get? rest k with
    | some w => simp
    | none =>
      rcases Decidable.em (k' = k) with h | h
      · simp [h]
      · simp [h, Ne.symm h]

/-! ## Key order -/

theorem insertIndex_perm (n : Nat) (k : String) (ks : List (Nat × String)) :
    (insertIndex n k ks).Perm ((n, k) :: ks) := by
  induction ks with
  | nil => exact List.Perm.refl _
  | cons m rest ih =>
    obtain ⟨m, k'⟩ := m
    rw [insertIndex]
    split
    · exact List.Perm.refl _
    · exact (ih.cons _).trans (List.Perm.swap _ _ _)

theorem sortKeys_perm (ks : List String) : (sortKeys ks).Perm ks := by
  unfold sortKeys
  induction ks with
  | nil => exact List.Perm.refl _
  | cons k rest ih =>
    rw [List.foldr_cons, List.filter_cons]
    cases h : index? k with
    | none =>
      simp only [Option.isNone_none, if_true]
      exact List.perm_middle.trans (ih.cons k)
    | some n =>
      simp only [Option.isNone_some, Bool.false_eq_true, if_false]
      exact (((insertIndex_perm n k _).map Prod.snd).append_right _).trans (ih.cons k)

theorem get?_filterMap (ms : Members α) (ks : List String) (key : String) :
    get? (ks.filterMap fun k => (get? ms k).map fun v => (k, v)) key =
      if key ∈ ks then get? ms key else none := by
  induction ks with
  | nil => rfl
  | cons k rest ih =>
    rw [List.filterMap_cons]
    cases hk : get? ms k with
    | none =>
      simp only [Option.map_none, ih, List.mem_cons]
      by_cases h : key = k
      · subst h
        simp [hk]
      · simp [h]
    | some v =>
      simp only [Option.map_some, get?_cons, ih, List.mem_cons]
      by_cases h : k = key
      · subst h
        by_cases hr : k ∈ rest <;> simp [hr, hk]
      · by_cases hr : key ∈ rest <;> simp [hr, h, Ne.symm h]

/-- Walking an object and looking up its keys see the same values. -/
theorem get?_inKeyOrder (ms : Members α) (key : String) :
    get? (inKeyOrder ms) key = get? ms key := by
  rw [inKeyOrder, get?_filterMap]
  split
  · rfl
  · next h =>
    rw [(sortKeys_perm _).mem_iff, ← get?_isSome_iff] at h
    cases hg : get? ms key with
    | none => rfl
    | some v => simp [hg] at h

theorem map_fst_inKeyOrder (ms : Members α) :
    (inKeyOrder ms).map Prod.fst = sortKeys (keys ms) := by
  have key : ∀ ks : List String, (∀ k ∈ ks, k ∈ keys ms) →
      (ks.filterMap fun k => (get? ms k).map fun v => (k, v)).map Prod.fst = ks := by
    intro ks hks
    induction ks with
    | nil => rfl
    | cons k rest ih =>
      obtain ⟨v, hv⟩ := Option.isSome_iff_exists.1 (get?_isSome_iff.2 (hks k List.mem_cons_self))
      rw [List.filterMap_cons, hv, Option.map_some, List.map_cons,
        ih fun k hk => hks k (List.mem_cons_of_mem _ hk)]
  exact key _ fun k hk => (sortKeys_perm _).mem_iff.1 hk

/-- A walk visits every key once. -/
theorem nodup_inKeyOrder (ms : Members α) : ((inKeyOrder ms).map Prod.fst).Nodup := by
  rw [map_fst_inKeyOrder]
  exact (sortKeys_perm _).nodup_iff.2 (nodup_keys ms)

end Members

namespace Json

/-- A natural number as a document. -/
def nat (n : Nat) : Json := .number (.ofNat n)

/-- A text, or null. -/
def textOrNull : Option String → Json
  | some s => .text s
  | none => .null

/-- The value of a key of an object. -/
def get? : Json → String → Option Json
  | .object members, key => Members.get? members key
  | _, _ => none

/-- What a document is called in messages. -/
def kindName : Json → String
  | .null => "null"
  | .bool _ => "boolean"
  | .number .nan => "nan"
  | .number _ => "number"
  | .text _ => "string"
  | .list _ => "array"
  | .object _ => "object"

end Json

end LeastAccess
