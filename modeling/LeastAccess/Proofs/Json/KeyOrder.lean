import LeastAccess.Json.Basic
import Mathlib.Data.List.Nodup

/-!
# Key order

A walk over an object visits the keys that are array indices first, by their number, and the other keys in
the order of the text.

* `Members.pairwise_inKeyOrder` — the members of a walk are in key order
* `Members.inKeyOrder_of_sublist` — some of them are walked through as they stand
* `Members.get?_perm` — without a repeated key the order does not show in look-ups
-/

namespace LeastAccess.Members

variable {α : Type}

/-- The first of two keys of an object is visited before the second one. -/
def Precedes (ks : List String) (a b : String) : Prop :=
  match index? a, index? b with
  | some m, some n => m ≤ n
  | some _, none => True
  | none, some _ => False
  | none, none => ks.idxOf a < ks.idxOf b

theorem pairwise_insertIndex {n : Nat} {k : String} {ks : List (Nat × String)}
    (h : ks.Pairwise (·.1 ≤ ·.1)) : (insertIndex n k ks).Pairwise (·.1 ≤ ·.1) := by
  induction ks with
  | nil => exact List.pairwise_singleton _ _
  | cons m rest ih =>
    obtain ⟨hm, hrest⟩ := List.pairwise_cons.mp h
    rw [insertIndex]
    split
    · next hn =>
      refine List.pairwise_cons.mpr ⟨fun x hx => ?_, h⟩
      rcases List.mem_cons.mp hx with rfl | hx
      · exact hn
      · exact Nat.le_trans hn (hm x hx)
    · next hn =>
      refine List.pairwise_cons.mpr ⟨fun x hx => ?_, ih hrest⟩
      rcases List.mem_cons.mp ((insertIndex_perm n k rest).mem_iff.mp hx) with rfl | hx
      · exact Nat.le_of_not_le hn
      · exact hm x hx

theorem pairwise_idxOf {ks : List String} (h : ks.Nodup) :
    ks.Pairwise (ks.idxOf · < ks.idxOf ·) := by
  rw [List.pairwise_iff_getElem]
  intro i j hi hj hij
  rwa [h.idxOf_getElem i hi, h.idxOf_getElem j hj]

/-- The keys that are array indices, with their numbers, in ascending order. -/
def indexed (ks : List String) : List (Nat × String) :=
  ks.foldr (fun k acc =>
    match index? k with
    | some n => insertIndex n k acc
    | none => acc) []

theorem sortKeys_eq (ks : List String) :
    sortKeys ks = (indexed ks).map Prod.snd ++ ks.filter fun k => (index? k).isNone := rfl

theorem indexed_cons (k : String) (rest : List String) :
    indexed (k :: rest) = match index? k with
      | some n => insertIndex n k (indexed rest)
      | none => indexed rest := rfl

theorem pairwise_indexed (ks : List String) : (indexed ks).Pairwise (·.1 ≤ ·.1) := by
  induction ks with
  | nil => exact .nil
  | cons k rest ih =>
    rw [indexed_cons]
    cases index? k with
    | none => exact ih
    | some n => exact pairwise_insertIndex ih

theorem index?_of_mem_indexed {ks : List String} {x : Nat × String} (hx : x ∈ indexed ks) :
    index? x.2 = some x.1 := by
  induction ks with
  | nil => exact absurd hx List.not_mem_nil
  | cons k rest ih =>
    rw [indexed_cons] at hx
    cases hk : index? k with
    | none =>
      rw [hk] at hx
      exact ih hx
    | some n =>
      rw [hk] at hx
      rcases List.mem_cons.mp ((insertIndex_perm n k _).mem_iff.mp hx) with rfl | hx
      · exact hk
      · exact ih hx

theorem pairwise_sortKeys {ks : List String} (h : ks.Nodup) : (sortKeys ks).Pairwise (Precedes ks) := by
  rw [sortKeys_eq]
  refine List.pairwise_append.mpr ⟨List.pairwise_map.mpr ?_, ?_, ?_⟩
  · -- two indices
    refine (pairwise_indexed ks).imp_of_mem fun {a b} ha hb hle => ?_
    rwa [Precedes, index?_of_mem_indexed ha, index?_of_mem_indexed hb]
  · -- two other keys
    refine ((pairwise_idxOf h).filter _).imp_of_mem fun {a b} ha hb hlt => ?_
    rw [List.mem_filter, Option.isNone_iff_eq_none] at ha hb
    rwa [Precedes, ha.2, hb.2]
  · intro a ha b hb
    obtain ⟨x, hx, rfl⟩ := List.mem_map.mp ha
    rw [List.mem_filter, Option.isNone_iff_eq_none] at hb
    rw [Precedes, index?_of_mem_indexed hx, hb.2]
    trivial

/-- The members of a walk are in key order. -/
theorem pairwise_inKeyOrder (ms : Members α) :
    ((inKeyOrder ms).map Prod.fst).Pairwise (Precedes (keys ms)) := by
  rw [map_fst_inKeyOrder]
  exact pairwise_sortKeys (nodup_keys ms)

/-! ## Keys that are not repeated -/

theorem get?_eq_none_of_notMem {ms : Members α} {key : String} (h : key ∉ ms.map Prod.fst) :
    get? ms key = none := by
  rwa [← mem_keys, ← get?_isSome_iff, Option.not_isSome_iff_eq_none] at h

/-- Where no key is repeated, looking a key up finds exactly the member with that key. -/
theorem get?_eq_some_iff_mem {ms : Members α} (hkeys : (ms.map Prod.fst).Nodup) {key : String} {value : α} :
    get? ms key = some value ↔ (key, value) ∈ ms := by
  refine ⟨mem_of_get?, fun h => ?_⟩
  induction ms with
  | nil => exact absurd h List.not_mem_nil
  | cons m ms ih =>
    obtain ⟨k, v⟩ := m
    obtain ⟨hk, hkeys⟩ := List.nodup_cons.mp hkeys
    rw [get?_cons]
    rcases List.mem_cons.mp h with heq | hmem
    · cases heq
      rw [get?_eq_none_of_notMem hk, if_pos rfl, Option.none_or]
    · rw [ih hkeys hmem]
      rfl

/-- Members in another order look up the same, as long as no key is repeated. -/
theorem get?_perm {ms ms' : Members α} (h : ms.Perm ms') (hkeys : (ms.map Prod.fst).Nodup) (key : String) :
    get? ms key = get? ms' key := by
  refine Option.ext fun value => ?_
  rw [get?_eq_some_iff_mem hkeys, get?_eq_some_iff_mem ((h.map Prod.fst).nodup hkeys), h.mem_iff]

theorem get?_of_mem_inKeyOrder {ms : Members α} {m : String × α} (h : m ∈ inKeyOrder ms) :
    get? ms m.1 = some m.2 := by
  rw [← get?_inKeyOrder]
  exact (get?_eq_some_iff_mem (nodup_inKeyOrder ms)).mpr h

/-- It does not matter which of several equal keys counts. -/
theorem lookup_eq_get? {ms : Members α} (hkeys : (ms.map Prod.fst).Nodup) (key : String) :
    ms.lookup key = get? ms key := by
  induction ms with
  | nil => rfl
  | cons m ms ih =>
    obtain ⟨k, v⟩ := m
    obtain ⟨hk, hkeys⟩ := List.nodup_cons.mp hkeys
    rw [get?_cons]
    by_cases heq : key = k
    · subst heq
      rw [List.lookup_cons_self, get?_eq_none_of_notMem hk, if_pos rfl, Option.none_or]
    · rw [List.lookup_cons, beq_eq_false_iff_ne.mpr heq, if_neg (Ne.symm heq), ih hkeys, Option.or_none]

/-! ## Members that are in key order -/

/-- One key may stand before another one: indices ascend, and the other keys come after them. -/
def MayPrecede (a b : String) : Prop :=
  match index? a, index? b with
  | some m, some n => m ≤ n
  | none, some _ => False
  | _, none => True

theorem Precedes.mayPrecede {ks : List String} {a b : String} (h : Precedes ks a b) : MayPrecede a b := by
  unfold Precedes at h
  unfold MayPrecede
  cases ha : index? a <;> cases hb : index? b <;> simp_all

theorem mem_of_mem_indexed {ks : List String} {x : Nat × String} (hx : x ∈ indexed ks) : x.2 ∈ ks := by
  rw [← (sortKeys_perm ks).mem_iff, sortKeys_eq]
  exact List.mem_append_left _ (List.mem_map_of_mem hx)

/-- Keys that are in order are not sorted any further. -/
theorem sortKeys_of_pairwise {ks : List String} (h : ks.Pairwise MayPrecede) : sortKeys ks = ks := by
  induction ks with
  | nil => rfl
  | cons k rest ih =>
    obtain ⟨hk, hrest⟩ := List.pairwise_cons.mp h
    have hlater {x : Nat × String} (hx : x ∈ indexed rest) : ∃ n, index? k = some n ∧ n ≤ x.1 := by
      have hprecede := hk x.2 (mem_of_mem_indexed hx)
      rw [MayPrecede, index?_of_mem_indexed hx] at hprecede
      cases hindex : index? k with
      | none =>
        rw [hindex] at hprecede
        exact hprecede.elim
      | some n =>
        rw [hindex] at hprecede
        exact ⟨n, rfl, hprecede⟩
    have hsorted := ih hrest
    rw [sortKeys_eq] at hsorted ⊢
    rw [indexed_cons, List.filter_cons]
    cases hindex : index? k with
    | some n =>
      -- the index goes before all the others
      have hfirst : insertIndex n k (indexed rest) = (n, k) :: indexed rest := by
        cases hothers : indexed rest with
        | nil => rfl
        | cons x xs =>
          obtain ⟨m, hm, hle⟩ := hlater (hothers ▸ List.mem_cons_self)
          rw [hindex] at hm
          cases hm
          exact if_pos hle
      simp [hfirst, hsorted]
    | none =>
      have hnone : indexed rest = [] := by
        refine List.eq_nil_iff_forall_not_mem.mpr fun x hx => ?_
        obtain ⟨n, hn, -⟩ := hlater hx
        rw [hindex] at hn
        cases hn
      rw [hnone] at hsorted ⊢
      simpa using hsorted

theorem keys_of_nodup {ms : Members α} (h : (ms.map Prod.fst).Nodup) : keys ms = ms.map Prod.fst := by
  induction ms with
  | nil => rfl
  | cons m rest ih =>
    obtain ⟨hm, hrest⟩ := List.nodup_cons.mp h
    rw [keys, ih hrest, List.map_cons, List.filter_eq_self.mpr]
    intro k hk
    rw [bne_iff_ne]
    exact fun heq => hm (heq ▸ hk)

/-- Members with keys of a walk, in its order, are walked through as they stand. -/
theorem inKeyOrder_of_sublist {β : Type} {ms : Members α} {kept : Members β}
    (h : (kept.map Prod.fst).Sublist ((inKeyOrder ms).map Prod.fst)) : inKeyOrder kept = kept := by
  have hnodup : (kept.map Prod.fst).Nodup := (nodup_inKeyOrder ms).sublist h
  have hsorted : sortKeys (keys kept) = kept.map Prod.fst := by
    rw [keys_of_nodup hnodup]
    exact sortKeys_of_pairwise (((pairwise_inKeyOrder ms).sublist h).imp Precedes.mayPrecede)
  rw [inKeyOrder, hsorted, List.filterMap_map]
  refine (List.filterMap_congr fun m hm => ?_).trans List.filterMap_some
  rw [Function.comp, (get?_eq_some_iff_mem hnodup).mpr hm, Option.map_some]

end LeastAccess.Members
