import Mathlib.Data.List.Basic

/-!
# Document order

Lists that take some items of another one and keep its order, and what a stable sort keeps of an order.

* `sublist_of_subset`, `eq_of_mem_iff` — such lists are determined by what they hold
* `filter_mergeSort` — items that a sort does not tell apart stay in order
-/

namespace LeastAccess

/-- Of two lists in the order of one without repetitions, one that holds nothing but items of the other is
a sublist of it. -/
theorem sublist_of_subset {α β : Type} (key : α → β) {keys : List β} (hn : keys.Nodup) {l l' : List α}
    (h : (l.map key).Sublist keys) (h' : (l'.map key).Sublist keys) (hsub : l ⊆ l') : l.Sublist l' := by
  induction keys generalizing l l' with
  | nil =>
    rw [List.map_eq_nil_iff.mp (List.sublist_nil.mp h)]
    exact List.nil_sublist l'
  | cons k keys ih =>
    obtain ⟨hk, hkeys⟩ := List.nodup_cons.mp hn
    -- an item with the first key is the first one of its list
    have hlater {m : List α} (hm : (m.map key).Sublist keys) : ∀ a ∈ m, key a ≠ k := by
      rintro a ha rfl
      exact hk (hm.subset (List.mem_map_of_mem ha))
    rcases List.sublist_cons_iff.mp h' with hrest' | ⟨_, hl', hrest'⟩
    · rcases List.sublist_cons_iff.mp h with hrest | ⟨_, hl, -⟩
      · exact ih hkeys hrest hrest' hsub
      · obtain ⟨a, m, rfl, ha, -⟩ := List.map_eq_cons_iff.mp hl
        exact absurd ha (hlater hrest' a (hsub List.mem_cons_self))
    · obtain ⟨a', m', rfl, ha', rfl⟩ := List.map_eq_cons_iff.mp hl'
      have htail {m : List α} (hm : (m.map key).Sublist keys) (hsub : m ⊆ a' :: m') : m ⊆ m' := by
        intro a ha
        rcases List.mem_cons.mp (hsub ha) with rfl | hmem
        · exact absurd ha' (hlater hm a ha)
        · exact hmem
      rcases List.sublist_cons_iff.mp h with hrest | ⟨_, hl, hrest⟩
      · exact (ih hkeys hrest hrest' (htail hrest hsub)).cons a'
      · obtain ⟨a, m, rfl, ha, rfl⟩ := List.map_eq_cons_iff.mp hl
        rcases List.mem_cons.mp (hsub List.mem_cons_self) with rfl | hmem
        · have hm : m ⊆ m' := htail hrest fun b hb => hsub (List.mem_cons_of_mem a hb)
          exact (ih hkeys hrest hrest' hm).cons_cons a
        · exact absurd ha (hlater hrest' a hmem)

/-- Two such lists that hold the same items are equal. -/
theorem eq_of_mem_iff {α : Type} {keys : List α} (hn : keys.Nodup) {l l' : List α} (h : l.Sublist keys)
    (h' : l'.Sublist keys) (hmem : ∀ a, a ∈ l ↔ a ∈ l') : l = l' := by
  rw [← l.map_id] at h
  rw [← l'.map_id] at h'
  exact (sublist_of_subset id hn h h' fun a => (hmem a).mp).antisymm
    (sublist_of_subset id hn h' h fun a => (hmem a).mpr)

/-- A stable sort keeps the order of items that are as good as each other. -/
theorem filter_mergeSort {α : Type} {le : α → α → Bool} (trans : ∀ a b c, le a b → le b c → le a c)
    (total : ∀ a b, le a b || le b a) {p : α → Bool} (hp : ∀ a b, p a → p b → le a b) (l : List α) :
    (l.mergeSort le).filter p = l.filter p := by
  have hpairwise : (l.filter p).Pairwise fun a b => le a b = true := by
    refine List.pairwise_of_forall_mem_list fun a ha b hb => ?_
    exact hp a b (List.mem_filter.mp ha).2 (List.mem_filter.mp hb).2
  have hsub : (l.filter p).Sublist (l.mergeSort le) :=
    List.sublist_mergeSort trans total hpairwise List.filter_sublist
  have hfiltered : (l.filter p).Sublist ((l.mergeSort le).filter p) := by
    have h := hsub.filter p
    simp only [List.filter_filter, Bool.and_self] at h
    exact h
  have hlength : ((l.mergeSort le).filter p).length = (l.filter p).length :=
    ((List.mergeSort_perm l le).filter p).length_eq
  exact (hfiltered.eq_of_length hlength.symm).symm

end LeastAccess
