import Mathlib.Data.List.Forall2
import Mathlib.Data.List.Perm.Basic

/-!
# Shuffled lists

Two lists whose items correspond to each other in some order. Where the correspondence is equality, one
list is a permutation of the other.

* `rel_cases` — what a look-up answers on either side
* `Shuffled.map`, `Shuffled.perm_map` — images of corresponding items
* `Shuffled.forall₂` — what is made of the items one by one is shuffled as well
-/

namespace LeastAccess

/-- Of two optional values that correspond to each other either both are missing or neither is. -/
theorem rel_cases {α β : Type} {R : α → β → Prop} {o : Option α} {o' : Option β} (h : Option.Rel R o o') :
    o = none ∧ o' = none ∨ ∃ a a', o = some a ∧ o' = some a' ∧ R a a' := by
  cases h with
  | none => exact Or.inl ⟨rfl, rfl⟩
  | some hr => exact Or.inr ⟨_, _, rfl, rfl, hr⟩

/-- The items of one list correspond to those of another one, in some order. -/
def Shuffled {α : Type} (R : α → α → Prop) (l l' : List α) : Prop :=
  ∃ middle, List.Forall₂ R l middle ∧ middle.Perm l'

namespace Shuffled

variable {α β : Type} {R : α → α → Prop} {l l' : List α}

theorem of_perm {l l' : List α} (h : l.Perm l') : Shuffled (· = ·) l l' :=
  ⟨l, List.forall₂_same.mpr fun _ _ => rfl, h⟩

theorem perm {l l' : List α} (h : Shuffled (· = ·) l l') : l.Perm l' := by
  obtain ⟨middle, hitems, hperm⟩ := h
  rw [List.forall₂_eq_eq_eq] at hitems
  exact hitems ▸ hperm

theorem symm (hsymm : ∀ a a', R a a' → R a' a) (h : Shuffled R l l') : Shuffled R l' l := by
  obtain ⟨middle, hitems, hperm⟩ := h
  have hback : List.Forall₂ R middle l := (hitems.imp hsymm).flip
  obtain ⟨middle', hitems', hperm'⟩ := List.perm_comp_forall₂ hperm.symm hback
  exact ⟨middle', hitems', hperm'⟩

theorem exists_left (h : Shuffled R l l') {a' : α} (ha : a' ∈ l') : ∃ a ∈ l, R a a' := by
  obtain ⟨middle, hitems, hperm⟩ := h
  rw [← hperm.mem_iff] at ha
  clear hperm
  induction hitems with
  | nil => exact absurd ha List.not_mem_nil
  | cons hfirst _ ih =>
    rcases List.mem_cons.mp ha with rfl | ha
    · exact ⟨_, List.mem_cons_self, hfirst⟩
    · obtain ⟨a, hmem, hr⟩ := ih ha
      exact ⟨a, List.mem_cons_of_mem _ hmem, hr⟩

theorem map {S : β → β → Prop} {f : α → β} (h : Shuffled R l l') (hf : ∀ a a', R a a' → S (f a) (f a')) :
    Shuffled S (l.map f) (l'.map f) := by
  obtain ⟨middle, hitems, hperm⟩ := h
  refine ⟨middle.map f, ?_, hperm.map f⟩
  rw [List.forall₂_map_left_iff, List.forall₂_map_right_iff]
  exact hitems.imp hf

/-- What corresponding items have in common is permuted. -/
theorem perm_map {f : α → β} (h : Shuffled R l l') (hf : ∀ a a', R a a' → f a = f a') :
    (l.map f).Perm (l'.map f) :=
  (h.map hf).perm

/-- If what is made of an item corresponds to what is made of a corresponding one, then what is made of all
items of a list is a list that is shuffled with the items. -/
theorem forall₂ {P : α → β → Prop} {S : β → β → Prop} {made : List β} (h : Shuffled R l l')
    (hmade : List.Forall₂ P l made)
    (hstep : ∀ a a' b, R a a' → P a b → ∃ b', P a' b' ∧ S b b') :
    ∃ made', List.Forall₂ P l' made' ∧ Shuffled S made made' := by
  obtain ⟨middle, hitems, hperm⟩ := h
  have hmiddle : ∃ between, List.Forall₂ P middle between ∧ List.Forall₂ S made between := by
    clear hperm
    induction hitems generalizing made with
    | nil =>
      cases hmade
      exact ⟨[], .nil, .nil⟩
    | cons hfirst _ ih =>
      cases hmade with
      | cons hb hrest =>
        obtain ⟨b', hb', hs⟩ := hstep _ _ _ hfirst hb
        obtain ⟨between, hbetween, hsrest⟩ := ih hrest
        exact ⟨b' :: between, .cons hb' hbetween, .cons hs hsrest⟩
  obtain ⟨between, hbetween, hs⟩ := hmiddle
  obtain ⟨made', hmade', hperm'⟩ := List.perm_comp_forall₂ hperm.symm hbetween
  exact ⟨made', hmade', between, hs, hperm'.symm⟩

end Shuffled

end LeastAccess
