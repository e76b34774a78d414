import Mathlib.Data.List.Basic

/-!
# Enumerations

A check that lists what it finds says nothing of where that was found. `Enumerates` ties such a list to a
relation between places and findings. A place is a path of positions, and paths are in lexicographic order,
so what is found at a whole comes before what is found at its parts.

* `eq_nil_iff` — nothing is listed if and only if nothing is found
* `append`, `cons`, `flatMap`, `filterMap` — lists put together from lists
-/

namespace LeastAccess

/-- A list has what is found at each place, once, in the order of the places. -/
def Enumerates {ι : Type} (found : List Nat → ι → Prop) (l : List ι) : Prop :=
  ∃ placed : List (List Nat × ι), placed.map Prod.snd = l ∧ (placed.map Prod.fst).Pairwise (· < ·) ∧
    ∀ place i, found place i ↔ (place, i) ∈ placed

/-- What is found at the parts of something, under their positions. -/
def AtParts {ι : Type} (part : Nat → List Nat → ι → Prop) (place : List Nat) (i : ι) : Prop :=
  ∃ k rest, place = k :: rest ∧ part k rest i

namespace Enumerates

variable {ι α : Type} {found found' : List Nat → ι → Prop} {l l' : List ι}

theorem congr (h : Enumerates found l) (hiff : ∀ place i, found' place i ↔ found place i) :
    Enumerates found' l := by
  obtain ⟨placed, hl, hsorted, hmem⟩ := h
  exact ⟨placed, hl, hsorted, fun place i => (hiff place i).trans (hmem place i)⟩

/-- Nothing is listed if and only if nothing is found. -/
theorem eq_nil_iff (h : Enumerates found l) : l = [] ↔ ∀ place i, ¬ found place i := by
  obtain ⟨placed, rfl, -, hmem⟩ := h
  rw [List.map_eq_nil_iff, List.eq_nil_iff_forall_not_mem, Prod.forall]
  simp only [hmem]

/-! ## Lists put together from lists -/

theorem nil (h : ∀ place i, ¬ found place i) : Enumerates found [] :=
  ⟨[], rfl, .nil, fun place i => iff_of_false (h place i) List.not_mem_nil⟩

/-- At most one finding, at the place itself. -/
theorem toList (o : Option ι) : Enumerates (fun place i => place = [] ∧ o = some i) o.toList := by
  cases o with
  | none => exact nil fun _ _ h => nomatch h.2
  | some i => exact ⟨[([], i)], rfl, List.pairwise_singleton _ _, fun place j => by simp [eq_comm]⟩

theorem ite (p : Prop) [Decidable p] (i : ι) :
    Enumerates (fun place j => place = [] ∧ p ∧ j = i) (if p then [i] else []) := by
  by_cases hp : p
  · rw [if_pos hp]
    exact (toList (some i)).congr fun place j => by simp [hp, eq_comm]
  · rw [if_neg hp]
    exact nil fun _ _ h => hp h.2.1

/-- Places can be renamed as long as their order stays. -/
theorem rename (h : Enumerates found l) (f : List Nat → List Nat)
    (hf : ∀ place i place' i', found place i → found place' i' → place < place' → f place < f place') :
    Enumerates (fun place i => ∃ place', place = f place' ∧ found place' i) l := by
  obtain ⟨placed, hl, hsorted, hmem⟩ := h
  refine ⟨placed.map fun x => (f x.1, x.2), by rw [List.map_map]; exact hl, ?_, ?_⟩
  · rw [List.pairwise_map] at hsorted
    rw [List.map_map, List.pairwise_map]
    refine hsorted.imp_of_mem fun {x y} hx hy hlt => ?_
    exact hf _ _ _ _ ((hmem x.1 x.2).mpr hx) ((hmem y.1 y.2).mpr hy) hlt
  · intro place i
    simp only [hmem, List.mem_map, Prod.mk.injEq, Prod.exists]
    constructor
    · rintro ⟨place', rfl, h⟩
      exact ⟨place', i, h, rfl, rfl⟩
    · rintro ⟨place', _, h, rfl, rfl⟩
      exact ⟨place', rfl, h⟩

/-- The findings at a part are found under its position. -/
theorem under (h : Enumerates found l) (n : Nat) :
    Enumerates (fun place i => ∃ rest, place = n :: rest ∧ found rest i) l :=
  h.rename (n :: ·) fun _ _ _ _ _ _ hlt => List.cons_lt_cons_iff.mpr (Or.inr ⟨rfl, hlt⟩)

theorem append (h : Enumerates found l) (h' : Enumerates found' l')
    (hlt : ∀ place i place' i', found place i → found' place' i' → place < place') :
    Enumerates (fun place i => found place i ∨ found' place i) (l ++ l') := by
  obtain ⟨placed, rfl, hsorted, hmem⟩ := h
  obtain ⟨placed', rfl, hsorted', hmem'⟩ := h'
  refine ⟨placed ++ placed', List.map_append, ?_, fun place i => by
    simp only [hmem, hmem', List.mem_append]⟩
  rw [List.map_append, List.pairwise_append]
  refine ⟨hsorted, hsorted', fun place hplace place' hplace' => ?_⟩
  obtain ⟨x, hx, rfl⟩ := List.mem_map.mp hplace
  obtain ⟨x', hx', rfl⟩ := List.mem_map.mp hplace'
  exact hlt _ _ _ _ ((hmem _ _).mpr hx) ((hmem' _ _).mpr hx')

/-- What is found at the first part and at the others is found at all parts. -/
theorem cons {part : Nat → List Nat → ι → Prop} (h : Enumerates (part 0) l)
    (h' : Enumerates (AtParts fun k => part (k + 1)) l') : Enumerates (AtParts part) (l ++ l') := by
  have hothers := h'.rename (List.modifyHead (· + 1)) <| by
    rintro _ _ _ _ ⟨k, rest, rfl, -⟩ ⟨k', rest', rfl, -⟩ hlt
    rw [List.cons_lt_cons_iff] at hlt
    refine List.cons_lt_cons_iff.mpr (hlt.imp Nat.succ_lt_succ fun ⟨hk, hrest⟩ => ⟨?_, hrest⟩)
    rw [hk]
  refine ((h.under 0).append hothers ?_).congr fun place i => ?_
  · rintro _ _ _ _ ⟨rest, rfl, -⟩ ⟨_, rfl, k, rest', rfl, -⟩
    exact List.cons_lt_cons_iff.mpr (Or.inl k.succ_pos)
  · constructor
    · rintro ⟨_ | k, rest, rfl, hpart⟩
      · exact Or.inl ⟨rest, rfl, hpart⟩
      · exact Or.inr ⟨k :: rest, rfl, k, rest, rfl, hpart⟩
    · rintro (⟨rest, rfl, hpart⟩ | ⟨_, rfl, k, rest, rfl, hpart⟩)
      · exact ⟨0, rest, rfl, hpart⟩
      · exact ⟨k + 1, rest, rfl, hpart⟩

theorem flatMap {part : α → List Nat → ι → Prop} {f : α → List ι} (h : ∀ x, Enumerates (part x) (f x))
    (xs : List α) :
    Enumerates (AtParts fun k rest i => ∃ x, xs[k]? = some x ∧ part x rest i) (xs.flatMap f) := by
  induction xs with
  | nil => exact nil fun _ _ ⟨_, _, _, _, hx, _⟩ => by cases hx
  | cons x xs ih =>
    rw [List.flatMap_cons]
    exact cons ((h x).congr fun place i => by simp) (ih.congr fun place i => by simp [AtParts])

theorem filterMap (f : α → Option ι) (xs : List α) :
    Enumerates (fun place i => ∃ k x, place = [k] ∧ xs[k]? = some x ∧ f x = some i) (xs.filterMap f) := by
  rw [List.filterMap_eq_flatMap_toList]
  refine (flatMap (fun x => toList (f x)) xs).congr fun place i => ?_
  constructor
  · rintro ⟨k, x, rfl, hx, hi⟩
    exact ⟨k, [], rfl, x, hx, rfl, hi⟩
  · rintro ⟨k, _, rfl, x, hx, rfl, hi⟩
    exact ⟨k, x, rfl, hx, hi⟩

end Enumerates

end LeastAccess
