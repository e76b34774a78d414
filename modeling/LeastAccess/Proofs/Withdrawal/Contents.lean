import LeastAccess.Proofs.Graph.Nesting
import LeastAccess.Withdrawal

/-!
# What the types of a graph contain

`Contents` says which levels the declarations in a type bring about, at any depth. A single pass from the
innermost types outwards computes the broadest of them for every type. The invariant of the pass speaks of
the types visited so far. It is kept because no type is visited before the types in it, so the contents
of a visited type do not change any more.

* `summarizes_withdraw` — the levels and the withdrawn types after the whole pass
-/

namespace LeastAccess

/-! ## Broadest levels -/

theorem Level.max_eq_or (a b : Level) : max a b = a ∨ max a b = b := by
  cases a <;> cases b <;> decide

/-- The broadest of the levels with a property, if there are any. -/
def IsBroadest (p : Level → Prop) : Option Level → Prop
  | none => ∀ l, ¬ p l
  | some broadest => p broadest ∧ ∀ l, p l → l ≤ broadest

namespace IsBroadest

variable {p q : Level → Prop}

theorem congr {o : Option Level} (h : IsBroadest p o) (hpq : ∀ l, p l ↔ q l) : IsBroadest q o := by
  cases o with
  | none => exact fun l hl => h l ((hpq l).mpr hl)
  | some b => exact ⟨(hpq b).mp h.1, fun l hl => h.2 l ((hpq l).mpr hl)⟩

theorem unique {o o' : Option Level} (h : IsBroadest p o)
    (h' : IsBroadest p o') : o = o' := by
  cases o with
  | none =>
    cases o' with
    | none => rfl
    | some b' => exact absurd h'.1 (h b')
  | some b =>
    cases o' with
    | none => exact absurd h.1 (h' b)
    | some b' => rw [Level.le_antisymm (h'.2 b h.1) (h.2 b' h'.1)]

theorem or_some {a b : Level} (ha : IsBroadest p (some a)) (hb : IsBroadest q (some b)) :
    IsBroadest (fun l => p l ∨ q l) (some (max a b)) := by
  refine ⟨?_, ?_⟩
  · rcases Level.max_eq_or a b with h | h
    · rw [h]
      exact Or.inl ha.1
    · rw [h]
      exact Or.inr hb.1
  · rintro l (hl | hl)
    · exact Level.le_trans (ha.2 l hl) (Level.le_max_left a b)
    · exact Level.le_trans (hb.2 l hl) (Level.le_max_right a b)

/-- A level is below the broadest one exactly if it is below one of them. -/
theorem lt_iff {o : Option Level} (h : IsBroadest p o) (own : Level) :
    (∃ level, o = some level ∧ own < level) ↔ ∃ level, p level ∧ own < level := by
  constructor
  · rintro ⟨level, rfl, hlt⟩
    exact ⟨level, h.1, hlt⟩
  · rintro ⟨level, hp, hlt⟩
    cases o with
    | none => exact absurd hp (h level)
    | some b => exact ⟨b, rfl, Nat.lt_of_lt_of_le hlt (h.2 level hp)⟩

end IsBroadest

/-! ## Contents -/

/-- A level that what is in a type brings about: directly, through a nested type with contents, or as
that nested type's own level. Only the types of a list pass on levels. -/
inductive Contents (direct : ContainerLevels) (suggested : String → Option Level)
    (types : List Declaration) : String → Level → Prop
  | direct {id : String} {level : Level} (h : direct.get? id = some level) :
      Contents direct suggested types id level
  | nested {type : Declaration} {id : String} {level : Level} (hmem : type ∈ types)
      (hc : type.containerId = some id) (h : Contents direct suggested types type.id level) :
      Contents direct suggested types id level
  | own {type : Declaration} {id : String} {level inner : Level} (hmem : type ∈ types)
      (hc : type.containerId = some id) (h : Contents direct suggested types type.id inner)
      (hown : suggested type.id = some level) : Contents direct suggested types id level

namespace Contents

variable {direct : ContainerLevels} {suggested : String → Option Level} {types more : List Declaration}
  {type : Declaration} {id : String} {level : Level}

theorem mono (h : Contents direct suggested types id level) (hsub : types ⊆ more) :
    Contents direct suggested more id level := by
  induction h with
  | direct h => exact .direct h
  | nested hmem hc _ ih => exact .nested (hsub hmem) hc ih
  | own hmem hc _ hown ih => exact .own (hsub hmem) hc ih hown

/-- A type adds nothing to the contents of other types than those around it. -/
theorem of_append_of_ne (hout : ∀ u ∈ types ++ [type], type.containerId ≠ some u.id)
    (h : Contents direct suggested (types ++ [type]) id level) (hid : type.containerId ≠ some id) :
    Contents direct suggested types id level := by
  induction h with
  | direct h => exact .direct h
  | nested hmem hc _ ih =>
    rcases List.mem_append.mp hmem with hu | hu
    · exact .nested hu hc (ih (hout _ hmem))
    · rw [List.mem_singleton.mp hu] at hc
      exact absurd hc hid
  | own hmem hc _ hown ih =>
    rcases List.mem_append.mp hmem with hu | hu
    · exact .own hu hc (ih (hout _ hmem)) hown
    · rw [List.mem_singleton.mp hu] at hc
      exact absurd hc hid

theorem append_iff_of_ne (hout : ∀ u ∈ types ++ [type], type.containerId ≠ some u.id)
    (hid : type.containerId ≠ some id) :
    Contents direct suggested (types ++ [type]) id level ↔ Contents direct suggested types id level :=
  ⟨fun h => of_append_of_ne hout h hid, fun h => h.mono (List.subset_append_left _ _)⟩

/-- What a type adds to the type around it. -/
theorem append_iff_of_container (hout : ∀ u ∈ types ++ [type], type.containerId ≠ some u.id)
    (hid : type.containerId = some id) :
    Contents direct suggested (types ++ [type]) id level ↔
      Contents direct suggested types id level ∨ Contents direct suggested types type.id level ∨
        suggested type.id = some level ∧ ∃ inner, Contents direct suggested types type.id inner := by
  have hself : type ∈ types ++ [type] := List.mem_append_right _ (List.mem_singleton.mpr rfl)
  have hsub : types ⊆ types ++ [type] := List.subset_append_left _ _
  constructor
  · intro h
    cases h with
    | direct h => exact Or.inl (.direct h)
    | nested hmem hc h =>
      have h' := of_append_of_ne hout h (hout _ hmem)
      rcases List.mem_append.mp hmem with hu | hu
      · exact Or.inl (.nested hu hc h')
      · rw [List.mem_singleton.mp hu] at h'
        exact Or.inr (Or.inl h')
    | own hmem hc h hown =>
      have h' := of_append_of_ne hout h (hout _ hmem)
      rcases List.mem_append.mp hmem with hu | hu
      · exact Or.inl (.own hu hc h' hown)
      · rw [List.mem_singleton.mp hu] at h' hown
        exact Or.inr (Or.inr ⟨hown, _, h'⟩)
  · rintro (h | h | ⟨hown, inner, h⟩)
    · exact h.mono hsub
    · exact .nested hself hid (h.mono hsub)
    · exact .own hself hid (h.mono hsub) hown

end Contents

/-! ## One visit -/

namespace Withdrawals

variable {direct : ContainerLevels} {suggested : String → Option Level} {w : Withdrawals}
  {type : Declaration} {id : String}

/-- What a type passes on to the type around it. -/
def effective (own : Option Level) (contents : Level) : Level :=
  match own with
  | some own => max own contents
  | none => contents

theorem get?_visit_of_ne (hid : type.containerId ≠ some id) :
    (visit suggested w type).levels.get? id = w.levels.get? id := by
  unfold visit add
  cases w.levels.get? type.id with
  | none => rfl
  | some contents =>
    cases hc : type.containerId with
    | none =>
      simp only []
      split
      · split <;> rfl
      · rfl
    | some container =>
      have hne : id ≠ container := fun heq => hid (by rw [hc, heq])
      simp only [ContainerLevels.get?_accumulate, if_neg hne]
      split
      · split <;> rfl
      · rfl

theorem get?_visit_of_container (hid : type.containerId = some id) :
    (visit suggested w type).levels.get? id =
      match w.levels.get? type.id with
      | none => w.levels.get? id
      | some contents => some (w.levels.raised id (effective (suggested type.id) contents)) := by
  unfold visit add
  cases w.levels.get? type.id with
  | none => rfl
  | some contents =>
    simp only [hid, ContainerLevels.get?_accumulate, if_true]
    split
    · split <;> rfl
    · rfl

theorem mem_withdrawn_visit :
    id ∈ (visit suggested w type).withdrawn ↔
      id ∈ w.withdrawn ∨ id = type.id ∧ ∃ own, suggested type.id = some own ∧
        ∃ level, w.levels.get? type.id = some level ∧ own < level := by
  have hadd : id ∈ (w.add type.id).withdrawn ↔ id ∈ w.withdrawn ∨ id = type.id := by
    unfold add
    split
    · next hin =>
      refine ⟨Or.inl, ?_⟩
      rintro (h | rfl)
      · exact h
      · exact List.contains_iff_mem.mp hin
    · simp
  unfold visit
  cases hl : w.levels.get? type.id with
  | none => simp
  | some contents =>
    cases ho : suggested type.id with
    | none => cases type.containerId <;> simp
    | some own =>
      by_cases hlt : own < contents
      · cases type.containerId <;> simp [hlt, hadd]
      · cases type.containerId <;> simp [hlt]

/-! ## The pass -/

/-- The levels are the broadest contents of each type, and the withdrawn types are those whose own level
is below one of their contents, as far as types of a list have been visited. -/
structure Summarizes (direct : ContainerLevels) (suggested : String → Option Level)
    (types : List Declaration) (w : Withdrawals) : Prop where
  levels : ∀ id, IsBroadest (Contents direct suggested types id) (w.levels.get? id)
  withdrawn : ∀ id, id ∈ w.withdrawn ↔ ∃ type ∈ types, type.id = id ∧
    ∃ own, suggested type.id = some own ∧
      ∃ level, Contents direct suggested types type.id level ∧ own < level

variable {types : List Declaration}

theorem summarizes_start (direct : ContainerLevels) (suggested : String → Option Level) :
    Summarizes direct suggested [] { levels := direct } where
  levels id := by
    cases h : direct.get? id with
    | none =>
      intro l hl
      cases hl with
      | direct h' =>
        rw [h] at h'
        cases h'
      | nested hmem => exact absurd hmem List.not_mem_nil
      | own hmem => exact absurd hmem List.not_mem_nil
    | some level =>
      refine ⟨.direct h, fun l hl => ?_⟩
      cases hl with
      | direct h' =>
        rw [h] at h'
        cases h'
        exact Level.le_refl _
      | nested hmem => exact absurd hmem List.not_mem_nil
      | own hmem => exact absurd hmem List.not_mem_nil
  withdrawn id := by simp

/-- What a type passes on is the broadest of its contents and its own level. -/
theorem isBroadest_effective {p : Level → Prop} {contents : Level} (h : IsBroadest p (some contents))
    (own : Option Level) :
    IsBroadest (fun l => p l ∨ own = some l ∧ ∃ inner, p inner) (some (effective own contents)) := by
  cases own with
  | none => exact h.congr fun l => by simp
  | some own =>
    have hown : IsBroadest (· = own) (some own) := ⟨rfl, fun l hl => hl ▸ Level.le_refl _⟩
    refine (hown.or_some h).congr fun l => ?_
    have hinner : ∃ inner, p inner := ⟨contents, h.1⟩
    simp only [Option.some.injEq, hinner, and_true]
    rw [or_comm, eq_comm]

theorem isBroadest_raised {p q : Level → Prop} {levels : ContainerLevels} {level : Level}
    (hp : IsBroadest p (levels.get? id)) (hq : IsBroadest q (some level)) :
    IsBroadest (fun l => p l ∨ q l) (some (levels.raised id level)) := by
  unfold ContainerLevels.raised
  cases h : levels.get? id with
  | none =>
    rw [h] at hp
    exact hq.congr fun l => (or_iff_right (hp l)).symm
  | some previous =>
    rw [h] at hp
    exact hp.or_some hq

/-- A visit adds a type to the summary, if no type visited so far is around it. -/
theorem Summarizes.visit (h : Summarizes direct suggested types w)
    (hout : ∀ u ∈ types ++ [type], type.containerId ≠ some u.id) :
    Summarizes direct suggested (types ++ [type]) (visit suggested w type) where
  levels id := by
    -- only the type directly around the visited one gets new contents
    by_cases hid : type.containerId = some id
    · have hcontents := h.levels type.id
      rw [get?_visit_of_container hid]
      cases hl : w.levels.get? type.id with
      | none =>
        rw [hl] at hcontents
        refine (h.levels id).congr fun l => ?_
        rw [Contents.append_iff_of_container hout hid]
        constructor
        · exact Or.inl
        · rintro (hm | hm | ⟨_, inner, hm⟩)
          · exact hm
          · exact absurd hm (hcontents l)
          · exact absurd hm (hcontents inner)
      | some contents =>
        rw [hl] at hcontents
        refine (isBroadest_raised (h.levels id) (isBroadest_effective hcontents _)).congr fun l => ?_
        rw [Contents.append_iff_of_container hout hid]
    · rw [get?_visit_of_ne hid]
      exact (h.levels id).congr fun l => (Contents.append_iff_of_ne hout hid).symm
  withdrawn id := by
    -- no visited type is around this one, so the contents of all of them are final
    have hkeep : ∀ u ∈ types ++ [type], ∀ l,
        Contents direct suggested (types ++ [type]) u.id l ↔ Contents direct suggested types u.id l :=
      fun u hu l => Contents.append_iff_of_ne hout (hout u hu)
    have hself : type ∈ types ++ [type] := List.mem_append_right _ (List.mem_singleton.mpr rfl)
    simp only [mem_withdrawn_visit, h.withdrawn id, (h.levels type.id).lt_iff]
    constructor
    · rintro (⟨u, hu, rfl, own, ho, l, hl, hlt⟩ | ⟨rfl, own, ho, l, hl, hlt⟩)
      · have hu' := List.mem_append_left [type] hu
        exact ⟨u, hu', rfl, own, ho, l, (hkeep u hu' l).mpr hl, hlt⟩
      · exact ⟨type, hself, rfl, own, ho, l, (hkeep type hself l).mpr hl, hlt⟩
    · rintro ⟨u, hu, rfl, own, ho, l, hl, hlt⟩
      have hl' := (hkeep u hu l).mp hl
      rcases List.mem_append.mp hu with hu | hu
      · exact Or.inl ⟨u, hu, rfl, own, ho, l, hl', hlt⟩
      · rw [List.mem_singleton.mp hu] at ho hl' ⊢
        exact Or.inr ⟨rfl, own, ho, l, hl', hlt⟩

end Withdrawals

theorem Graph.mem_typesInnermostFirst_iff {g : Graph} {type : Declaration} :
    type ∈ g.typesInnermostFirst ↔ type ∈ g.declarations ∧ type.isType = true := by
  rw [g.typesInnermostFirst_perm.mem_iff, List.mem_filter]

/-- Types that are declared after those in them are visited in document order. -/
theorem Graph.typesInnermostFirst_of_pairwise {g : Graph}
    (h : (g.declarations.filter (·.isType)).Pairwise fun a b => g.depth b.id ≤ g.depth a.id) :
    g.typesInnermostFirst = g.declarations.filter (·.isType) := by
  have hsorted : ((g.declarations.filter (·.isType)).map fun t => (g.depth t.id, t)).Pairwise
      fun a b => decide (b.1 ≤ a.1) = true := by
    rw [List.pairwise_map]
    exact h.imp decide_eq_true
  rw [typesInnermostFirst, List.mergeSort_of_pairwise hsorted, List.map_map]
  exact List.map_id _

/-- No type is visited before a type in it. -/
theorem Graph.containerId_ne_of_typesInnermostFirst {g : Graph} (hu : g.UniqueIds) (ha : g.Acyclic)
    {visited rest : List Declaration} {type : Declaration}
    (h : g.typesInnermostFirst = visited ++ type :: rest) :
    ∀ u ∈ visited ++ [type], type.containerId ≠ some u.id := by
  intro u hmem hc
  have hin : type ∈ g.typesInnermostFirst := h ▸ List.mem_append_right _ List.mem_cons_self
  have hcontainer : g.containerOf? type.id = some u.id := by
    rw [containerOf?_of_mem hu (mem_typesInnermostFirst_iff.mp hin).1, hc]
  have hdepth := depth_of_container ha hcontainer
  have hsorted := g.typesInnermostFirst_pairwise
  rw [h, List.pairwise_append] at hsorted
  rcases List.mem_append.mp hmem with hvisited | hself
  · have hle := hsorted.2.2 u hvisited type List.mem_cons_self
    omega
  · rw [List.mem_singleton.mp hself] at hdepth
    omega

/-- **The pass from the innermost types outwards finds the broadest contents of every type,** and
withdraws the types whose own level is below them. -/
theorem summarizes_withdraw {g : Graph} (hu : g.UniqueIds) (ha : g.Acyclic) (direct : ContainerLevels)
    (suggested : String → Option Level) :
    (withdraw g direct suggested).Summarizes direct suggested g.typesInnermostFirst := by
  have key : ∀ (rest visited : List Declaration) (w : Withdrawals),
      g.typesInnermostFirst = visited ++ rest → w.Summarizes direct suggested visited →
      (rest.foldl (Withdrawals.visit suggested) w).Summarizes direct suggested g.typesInnermostFirst := by
    intro rest
    induction rest with
    | nil =>
      intro visited w heq hw
      rw [heq, List.append_nil]
      exact hw
    | cons type rest ih =>
      intro visited w heq hw
      refine ih (visited ++ [type]) _ ?_ (hw.visit ?_)
      · rw [heq, List.append_assoc]
        rfl
      · exact Graph.containerId_ne_of_typesInnermostFirst hu ha heq
  exact key _ [] _ rfl (Withdrawals.summarizes_start direct suggested)

end LeastAccess
