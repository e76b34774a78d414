import LeastAccess.Proofs.DocumentOrder
import LeastAccess.Proofs.Graph.Walks
import LeastAccess.Proofs.Snapshot.Violations
import LeastAccess.Proofs.Withdrawal.Contents

/-!
# Joins over the tree of types

`treeJoin` goes from a type into the types in it: it joins what is known of the type with what each of them
passes on. The withdrawing pass goes the other way, over all types sorted by depth, and reads and writes one
table. Both come to the same levels, and the order in which the pass withdraws types is that of depth, and
of the document where the depth is the same.

* `isBroadest_treeJoin` — the recursion finds the broadest contents of every type
* `typesInnermostFirst_eq` — depth first, then the document: there is one such order
* `withdrawal_is_tree_join` — so does the pass, and a second one changes nothing
-/

namespace LeastAccess

/-! ## The recursion -/

namespace Graph

variable {g : Graph} {id : String} {type : Declaration}

/-- The types directly in a type, in document order. -/
def typesIn (g : Graph) (id : String) : List Declaration := (g.membersOf id).filter (·.isType)

theorem mem_typesIn_iff :
    type ∈ g.typesIn id ↔ type ∈ g.typesInnermostFirst ∧ type.containerId = some id := by
  unfold typesIn membersOf
  rw [mem_typesInnermostFirst_iff, List.mem_filter, List.mem_filter, beq_iff_eq]
  exact and_right_comm

theorem length_chainFrom_le (g : Graph) (n : Nat) (id : String) : (g.chainFrom n id).length ≤ n + 1 := by
  induction n generalizing id with
  | zero => exact Nat.le_refl 1
  | succ n ih =>
    rw [chainFrom]
    split
    · simp
    · next container _ =>
      have hle := ih container
      rw [List.length_cons]
      omega

/-- There are no more types around a declaration than declarations. -/
theorem depth_le (g : Graph) (id : String) : g.depth id ≤ g.declarations.length := by
  have hle := g.length_chainFrom_le g.declarations.length id
  unfold depth chain
  omega

/-- A type in another one is deeper, and there is a limit to depth. -/
theorem sub_depth_lt (hu : g.UniqueIds) (ha : g.Acyclic) (h : type ∈ g.typesIn id) :
    g.declarations.length - g.depth type.id < g.declarations.length - g.depth id := by
  obtain ⟨hmem, hc⟩ := mem_typesIn_iff.mp h
  have hcontainer : g.containerOf? type.id = some id := by
    rw [containerOf?_of_mem hu (mem_typesInnermostFirst_iff.mp hmem).1, hc]
  have hdepth := depth_of_container ha hcontainer
  have hle := g.depth_le type.id
  omega

/-- The join of what is known of a type with what the types in it pass on: their own join, and with it their
own level if they have one. Nothing comes from a type with nothing to join. -/
def treeJoin (g : Graph) (hu : g.UniqueIds) (ha : g.Acyclic) (direct : ContainerLevels)
    (suggested : String → Option Level) (id : String) : Option Level :=
  Level.broadest? ((direct.get? id).toList ++ (g.typesIn id).attach.filterMap fun type =>
    (treeJoin g hu ha direct suggested type.val.id).map (Withdrawals.effective (suggested type.val.id)))
  termination_by g.declarations.length - g.depth id
  decreasing_by exact sub_depth_lt hu ha type.property

end Graph

/-! ## The broadest of some levels -/

namespace IsBroadest

variable {p q : Level → Prop}

theorem of_list (levels : List Level) : IsBroadest (· ∈ levels) (Level.broadest? levels) := by
  cases levels with
  | nil => exact fun _ => List.not_mem_nil
  | cons a rest =>
    show Level.join a rest ∈ a :: rest ∧ ∀ l ∈ a :: rest, l ≤ Level.join a rest
    constructor
    · rcases Level.join_eq_or_mem a rest with h | h
      · rw [h]
        exact List.mem_cons_self
      · exact List.mem_cons_of_mem _ h
    · intro l hl
      rcases List.mem_cons.mp hl with rfl | hl
      · exact Level.seed_le_join _ _
      · exact Level.le_join hl

/-- Levels that come up to all of some others, and are among them, have the same broadest one. -/
theorem of_cofinal {o : Option Level} (h : IsBroadest p o) (hsub : ∀ l, p l → q l)
    (hbelow : ∀ l, q l → ∃ above, p above ∧ l ≤ above) : IsBroadest q o := by
  cases o with
  | none =>
    intro l hl
    obtain ⟨above, habove, -⟩ := hbelow l hl
    exact h above habove
  | some broadest =>
    refine ⟨hsub _ h.1, fun l hl => ?_⟩
    obtain ⟨above, habove, hle⟩ := hbelow l hl
    exact Level.le_trans hle (h.2 above habove)

end IsBroadest

section

variable {g : Graph} (hu : g.UniqueIds) (ha : g.Acyclic) (direct : ContainerLevels)
  (suggested : String → Option Level)

/-- The recursion finds the broadest contents of every type. -/
theorem isBroadest_treeJoin (id : String) :
    IsBroadest (Contents direct suggested g.typesInnermostFirst id)
      (g.treeJoin hu ha direct suggested id) := by
  induction id using Graph.treeJoin.induct g hu ha with
  | case1 id ih =>
    rw [Graph.treeJoin]
    refine (IsBroadest.of_list _).of_cofinal ?_ ?_
    · -- what is joined is in the type
      intro level hlevel
      rcases List.mem_append.mp hlevel with hdirect | hnested
      · exact .direct (Option.mem_toList.mp hdirect)
      · obtain ⟨⟨type, htype⟩, -, heq⟩ := List.mem_filterMap.mp hnested
        obtain ⟨contents, hcontents, rfl⟩ := Option.map_eq_some_iff.mp heq
        obtain ⟨hmem, hc⟩ := Graph.mem_typesIn_iff.mp htype
        have hbroadest := ih ⟨type, htype⟩
        rw [hcontents] at hbroadest
        rcases (Withdrawals.isBroadest_effective hbroadest (suggested type.id)).1 with h | ⟨hown, inner, h⟩
        · exact .nested hmem hc h
        · exact .own hmem hc h hown
    · -- and what is in the type is not above all that is joined
      have hpassed {type : Declaration} (hmem : type ∈ g.typesInnermostFirst) (hc : type.containerId = some id)
          {inner level : Level} (hinner : Contents direct suggested g.typesInnermostFirst type.id inner)
          (h : Contents direct suggested g.typesInnermostFirst type.id level ∨
            suggested type.id = some level ∧
              ∃ inner, Contents direct suggested g.typesInnermostFirst type.id inner) :
          ∃ above ∈ (direct.get? id).toList ++ (g.typesIn id).attach.filterMap fun type =>
            (g.treeJoin hu ha direct suggested type.val.id).map
              (Withdrawals.effective (suggested type.val.id)), level ≤ above := by
        have htype : type ∈ g.typesIn id := Graph.mem_typesIn_iff.mpr ⟨hmem, hc⟩
        have hbroadest := ih ⟨type, htype⟩
        cases hcontents : g.treeJoin hu ha direct suggested type.id with
        | none =>
          rw [hcontents] at hbroadest
          exact absurd hinner (hbroadest inner)
        | some contents =>
          rw [hcontents] at hbroadest
          refine ⟨Withdrawals.effective (suggested type.id) contents, ?_,
            (Withdrawals.isBroadest_effective hbroadest (suggested type.id)).2 level h⟩
          refine List.mem_append_right _ (List.mem_filterMap.mpr ⟨⟨type, htype⟩, List.mem_attach _ _, ?_⟩)
          rw [hcontents]
          rfl
      intro level hlevel
      cases hlevel with
      | direct h => exact ⟨level, List.mem_append_left _ (Option.mem_toList.mpr h), Level.le_refl _⟩
      | nested hmem hc h => exact hpassed hmem hc h (Or.inl h)
      | own hmem hc h hown => exact hpassed hmem hc h (Or.inr ⟨hown, _, h⟩)

end

/-! ## The order of the pass -/

namespace Graph

variable {g : Graph}

/-- Types of the same depth are visited in document order. -/
theorem filter_typesInnermostFirst (g : Graph) (n : Nat) :
    g.typesInnermostFirst.filter (fun t => g.depth t.id == n) =
      (g.declarations.filter (·.isType)).filter fun t => g.depth t.id == n := by
  let deeper (a b : Nat × Declaration) : Bool := decide (b.1 ≤ a.1)
  let depths := (g.declarations.filter (·.isType)).map fun t => (g.depth t.id, t)
  have hkept : (depths.mergeSort deeper).filter (·.1 == n) = depths.filter (·.1 == n) := by
    refine filter_mergeSort (fun a b c hab hbc => ?_) (fun a b => ?_) (fun a b ha hb => ?_) depths
    · exact decide_eq_true (Nat.le_trans (of_decide_eq_true hbc) (of_decide_eq_true hab))
    · simpa [deeper] using Nat.le_total b.1 a.1
    · exact decide_eq_true (Nat.le_of_eq ((beq_iff_eq.mp hb).trans (beq_iff_eq.mp ha).symm))
  -- on both sides the number beside a type is its depth
  have hdepths {l : List (Nat × Declaration)} (hl : ∀ x ∈ l, x.1 = g.depth x.2.id) :
      (l.map Prod.snd).filter (fun t => g.depth t.id == n) = (l.filter (·.1 == n)).map Prod.snd := by
    rw [List.filter_map]
    refine congrArg (List.map Prod.snd) (List.filter_congr fun x hx => ?_)
    rw [Function.comp_apply, hl x hx]
  have hpaired : ∀ x ∈ depths, x.1 = g.depth x.2.id := by
    intro x hx
    obtain ⟨t, -, rfl⟩ := List.mem_map.mp hx
    rfl
  have htypes : depths.map Prod.snd = g.declarations.filter (·.isType) := by
    rw [List.map_map]
    exact List.map_id _
  show ((depths.mergeSort deeper).map Prod.snd).filter _ = _
  rw [hdepths fun x hx => hpaired x ((List.mergeSort_perm _ _).mem_iff.mp hx), hkept, ← hdepths hpaired,
    htypes]

/-- One id comes before another one if it is deeper, or as deep and declared before it. -/
def IsVisitedBefore (g : Graph) (a b : String) : Prop :=
  g.depth b < g.depth a ∨ g.depth a = g.depth b ∧ [a, b].Sublist g.ids

instance (g : Graph) (a b : String) : Decidable (g.IsVisitedBefore a b) :=
  inferInstanceAs (Decidable (_ ∨ _))

/-- The types are visited in the order of depth, and of the document where the depth is the same. -/
theorem pairwise_isVisitedBefore (g : Graph) :
    (g.typesInnermostFirst.map (·.id)).Pairwise g.IsVisitedBefore := by
  rw [List.pairwise_map, List.pairwise_iff_forall_sublist]
  intro a b hab
  have hle : g.depth b.id ≤ g.depth a.id :=
    List.pairwise_iff_forall_sublist.mp g.typesInnermostFirst_pairwise hab
  rcases Nat.lt_or_eq_of_le hle with hlt | heq
  · exact Or.inl hlt
  · refine Or.inr ⟨heq.symm, ?_⟩
    have hsame := hab.filter fun t => g.depth t.id == g.depth a.id
    rw [filter_typesInnermostFirst] at hsame
    have hpair : [a, b].filter (fun t => g.depth t.id == g.depth a.id) = [a, b] := by simp [heq]
    rw [hpair] at hsame
    exact ((hsame.trans List.filter_sublist).trans List.filter_sublist).map (·.id)

theorem nodup_typesInnermostFirst (hu : g.UniqueIds) : (g.typesInnermostFirst.map (·.id)).Nodup := by
  have hids : (g.declarations.map (·.id)).Nodup := hu
  rw [(g.typesInnermostFirst_perm.map (·.id)).nodup_iff]
  exact (List.filter_sublist.map _).nodup hids

theorem IsVisitedBefore.antisymm (hu : g.UniqueIds) {a b : String} (h : g.IsVisitedBefore a b)
    (h' : g.IsVisitedBefore b a) : a = b := by
  rcases h with hlt | ⟨heq, hsub⟩
  · rcases h' with hlt' | ⟨heq', -⟩
    · omega
    · omega
  · rcases h' with hlt' | ⟨-, hsub'⟩
    · omega
    · -- one document has them in one order only
      have hpair : [a, b] = [b, a] := eq_of_mem_iff hu hsub hsub' fun id => by simp [or_comm]
      exact (List.cons.inj hpair).1

/-- There is one such order. -/
theorem typesInnermostFirst_eq (hu : g.UniqueIds) {types : List Declaration}
    (hperm : types.Perm (g.declarations.filter (·.isType)))
    (hsorted : (types.map (·.id)).Pairwise g.IsVisitedBefore) : g.typesInnermostFirst = types := by
  refine List.Perm.eq_of_pairwise (fun a b ha hb hab hba => ?_)
    (List.pairwise_map.mp g.pairwise_isVisitedBefore) (List.pairwise_map.mp hsorted)
    (g.typesInnermostFirst_perm.trans hperm.symm)
  have ha := List.mem_of_mem_filter (g.typesInnermostFirst_perm.mem_iff.mp ha)
  have hb := List.mem_of_mem_filter (hperm.mem_iff.mp hb)
  exact eq_of_id_eq hu ha hb (hab.antisymm hu hba)

end Graph

namespace Withdrawals

variable {suggested : String → Option Level}

theorem eq_of_get? {w w' : Withdrawals} (hlevels : ∀ id, w.levels.get? id = w'.levels.get? id)
    (hwithdrawn : w.withdrawn = w'.withdrawn) : w = w' := by
  cases w
  cases w'
  obtain rfl := ContainerLevels.ext hlevels
  obtain rfl := hwithdrawn
  rfl

theorem withdrawn_visit (suggested : String → Option Level) (w : Withdrawals) (type : Declaration) :
    ∃ more, (visit suggested w type).withdrawn = w.withdrawn ++ more ∧ more.Sublist [type.id] := by
  have hadd : ∃ more, (w.add type.id).withdrawn = w.withdrawn ++ more ∧ more.Sublist [type.id] := by
    unfold add
    split
    · exact ⟨[], (List.append_nil _).symm, List.nil_sublist _⟩
    · exact ⟨[type.id], rfl, List.Sublist.refl _⟩
  have hsame : ∃ more, w.withdrawn = w.withdrawn ++ more ∧ more.Sublist [type.id] :=
    ⟨[], (List.append_nil _).symm, List.nil_sublist _⟩
  unfold visit
  cases w.levels.get? type.id with
  | none => exact hsame
  | some contents =>
    simp only []
    cases type.containerId with
    | none =>
      simp only []
      split
      · exact hadd
      · exact hsame
    | some container =>
      simp only []
      split
      · exact hadd
      · exact hsame

/-- Types are withdrawn in the order in which they are visited. -/
theorem sublist_withdrawn_foldl (suggested : String → Option Level) (types : List Declaration)
    (w : Withdrawals) :
    ∃ more, (types.foldl (visit suggested) w).withdrawn = w.withdrawn ++ more ∧
      more.Sublist (types.map (·.id)) := by
  induction types generalizing w with
  | nil => exact ⟨[], (List.append_nil _).symm, List.Sublist.refl _⟩
  | cons type types ih =>
    obtain ⟨first, hfirst, hsub⟩ := withdrawn_visit suggested w type
    obtain ⟨rest, hrest, hsubs⟩ := ih (visit suggested w type)
    refine ⟨first ++ rest, ?_, hsub.append hsubs⟩
    rw [List.foldl_cons, hrest, hfirst, List.append_assoc]

/-! ## The pass against the recursion -/

variable {direct : ContainerLevels} {types : List Declaration} {w : Withdrawals} {id : String} {level : Level}

/-- A type is withdrawn exactly if its own level is below the level found for its contents. -/
theorem Summarizes.mem_withdrawn_iff (h : w.Summarizes direct suggested types) :
    id ∈ w.withdrawn ↔ ∃ type ∈ types, type.id = id ∧ ∃ own, suggested id = some own ∧
      ∃ contents, w.levels.get? id = some contents ∧ own < contents := by
  rw [h.withdrawn id]
  constructor
  · rintro ⟨type, hmem, rfl, own, hown, hexceed⟩
    exact ⟨type, hmem, rfl, own, hown, ((h.levels type.id).lt_iff own).mpr hexceed⟩
  · rintro ⟨type, hmem, rfl, own, hown, hexceed⟩
    exact ⟨type, hmem, rfl, own, hown, ((h.levels type.id).lt_iff own).mp hexceed⟩

/-- What the levels of a summary bring about is not above them. -/
theorem Summarizes.le_of_contents (h : w.Summarizes direct suggested types)
    (hl : Contents w.levels suggested types id level) :
    ∃ broadest, w.levels.get? id = some broadest ∧ level ≤ broadest := by
  -- a level that is in a type is not above the one that was found for it
  have hbound {id : String} {level : Level} (hl : Contents direct suggested types id level) :
      ∃ broadest, w.levels.get? id = some broadest ∧ level ≤ broadest := by
    have hbroadest := h.levels id
    cases hget : w.levels.get? id with
    | none =>
      rw [hget] at hbroadest
      exact absurd hl (hbroadest level)
    | some broadest =>
      rw [hget] at hbroadest
      exact ⟨broadest, rfl, hbroadest.2 level hl⟩
  have hfound {id : String} {level : Level} (hget : w.levels.get? id = some level) :
      Contents direct suggested types id level := by
    have hbroadest := h.levels id
    rw [hget] at hbroadest
    exact hbroadest.1
  induction hl with
  | direct hget => exact ⟨_, hget, Level.le_refl _⟩
  | nested hmem hc _ ih =>
    obtain ⟨inner, hinner, hle⟩ := ih
    obtain ⟨broadest, hget, hle'⟩ := hbound (.nested hmem hc (hfound hinner))
    exact ⟨broadest, hget, Level.le_trans hle hle'⟩
  | own hmem hc _ hown ih =>
    obtain ⟨inner, hinner, -⟩ := ih
    exact hbound (.own hmem hc (hfound hinner) hown)

/-- The levels of a summary are broadest for themselves. -/
theorem Summarizes.isBroadest_self (h : w.Summarizes direct suggested types) (id : String) :
    IsBroadest (Contents w.levels suggested types id) (w.levels.get? id) := by
  cases hget : w.levels.get? id with
  | none =>
    intro level hl
    obtain ⟨broadest, hsome, -⟩ := h.le_of_contents hl
    rw [hget] at hsome
    cases hsome
  | some broadest =>
    refine ⟨.direct hget, fun level hl => ?_⟩
    obtain ⟨broadest', hsome, hle⟩ := h.le_of_contents hl
    rw [hget] at hsome
    cases hsome
    exact hle

end Withdrawals

section

variable {g : Graph}

theorem withdrawn_sublist (g : Graph) (direct : ContainerLevels) (suggested : String → Option Level) :
    (withdraw g direct suggested).withdrawn.Sublist (g.typesInnermostFirst.map (·.id)) := by
  obtain ⟨more, hmore, hsub⟩ :=
    Withdrawals.sublist_withdrawn_foldl suggested g.typesInnermostFirst { levels := direct }
  unfold withdraw
  rw [hmore]
  exact hsub

/-- A second pass over the levels of the first one changes nothing. -/
theorem withdraw_withdraw (hu : g.UniqueIds) (ha : g.Acyclic) (direct : ContainerLevels)
    (suggested : String → Option Level) :
    withdraw g (withdraw g direct suggested).levels suggested = withdraw g direct suggested := by
  have hfirst := summarizes_withdraw hu ha direct suggested
  have hsecond := summarizes_withdraw hu ha (withdraw g direct suggested).levels suggested
  have hlevels (id : String) : (withdraw g (withdraw g direct suggested).levels suggested).levels.get? id =
      (withdraw g direct suggested).levels.get? id :=
    (hsecond.levels id).unique (hfirst.isBroadest_self id)
  have hwithdrawn : (withdraw g (withdraw g direct suggested).levels suggested).withdrawn =
      (withdraw g direct suggested).withdrawn := by
    refine eq_of_mem_iff (Graph.nodup_typesInnermostFirst hu) (withdrawn_sublist g _ suggested)
      (withdrawn_sublist g direct suggested) fun id => ?_
    rw [hsecond.mem_withdrawn_iff, hfirst.mem_withdrawn_iff]
    simp only [hlevels]
  exact Withdrawals.eq_of_get? hlevels hwithdrawn

/-- **The pass over the sorted types computes the join over the tree.** On a graph with unique ids and without
a cycle of containers, every type has a depth, and afterwards the table holds for every id the join of the
recursion, if it has one. A type is withdrawn exactly if its own level is below that join. Deeper types are
withdrawn before others, and those of the same depth in document order. A second pass over the new table
withdraws the same types and leaves the table as it is. -/
theorem withdrawal_is_tree_join (hu : g.UniqueIds) (ha : g.Acyclic) (direct : ContainerLevels)
    (suggested : String → Option Level) :
    let w := withdraw g direct suggested
    let joined := g.treeJoin hu ha direct suggested
    g.checkDepths = .ok () ∧ (∀ id, w.levels.get? id = joined id) ∧
      (∀ id, id ∈ w.withdrawn ↔ ∃ type ∈ g.declarations, type.isType = true ∧ type.id = id ∧
        ∃ own contents, suggested id = some own ∧ joined id = some contents ∧ own < contents) ∧
      w.withdrawn.Pairwise g.IsVisitedBefore ∧
      withdraw g w.levels suggested = w := by
  intro w joined
  have hsummary : w.Summarizes direct suggested g.typesInnermostFirst :=
    summarizes_withdraw hu ha direct suggested
  have hlevels (id : String) : w.levels.get? id = joined id :=
    (hsummary.levels id).unique (isBroadest_treeJoin hu ha direct suggested id)
  refine ⟨Graph.checkDepths_eq_ok ha, hlevels, fun id => ?_, ?_, withdraw_withdraw hu ha direct suggested⟩
  · rw [hsummary.mem_withdrawn_iff, hlevels id]
    constructor
    · rintro ⟨type, hmem, hid, own, hown, contents, hcontents, hlt⟩
      obtain ⟨hmem, htype⟩ := Graph.mem_typesInnermostFirst_iff.mp hmem
      exact ⟨type, hmem, htype, hid, own, contents, hown, hcontents, hlt⟩
    · rintro ⟨type, hmem, htype, hid, own, contents, hown, hcontents, hlt⟩
      exact ⟨type, Graph.mem_typesInnermostFirst_iff.mpr ⟨hmem, htype⟩, hid, own, hown, contents,
        hcontents, hlt⟩
  · exact g.pairwise_isVisitedBefore.sublist (withdrawn_sublist g direct suggested)

end

/-- A type in a method of a nested type, a type in one that is not declared, and two types that are as deep as
each other. -/
def Sample.nestedTypes : Graph where
  declarations :=
    [{ id := "U", name := "U", kind := .type },
      { id := "L", name := "L", kind := .type, containerId := some "m" },
      { id := "N", name := "N", kind := .type, containerId := some "T" },
      { id := "m", name := "m", kind := .method, containerId := some "N" },
      { id := "T", name := "T", kind := .type },
      { id := "X", name := "X", kind := .type, containerId := some "?" }]

/-- All of these types are withdrawn but the one for which nothing is suggested. -/
theorem nested_types_are_joined :
    let g := Sample.nestedTypes
    let direct : ContainerLevels :=
      ⟨fun id => [("U", .pub), ("L", .pub), ("N", .prot), ("X", .pkg)].lookup id⟩
    let suggested (id : String) : Option Level :=
      [("U", .prot), ("L", .priv), ("N", .pkg), ("T", .pkg)].lookup id
    ∃ (hu : g.UniqueIds) (ha : g.Acyclic),
      (withdraw g direct suggested).withdrawn = ["L", "N", "U", "T"] ∧
        g.treeJoin hu ha direct suggested "T" = some .prot ∧
        g.treeJoin hu ha direct suggested "m" = some .pub ∧
        g.treeJoin hu ha direct suggested "?" = some .pkg ∧
        withdraw g (withdraw g direct suggested).levels suggested = withdraw g direct suggested := by
  intro g direct suggested
  have hu : g.ids.Nodup := by decide
  have houtermost : ∀ d ∈ g.declarations, g.hasOutermost d.id = true := by decide
  have ha : g.Acyclic :=
    Graph.acyclic_iff.mpr fun d hd => Graph.exists_isOutermost_of_hasOutermost (houtermost d hd)
  obtain ⟨-, hlevels, -, -, hagain⟩ := withdrawal_is_tree_join hu ha direct suggested
  have horder : g.typesInnermostFirst = ["L", "N", "X", "U", "T"].filterMap g.find? :=
    Graph.typesInnermostFirst_eq hu (by decide) (by decide)
  simp only [← hlevels]
  refine ⟨hu, ha, ?_, ?_, ?_, ?_, hagain⟩
  all_goals
    rw [withdraw, horder]
    decide +kernel

end LeastAccess
