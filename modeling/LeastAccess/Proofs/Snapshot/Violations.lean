import LeastAccess.Proofs.Graph.Nesting
import LeastAccess.Proofs.Snapshot.Enumeration
import LeastAccess.Snapshot.Integrity

/-!
# Violations of integrity

`Codebase.Violation` says what can be wrong with the references of a codebase, and where. A place is a path:
`[0, i]` and `[1, i]` are the id and the container of a declaration, `[2, k]` and `[3, k]` a key of the
ordinary and of the functional usages, and `[2, k, j]` a usage site under such a key. Reading the places in
lexicographic order is reading the document from the front.

* `enumerates_referenceIssues` — the check lists every violation once, in the order of the places
* `referencesResolve_iff` — without violations ids are unique and all references lead to what they should
* `enumerates_containmentIssues` — the check of containment lists the declarations without an outermost type
-/

namespace LeastAccess

/-! ## References -/

/-- The first number in the place of a usage section. -/
def UsageSection.place : UsageSection → Nat
  | .ordinary => 2
  | .functional => 3

/-- The id is that of a type. -/
def Graph.HasType (g : Graph) (id : String) : Prop := ∃ d, g.find? id = some d ∧ d.isType = true

/-- What is wrong at a place of a codebase. Of several declarations with one id the last one counts. -/
inductive Codebase.Violation (c : Codebase) : List Nat → ReferenceIssue → Prop where
  | duplicateId {i j : Nat} {d e : Declaration} (hd : c.graph.declarations[i]? = some d) (hlt : j < i)
      (he : c.graph.declarations[j]? = some e) (hid : e.id = d.id) : Violation c [0, i] (.duplicateId d.id)
  | unknownContainer {i : Nat} {d : Declaration} {id : String} (hd : c.graph.declarations[i]? = some d)
      (hc : d.containerId = some id) (hid : id ∉ c.graph.ids) :
      Violation c [1, i] (.unknownContainer d.id id)
  | containerIsNoType {i : Nat} {d : Declaration} {id : String} (hd : c.graph.declarations[i]? = some d)
      (hc : d.containerId = some id) (hid : id ∈ c.graph.ids) (htype : ¬ c.graph.HasType id) :
      Violation c [1, i] (.containerIsNoType d.id id)
  | unknownDeclaration {part : UsageSection} {k : Nat} {id : String} {sites : List UsageSite}
      (hkey : (c.usages.entries part)[k]? = some (id, sites)) (hid : id ∉ c.graph.ids) :
      Violation c [part.place, k] (.unknownDeclaration part id)
  | unknownEnclosingType {part : UsageSection} {k j : Nat} {id typeId : String} {sites : List UsageSite}
      {site : UsageSite} (hkey : (c.usages.entries part)[k]? = some (id, sites))
      (hsite : sites[j]? = some site) (henclosing : site.enclosingTypeId = some typeId)
      (htype : ¬ c.graph.HasType typeId) :
      Violation c [part.place, k, j] (.unknownEnclosingType part id j typeId)

namespace Graph

variable {g : Graph}

theorem enumerates_duplicateIds (seen : List String) (ds : List Declaration) :
    Enumerates (AtParts fun k rest issue => rest = [] ∧ ∃ d, ds[k]? = some d ∧
        (d.id ∈ seen ∨ ∃ j < k, ∃ e, ds[j]? = some e ∧ e.id = d.id) ∧ issue = .duplicateId d.id)
      (duplicateIds seen ds) := by
  induction ds generalizing seen with
  | nil => exact .nil fun _ _ ⟨_, _, _, _, _, hx, _⟩ => by cases hx
  | cons d ds ih =>
    rw [duplicateIds]
    -- an id that was seen before the second part was seen before the first one, or is that of the first one
    have hseen (k : Nat) (e : Declaration) :
        (e.id ∈ d.id :: seen ∨ ∃ j < k, ∃ e', ds[j]? = some e' ∧ e'.id = e.id) ↔
          e.id ∈ seen ∨ ∃ j < k + 1, ∃ e', (d :: ds)[j]? = some e' ∧ e'.id = e.id := by
      rw [List.mem_cons]
      constructor
      · rintro ((hid | hid) | ⟨j, hj, e', he', hid⟩)
        · exact Or.inr ⟨0, k.succ_pos, d, rfl, hid.symm⟩
        · exact Or.inl hid
        · exact Or.inr ⟨j + 1, Nat.succ_lt_succ hj, e', he', hid⟩
      · rintro (hid | ⟨_ | j, hj, e', he', hid⟩)
        · exact Or.inl (Or.inr hid)
        · cases he'
          exact Or.inl (Or.inl hid.symm)
        · exact Or.inr ⟨j, Nat.lt_of_succ_lt_succ hj, e', he', hid⟩
    refine .cons ((Enumerates.ite _ _).congr fun rest issue => ?_) ((ih (d.id :: seen)).congr ?_)
    · simp
    · intro place issue
      simp only [AtParts, hseen, List.getElem?_cons_succ]

theorem containerIssue?_eq_some_iff {d : Declaration} {issue : ReferenceIssue} :
    g.containerIssue? d = some issue ↔ ∃ id, d.containerId = some id ∧
      (id ∉ g.ids ∧ issue = .unknownContainer d.id id ∨
        id ∈ g.ids ∧ ¬ g.HasType id ∧ issue = .containerIsNoType d.id id) := by
  rw [containerIssue?]
  cases d.containerId with
  | none => simp
  | some id =>
    cases hf : g.find? id with
    | none => simp [find?_eq_none_iff.mp hf, hf, @eq_comm _ issue]
    | some container =>
      have hid : id ∈ g.ids := by
        by_contra hid
        rw [find?_eq_none_iff.mpr hid] at hf
        cases hf
      cases ht : container.isType <;> simp [hf, hid, ht, HasType, @eq_comm _ issue]

theorem declaresType_iff (g : Graph) (id : String) : g.declaresType id = true ↔ g.HasType id := by
  simp [declaresType, HasType, Option.any_eq_true]

theorem siteIssue?_eq_some_iff {part : UsageSection} {id : String} {position : Nat} {site : UsageSite}
    {issue : ReferenceIssue} : g.siteIssue? part id position site = some issue ↔
      ∃ typeId, site.enclosingTypeId = some typeId ∧ ¬ g.HasType typeId ∧
        issue = .unknownEnclosingType part id position typeId := by
  rw [siteIssue?]
  cases site.enclosingTypeId with
  | none => simp
  | some typeId =>
    have hiff := g.declaresType_iff typeId
    by_cases ht : g.HasType typeId <;> simp [hiff, ht, @eq_comm _ issue]

theorem enumerates_entryIssues (part : UsageSection) (entry : String × List UsageSite) :
    Enumerates (fun place issue =>
        place = [] ∧ entry.1 ∉ g.ids ∧ issue = .unknownDeclaration part entry.1 ∨
        ∃ j site typeId, place = [j] ∧ entry.2[j]? = some site ∧
          site.enclosingTypeId = some typeId ∧ ¬ g.HasType typeId ∧
          issue = .unknownEnclosingType part entry.1 j typeId)
      (g.entryIssues part entry) := by
  rw [entryIssues]
  refine ((Enumerates.ite _ _).append (Enumerates.filterMap _ _) ?_).congr fun place issue => ?_
  · rintro _ _ _ _ ⟨rfl, -⟩ ⟨k, _, rfl, -⟩
    exact List.nil_lt_cons _ _
  · simp only [Option.isNone_iff_eq_none, find?_eq_none_iff]
    refine or_congr Iff.rfl ⟨?_, ?_⟩
    · rintro ⟨j, site, typeId, rfl, hsite, henclosing⟩
      exact ⟨j, (site, j), rfl, by simp [hsite], siteIssue?_eq_some_iff.mpr ⟨typeId, henclosing⟩⟩
    · rintro ⟨j, ⟨site, position⟩, rfl, hsite, hissue⟩
      obtain ⟨typeId, henclosing⟩ := siteIssue?_eq_some_iff.mp hissue
      simp only [List.getElem?_zipIdx, Option.map_eq_some_iff, Prod.mk.injEq, Nat.zero_add] at hsite
      obtain ⟨_, hsite, rfl, rfl⟩ := hsite
      exact ⟨j, _, typeId, rfl, hsite, henclosing⟩

end Graph

namespace Codebase

variable {c : Codebase}

/-- The check of references lists every violation once, in the order of the places. -/
theorem enumerates_referenceIssues (c : Codebase) : Enumerates c.Violation c.referenceIssues := by
  have hids := (Graph.enumerates_duplicateIds [] c.graph.declarations).under 0
  have hcontainers := (Enumerates.filterMap c.graph.containerIssue? c.graph.declarations).under 1
  have hentries (part : UsageSection) := (Enumerates.flatMap
    (Graph.enumerates_entryIssues (g := c.graph) part) (c.usages.entries part)).under part.place
  refine (((hids.append hcontainers ?_).append (hentries .ordinary) ?_).append
    (hentries .functional) ?_).congr fun place issue => ?_
  · rintro _ _ _ _ ⟨_, rfl, -⟩ ⟨_, rfl, -⟩
    exact List.cons_lt_cons_iff.mpr (Or.inl Nat.zero_lt_one)
  · rintro _ _ _ _ (⟨_, rfl, -⟩ | ⟨_, rfl, -⟩) ⟨_, rfl, -⟩ <;>
      exact List.cons_lt_cons_iff.mpr (Or.inl (by decide))
  · rintro _ _ _ _ ((⟨_, rfl, -⟩ | ⟨_, rfl, -⟩) | ⟨_, rfl, -⟩) ⟨_, rfl, -⟩ <;>
      exact List.cons_lt_cons_iff.mpr (Or.inl (by decide))
  simp only [Graph.containerIssue?_eq_some_iff, List.not_mem_nil, false_or]
  constructor
  · intro h
    cases h with
    | duplicateId hd hlt he hid =>
      exact Or.inl (Or.inl (Or.inl ⟨_, rfl, _, _, rfl, rfl, _, hd, ⟨_, hlt, _, he, hid⟩, rfl⟩))
    | unknownContainer hd hc hid =>
      exact Or.inl (Or.inl (Or.inr ⟨_, rfl, _, _, rfl, hd, _, hc, Or.inl ⟨hid, rfl⟩⟩))
    | containerIsNoType hd hc hid htype =>
      exact Or.inl (Or.inl (Or.inr ⟨_, rfl, _, _, rfl, hd, _, hc, Or.inr ⟨hid, htype, rfl⟩⟩))
    | @unknownDeclaration part _ _ _ hkey hid =>
      cases part
      · exact Or.inl (Or.inr ⟨_, rfl, _, _, rfl, _, hkey, Or.inl ⟨rfl, hid, rfl⟩⟩)
      · exact Or.inr ⟨_, rfl, _, _, rfl, _, hkey, Or.inl ⟨rfl, hid, rfl⟩⟩
    | @unknownEnclosingType part _ _ _ _ _ _ hkey hsite henclosing htype =>
      cases part
      · exact Or.inl (Or.inr ⟨_, rfl, _, _, rfl, _, hkey,
          Or.inr ⟨_, _, _, rfl, hsite, henclosing, htype, rfl⟩⟩)
      · exact Or.inr ⟨_, rfl, _, _, rfl, _, hkey,
          Or.inr ⟨_, _, _, rfl, hsite, henclosing, htype, rfl⟩⟩
  · rintro (((⟨_, rfl, i, _, rfl, rfl, d, hd, ⟨j, hlt, e, he, hid⟩, rfl⟩ |
      ⟨_, rfl, i, d, rfl, hd, id, hc, hissue⟩) | ⟨_, rfl, k, _, rfl, entry, hkey, hissue⟩) |
      ⟨_, rfl, k, _, rfl, entry, hkey, hissue⟩)
    · exact .duplicateId hd hlt he hid
    · rcases hissue with ⟨hid, rfl⟩ | ⟨hid, htype, rfl⟩
      · exact .unknownContainer hd hc hid
      · exact .containerIsNoType hd hc hid htype
    all_goals
      rcases hissue with ⟨rfl, hid, rfl⟩ | ⟨j, site, typeId, rfl, hsite, henclosing, htype, rfl⟩
      · exact .unknownDeclaration hkey hid
      · exact .unknownEnclosingType hkey hsite henclosing htype

/-- Ids are unique, and every reference leads to what it should. -/
structure ReferencesResolve (c : Codebase) : Prop where
  uniqueIds : c.graph.UniqueIds
  containers : ∀ d ∈ c.graph.declarations, ∀ id, d.containerId = some id → c.graph.HasType id
  usages : ∀ part, ∀ entry ∈ c.usages.entries part, entry.1 ∈ c.graph.ids
  enclosingTypes : ∀ part, ∀ entry ∈ c.usages.entries part, ∀ site ∈ entry.2, ∀ id,
    site.enclosingTypeId = some id → c.graph.HasType id

theorem uniqueIds_iff : c.graph.UniqueIds ↔ ∀ (i : Nat) (d : Declaration) (j : Nat) (e : Declaration),
    c.graph.declarations[i]? = some d → j < i → c.graph.declarations[j]? = some e → e.id ≠ d.id := by
  rw [Graph.UniqueIds, Graph.ids, List.Nodup, List.pairwise_map, List.pairwise_iff_getElem]
  constructor
  · intro h i d j e hd hlt he
    obtain ⟨hi, rfl⟩ := List.getElem?_eq_some_iff.mp hd
    obtain ⟨hj, rfl⟩ := List.getElem?_eq_some_iff.mp he
    exact h j i hj hi hlt
  · intro h j i hj hi hlt
    exact h i _ j _ (List.getElem?_eq_getElem hi) hlt (List.getElem?_eq_getElem hj)

/-- References resolve if and only if nothing is wrong with them. -/
theorem referencesResolve_iff : c.ReferencesResolve ↔ ∀ place issue, ¬ c.Violation place issue := by
  constructor
  · intro h place issue hv
    cases hv with
    | duplicateId hd hlt he hid => exact uniqueIds_iff.mp h.uniqueIds _ _ _ _ hd hlt he hid
    | unknownContainer hd hc hid =>
      obtain ⟨container, hf, -⟩ := h.containers _ (List.mem_of_getElem? hd) _ hc
      rw [Graph.find?_eq_none_iff.mpr hid] at hf
      cases hf
    | containerIsNoType hd hc _ htype => exact htype (h.containers _ (List.mem_of_getElem? hd) _ hc)
    | unknownDeclaration hkey hid => exact hid (h.usages _ _ (List.mem_of_getElem? hkey))
    | unknownEnclosingType hkey hsite henclosing htype =>
      exact htype (h.enclosingTypes _ _ (List.mem_of_getElem? hkey) _ (List.mem_of_getElem? hsite) _
        henclosing)
  · intro h
    refine ⟨uniqueIds_iff.mpr fun i d j e hd hlt he hid => h _ _ (.duplicateId hd hlt he hid), ?_, ?_, ?_⟩
    · intro d hd id hc
      obtain ⟨i, hd⟩ := List.mem_iff_getElem?.mp hd
      by_contra htype
      by_cases hid : id ∈ c.graph.ids
      · exact h _ _ (.containerIsNoType hd hc hid htype)
      · exact h _ _ (.unknownContainer hd hc hid)
    · intro part entry hentry
      obtain ⟨k, hkey⟩ := List.mem_iff_getElem?.mp hentry
      by_contra hid
      exact h _ _ (.unknownDeclaration hkey hid)
    · intro part entry hentry site hsite id henclosing
      obtain ⟨k, hkey⟩ := List.mem_iff_getElem?.mp hentry
      obtain ⟨j, hsite⟩ := List.mem_iff_getElem?.mp hsite
      by_contra htype
      exact h _ _ (.unknownEnclosingType hkey hsite henclosing htype)

theorem referenceIssues_eq_nil_iff : c.referenceIssues = [] ↔ c.ReferencesResolve :=
  c.enumerates_referenceIssues.eq_nil_iff.trans referencesResolve_iff.symm

end Codebase

/-! ## Containment -/

namespace Graph

variable {g : Graph}

theorem nodup_of_firstRepeat {seen l : List String} (h : firstRepeat seen l = none) :
    l.Nodup ∧ ∀ x ∈ l, x ∉ seen := by
  induction l generalizing seen with
  | nil => exact ⟨List.nodup_nil, fun _ h => absurd h List.not_mem_nil⟩
  | cons x rest ih =>
    rw [firstRepeat] at h
    split at h
    · cases h
    · next hx =>
      obtain ⟨hnodup, hfresh⟩ := ih h
      refine ⟨List.nodup_cons.mpr ⟨fun hmem => hfresh x hmem List.mem_cons_self, hnodup⟩, ?_⟩
      intro y hy
      rcases List.mem_cons.mp hy with rfl | hy
      · exact fun hmem => hx (List.contains_iff_mem.mpr hmem)
      · exact fun hmem => hfresh y hy (List.mem_cons_of_mem _ hmem)

theorem of_firstRepeat_cons {seen rest : List String} {x y : String}
    (h : firstRepeat seen (x :: rest) = some y) :
    y = x ∧ x ∈ seen ∨ firstRepeat (x :: seen) rest = some y := by
  rw [firstRepeat] at h
  split at h
  · next hx => exact Or.inl ⟨(Option.some.inj h).symm, List.contains_iff_mem.mp hx⟩
  · exact Or.inr h

theorem of_firstRepeat_singleton {seen : List String} {x y : String}
    (h : firstRepeat seen [x] = some y) : y = x ∧ x ∈ seen :=
  (of_firstRepeat_cons h).resolve_right nofun

theorem of_firstRepeat_chainFrom {seen : List String} {n : Nat} {id entry : String}
    (h : firstRepeat seen (g.chainFrom n id) = some entry) :
    Encloses g entry id ∧ (entry ∈ seen ∨ g.Contains entry entry) := by
  induction n generalizing seen id with
  | zero =>
    obtain ⟨rfl, hid⟩ := of_firstRepeat_singleton h
    exact ⟨.refl _, Or.inl hid⟩
  | succ n ih =>
    cases hc : g.containerOf? id with
    | none =>
      rw [chainFrom_of_containerOf?_eq_none hc] at h
      obtain ⟨rfl, hid⟩ := of_firstRepeat_singleton h
      exact ⟨.refl _, Or.inl hid⟩
    | some container =>
      rw [chainFrom_succ_of_container hc] at h
      rcases of_firstRepeat_cons h with ⟨rfl, hid⟩ | h
      · exact ⟨.refl _, Or.inl hid⟩
      · obtain ⟨hencloses, hentry⟩ := ih h
        refine ⟨.step hc hencloses, ?_⟩
        rcases hentry with hentry | hentry
        · rcases List.mem_cons.mp hentry with rfl | hseen
          · exact Or.inr ⟨container, hc, hencloses⟩
          · exact Or.inl hseen
        · exact Or.inr hentry

/-- Where a chain of containers enters a cycle there is a type that contains itself. -/
theorem of_cycleEntry? {id entry : String} (h : g.cycleEntry? id = some entry) :
    Encloses g entry id ∧ g.Contains entry entry := by
  obtain ⟨hencloses, hentry⟩ := of_firstRepeat_chainFrom h
  exact ⟨hencloses, hentry.resolve_left List.not_mem_nil⟩

/-- What is in an outermost type is on no cycle of containers. -/
theorem IsOutermost.not_contains_self {root id : String} (h : g.IsOutermost root id) :
    ¬ g.Contains id id := by
  obtain ⟨hencloses, hroot⟩ := h
  induction hencloses with
  | refl =>
    rintro ⟨container, hc, -⟩
    rw [hroot] at hc
    cases hc
  | step hc _ ih => exact fun hself => ih (hself.of_container hc)

/-- Nor is anything that is around it. -/
theorem IsOutermost.not_contains_self_of_encloses {root id outer : String} (h : g.IsOutermost root id)
    (he : Encloses g outer id) : ¬ g.Contains outer outer := by
  -- the outermost type and the other one are around one id, so they are on one line
  rcases h.1.linear he with hroot | hroot
  · exact not_contains_self ⟨hroot, h.2⟩
  · rw [hroot.eq_of_containerOf?_eq_none h.2]
    exact not_contains_self ⟨.refl root, h.2⟩

/-- A chain of containers enters no cycle if and only if there is an outermost type. -/
theorem cycleEntry?_eq_none_iff {id : String} :
    g.cycleEntry? id = none ↔ ∃ root, g.IsOutermost root id := by
  constructor
  · intro h
    exact exists_isOutermost_of_hasOutermost (hasOutermost_of_nodup (nodup_of_firstRepeat h).1)
  · rintro ⟨root, hroot⟩
    cases h : g.cycleEntry? id with
    | none => rfl
    | some entry =>
      obtain ⟨hencloses, hself⟩ := of_cycleEntry? h
      exact absurd hself (hroot.not_contains_self_of_encloses hencloses)

/-- Containment has no cycle if and only if every declaration has an outermost type. -/
theorem acyclic_iff : g.Acyclic ↔ ∀ d ∈ g.declarations, ∃ root, g.IsOutermost root d.id := by
  constructor
  · exact fun h d _ => exists_isOutermost h d.id
  · intro h id hself
    have ⟨_, hc, _⟩ := hself
    obtain ⟨d, hd, rfl⟩ := List.mem_map.mp (mem_ids_of_containerOf? hc)
    obtain ⟨root, hroot⟩ := h d hd
    exact hroot.not_contains_self hself

end Graph

namespace Codebase

variable {c : Codebase}

/-- A declaration has no outermost type. -/
inductive Endless (c : Codebase) : List Nat → String → Prop where
  | intro {i : Nat} {d : Declaration} (hd : c.graph.declarations[i]? = some d)
      (hroot : ∀ root, ¬ c.graph.IsOutermost root d.id) : Endless c [i] d.id

/-- The check of containment lists every declaration without an outermost type once, in document order. -/
theorem enumerates_containmentIssues (c : Codebase) :
    Enumerates c.Endless (c.containmentIssues.map (·.id)) := by
  rw [containmentIssues, List.map_filterMap]
  refine (Enumerates.filterMap _ _).congr fun place id => ?_
  have hentry (d : Declaration) : (∃ entry, c.graph.cycleEntry? d.id = some entry) ↔
      ∀ root, ¬ c.graph.IsOutermost root d.id := by
    rw [← Option.ne_none_iff_exists', ne_eq, Graph.cycleEntry?_eq_none_iff, not_exists]
  constructor
  · rintro ⟨hd, hroot⟩
    obtain ⟨entry, he⟩ := (hentry _).mpr hroot
    exact ⟨_, _, rfl, hd, by simp [he]⟩
  · rintro ⟨i, d, rfl, hd, hid⟩
    simp only [Option.map_map, Option.map_eq_some_iff, Function.comp] at hid
    obtain ⟨entry, he, rfl⟩ := hid
    exact .intro hd ((hentry d).mp ⟨entry, he⟩)

theorem containmentIssues_eq_nil_iff : c.containmentIssues = [] ↔ c.graph.Acyclic := by
  rw [← List.map_eq_nil_iff, c.enumerates_containmentIssues.eq_nil_iff, Graph.acyclic_iff]
  constructor
  · intro h d hd
    obtain ⟨i, hd⟩ := List.mem_iff_getElem?.mp hd
    by_contra hroot
    exact h _ _ (.intro hd (not_exists.mp hroot))
  · rintro h _ _ ⟨hd, hroot⟩
    obtain ⟨root, hr⟩ := h _ (List.mem_of_getElem? hd)
    exact hroot root hr

/-- Each issue names a type that contains itself and is around the declaration. -/
theorem contains_self_of_mem_containmentIssues {issue : CycleIssue} (h : issue ∈ c.containmentIssues) :
    Graph.Encloses c.graph issue.entry issue.id ∧ c.graph.Contains issue.entry issue.entry := by
  obtain ⟨d, -, hissue⟩ := List.mem_filterMap.mp h
  obtain ⟨entry, he, rfl⟩ := Option.map_eq_some_iff.mp hissue
  exact Graph.of_cycleEntry? he

end Codebase

end LeastAccess
