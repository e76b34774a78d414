import LeastAccess.Graph.Register
import LeastAccess.Proofs.Reordering.Snapshot
import LeastAccess.Proofs.Snapshot.Description
import LeastAccess.Proofs.UsageIndex.Readers

/-!
# What is loaded from a snapshot

Loading loses nothing of a snapshot and duplicates nothing. Every declaration and every usage site that is
loaded is described by one item of the document, in the order of the document, and is found where it is
looked for.

* `loading_keeps_everything` — the declarations, look-ups, members and usages of an accepted snapshot
-/

namespace LeastAccess

namespace Snapshot

/-! ## Declarations -/

/-- The declarations of a snapshot are described one by one by the items of its list. -/
theorem describes_declarations {v w : Json} (h : Format.snapshot.Reads (some v) w) :
    ∃ items, v.get? "declarations" = some (.list items) ∧
      List.Forall₂ Declaration.Describes items (Codebase.ofDocument w).graph.declarations := by
  obtain ⟨u, hw, hu⟩ : ∃ u, w.get? "declarations" = some u ∧
      (Schema.list Format.declaration).Reads (v.get? "declarations") u :=
    (Schema.reads_get? h (by decide) rfl).of_required
  rw [Schema.Reads] at hu
  obtain ⟨items, ws, hv, rfl, hitems⟩ := hu
  have hloaded : (Codebase.ofDocument w).graph.declarations = ws.map Declaration.ofDocument := by
    rw [Codebase.ofDocument, Json.memberAt, hw]
    rfl
  refine ⟨items, hv, ?_⟩
  rw [hloaded, List.forall₂_map_right_iff]
  exact hitems.imp fun _ _ => Declaration.describes_ofDocument

/-! ## Usages -/

/-- A section of a snapshot lists some usage sites under an id, or none if the id is no key of it. -/
def Lists (v : Json) (id : String) (sites : List UsageSite) : Prop :=
  (v.get? id = none ∧ sites = []) ∨
    ∃ items, v.get? id = some (.list items) ∧ List.Forall₂ UsageSite.Describes items sites

theorem lists_of_reads {v w : Json} (h : Format.usages.Reads (some v) w) {id : String} (hid : id ≠ reservedKey) :
    Lists v id (((Codebase.sitesOfDocument w).lookup id).getD []) := by
  rw [lookup_sitesOfDocument]
  rw [Format.usages, Schema.Reads] at h
  obtain ⟨members, ms, hv, rfl, hms⟩ := h
  cases hv
  have hkept : (Json.object (ms.filter (·.1 != reservedKey))).get? id = Members.get? ms id :=
    (Members.get?_filter_ne ms reservedKey id).trans (if_neg hid)
  rw [hkept]
  rcases rel_cases (Schema.rel_reads hms id) with ⟨hgiven, hread⟩ | ⟨u, u', hgiven, hread, hu⟩
  · exact Or.inl ⟨hgiven, by rw [hread]; rfl⟩
  · rw [Schema.Reads] at hu
    obtain ⟨items, ws, hitems, rfl, hsites⟩ := hu
    cases hitems
    refine Or.inr ⟨items, hgiven, ?_⟩
    rw [hread]
    exact List.forall₂_map_right_iff.mpr (hsites.imp fun _ _ => UsageSite.describes_ofDocument)

/-- A section lists under an id the sites that are stored for it, except under the key that no record keeps. -/
theorem lists_sites {v w : Json} (h : Format.snapshot.Reads (some v) w) (part : UsageSection) {id : String}
    (hid : id ≠ reservedKey) :
    Lists (v.valueAt part.key (.object [])) id ((Codebase.ofDocument w).usages.sites part id) := by
  cases part with
  | ordinary => exact lists_of_reads (Schema.reads_get? h (by decide) rfl).memberAt hid
  | functional => exact lists_of_reads (Schema.reads_get? h (by decide) rfl).memberAt hid

end Snapshot

/-! ## Members -/

/-- Where ids are unique, a declaration is once among the members of the type around it, and nowhere else. -/
theorem Graph.UniqueIds.count_membersOf {g : Graph} (hu : g.UniqueIds) {d : Declaration}
    (hd : d ∈ g.declarations) (id : String) :
    (g.membersOf id).count d = if d.containerId = some id then 1 else 0 := by
  have honce : g.declarations.count d = 1 := List.count_eq_one_of_mem (List.Nodup.of_map _ hu) hd
  split
  · next hcontainer => rw [membersOf, List.count_filter (by simp [hcontainer]), honce]
  · next hcontainer => exact List.count_eq_zero.mpr fun hmem => hcontainer (by simpa [membersOf, hd] using hmem)

/-! ## The whole -/

/-- **Loading loses nothing and duplicates nothing.** The declarations are described one by one by the items of
the document's list. An id is looked up as the one declaration with this id. The members of a type are in
document order, and a declaration is once among those of the type around it and nowhere else. And whoever reads
the usages of an id without being cancelled is handed out, one after the other, the sites that the document
lists under it. -/
theorem loading_keeps_everything {v : Json} {c : Codebase} (h : Snapshot.parse (some v) = .ok c) :
    (∃ items, v.get? "declarations" = some (.list items) ∧
      List.Forall₂ Declaration.Describes items c.graph.declarations) ∧
    (∀ id d, c.graph.find? id = some d ↔ d ∈ c.graph.declarations ∧ d.id = id) ∧
    (∀ id, ((Register.ofGraph c.graph).membersOf id).Sublist c.graph.declarations ∧
      ∀ d ∈ c.graph.declarations,
        ((Register.ofGraph c.graph).membersOf id).count d = if d.containerId = some id then 1 else 0) ∧
    (∀ part id, id ≠ reservedKey → ∃ sites,
      Snapshot.Lists (v.valueAt part.key (.object [])) id sites ∧
      ∀ token times, token.isCancelled = false →
        c.usages.firstSites part id token times = sites.take times) := by
  have hunique := (Snapshot.wellFormed_of_parse h).uniqueIds
  obtain ⟨w, hread, rfl, -⟩ := Snapshot.parse_eq_ok_iff.mp h
  refine ⟨Snapshot.describes_declarations hread, fun id d => ?_, fun id => ?_, fun part id hid => ?_⟩
  · constructor
    · exact fun hfind => ⟨Graph.mem_of_find? hfind, Graph.find?_id hfind⟩
    · rintro ⟨hd, rfl⟩
      exact Graph.find?_eq_some_of_mem hunique hd
  · rw [Register.membersOf_ofGraph]
    exact ⟨List.filter_sublist, fun d hd => hunique.count_membersOf hd id⟩
  · exact ⟨_, Snapshot.lists_sites hread part hid, fun token times hlive =>
      UsageIndex.firstSites_eq_take _ part id hlive times⟩

/-! ## A snapshot with a repeated key -/

namespace Sample

/-- A private field in a type. Its key is repeated in the usages; the last one, with a site in a descriptor,
counts. -/
def repeatedKeyDocument : Json := .object
  [("version", .number .one),
    ("declarations", .list
      [entry "T" "T" "type" "public" [("typeKind", .text "class")],
        entry "T.f" "f" "field" "private" [("containerId", .text "T"), ("typeKind", .text "enum")]]),
    ("usages", .object
      [("T.f", usedIn "T" "p" "this"), (reservedKey, .list []),
        ("T.f", .list [.object [("file", .text "beans.xml"), ("origin", .text "descriptor")]])])]

def privateField : Declaration :=
  { declared "T.f" "f" .field "p" with
    containerId := some "T", modifiers := some { access := .priv, isPrivate := true } }

def descriptorCodebase : Codebase where
  graph := ⟨[{ declared "T" "T" .type "p" with typeKind := some .cls }, privateField]⟩
  usages := { ordinary := [("T.f", [{ origin := .descriptor "beans.xml", file := "beans.xml" }])] }

theorem parse_repeatedKeyDocument : Snapshot.parse (some repeatedKeyDocument) = .ok descriptorCodebase :=
  Snapshot.parse_of_toOption (by decide +kernel)

end Sample

/-- The field is loaded once, and the site in the descriptor is the only one that is handed out for it. -/
theorem last_usages_of_repeated_key_are_loaded :
    Snapshot.parse (some Sample.repeatedKeyDocument) = .ok Sample.descriptorCodebase ∧
    (∃ items, Sample.repeatedKeyDocument.get? "declarations" = some (.list items) ∧
      List.Forall₂ Declaration.Describes items Sample.descriptorCodebase.graph.declarations) ∧
    Sample.descriptorCodebase.graph.find? "T.f" = some Sample.privateField ∧
    ((Register.ofGraph Sample.descriptorCodebase.graph).membersOf "T").count Sample.privateField = 1 ∧
    ∃ sites, Snapshot.Lists (Sample.repeatedKeyDocument.valueAt "usages" (.object [])) "T.f" sites ∧
      ∀ times, Sample.descriptorCodebase.usages.firstSites .ordinary "T.f" .live times = sites.take times := by
  obtain ⟨hitems, hfind, hmembers, hsites⟩ := loading_keeps_everything Sample.parse_repeatedKeyDocument
  have hfield : Sample.privateField ∈ Sample.descriptorCodebase.graph.declarations := by decide
  obtain ⟨sites, hlists, hread⟩ := hsites .ordinary "T.f" (by decide)
  exact ⟨Sample.parse_repeatedKeyDocument, hitems, (hfind _ _).mpr ⟨hfield, rfl⟩,
    ((hmembers "T").2 _ hfield).trans (if_pos rfl), sites, hlists, fun times => hread .live times rfl⟩

end LeastAccess
