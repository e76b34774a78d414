import LeastAccess.Proofs.Reordering.Graph
import LeastAccess.Proofs.Reordering.Reading
import LeastAccess.Proofs.Snapshot.Refusals

/-!
# Snapshots in another order

A snapshot may list its declarations, the annotations and super types of each of them, the keys of its
usages and the sites under each key in any order. What is read from it is the same codebase in the other
order, and it is accepted in every order or in none.

* `codebase_reordered` — what a document in another order describes
* `parse_reordered` — what was accepted is accepted in every order
-/

namespace LeastAccess

namespace Snapshot

/-! ## Documents -/

/-- What may change under a key of a declaration: the order of its annotations and of its super types. -/
def DeclarationPart (key : String) : Json → Json → Prop :=
  if key = "annotations" ∨ key = "superTypeIds" then Json.Itemwise (· = ·) else (· = ·)

/-- The same usage sites under every key, in some other order. -/
def UsagesReordered : Json → Json → Prop := Json.Keywise fun _ => Json.Itemwise (· = ·)

/-- What may change under a key of a snapshot: the order of its declarations and of its usages. -/
def Part (key : String) : Json → Json → Prop :=
  if key = "declarations" then Json.Itemwise (Json.Keywise DeclarationPart)
  else if key = "usages" ∨ key = "functionalUsages" then UsagesReordered
  else (· = ·)

/-- One snapshot, in some other order. -/
def Reordered : Json → Json → Prop := Json.Keywise Part

theorem declarationPart_refl (key : String) (v : Json) : DeclarationPart key v v := by
  unfold DeclarationPart
  split
  · exact .same v
  · rfl

theorem part_refl (key : String) (v : Json) : Part key v v := by
  unfold Part
  split
  · exact .same v
  · split
    · exact .same v
    · rfl

/-- Whatever else a declaration says is the same in both orders. -/
theorem get?_eq_of_keywise {v v' : Json} (h : Json.Keywise DeclarationPart v v') {key : String}
    (hkey : ¬ (key = "annotations" ∨ key = "superTypeIds")) : v.get? key = v'.get? key := by
  have hrel := h.get? declarationPart_refl key
  rw [DeclarationPart, if_neg hkey] at hrel
  rcases rel_cases hrel with ⟨hv, hv'⟩ | ⟨w, w', hv, hv', rfl⟩
  · rw [hv, hv']
  · rw [hv, hv']

/-! ## What is read -/

theorem preserves_texts : (Schema.list (.text false)).Preserves (Json.Itemwise (· = ·)) :=
  (Schema.preserves_eq _).list

theorem preserves_declaration : Format.declaration.Preserves (Json.Keywise DeclarationPart) := by
  refine .refined (.object declarationPart_refl ?_) fun w w' hr hkind => ?_
  · simp [DeclarationPart, Format.declarationFields, Fields.flag, Format.nullable, Format.textList, Fields.All,
      Schema.preserves_eq, preserves_texts]
  · -- the refinement looks at two keys whose values are the same
    have hkind' : w.get? "kind" = w'.get? "kind" := get?_eq_of_keywise hr (by decide)
    have htypeKind : w.get? "typeKind" = w'.get? "typeKind" := get?_eq_of_keywise hr (by decide)
    simp only [Format.typeHasKind, Json.textAt?, hkind', htypeKind] at hkind ⊢
    exact hkind

theorem preserves_usages : Format.usages.Preserves UsagesReordered :=
  (Schema.preserves_eq _).list.record

/-- What a snapshot is read as in one order, it is read as in the other one, up to order. -/
theorem preserves_snapshot : Format.snapshot.Preserves Reordered := by
  refine .object part_refl ?_
  simp [Part, Fields.All, Schema.preserves_eq, preserves_declaration.list, preserves_usages]

/-! ## What is described -/

theorem texts_perm {v v' : Json} (h : Json.Itemwise (· = ·) v v') : v.texts.Perm v'.texts :=
  (h.items fun _ => rfl).perm.filterMap _

theorem declaration_reordered {v v' : Json} (h : Json.Keywise DeclarationPart v v') :
    (Declaration.ofDocument v).Reordered (Declaration.ofDocument v') := by
  have htexts {key : String} (hkey : key = "annotations" ∨ key = "superTypeIds") :
      (v.memberAt key).texts.Perm (v'.memberAt key).texts := by
    have hrel := h.memberAt declarationPart_refl key
    rw [DeclarationPart, if_pos hkey] at hrel
    exact texts_perm hrel
  have hdocument : Declaration.ofDocument v' =
      { Declaration.ofDocument v with
        annotations := (v'.memberAt "annotations").texts
        superTypeIds := (v'.memberAt "superTypeIds").texts } := by
    have hget {key : String} (hkey : ¬ (key = "annotations" ∨ key = "superTypeIds")) :
        v'.get? key = v.get? key := (get?_eq_of_keywise h hkey).symm
    simp (disch := decide) only [Declaration.ofDocument, Json.textAt, Json.textAt?, Json.flagAt,
      Json.flagAt?, Json.memberAt, hget]
    rfl
  rw [hdocument]
  exact ⟨htexts (Or.inl rfl), htexts (Or.inr rfl)⟩

theorem nodup_sitesOfDocument (v : Json) : ((Codebase.sitesOfDocument v).map Prod.fst).Nodup := by
  rw [Codebase.sitesOfDocument, List.map_map]
  exact Members.nodup_inKeyOrder v.members

/-- Looking up an id finds the sites under its key. -/
theorem lookup_sitesOfDocument (v : Json) (id : String) : (Codebase.sitesOfDocument v).lookup id =
    (v.get? id).map fun sites => sites.items.map UsageSite.ofDocument := by
  have hget : v.get? id = Members.get? v.members id := by
    cases v <;> rfl
  let sitesOf (sites : Json) : List UsageSite := sites.items.map UsageSite.ofDocument
  calc (Codebase.sitesOfDocument v).lookup id
    _ = Members.get? (Codebase.sitesOfDocument v) id := Members.lookup_eq_get? (nodup_sitesOfDocument v) id
    _ = (Members.get? (Members.inKeyOrder v.members) id).map sitesOf := Members.get?_map sitesOf _ id
    _ = (v.get? id).map sitesOf := by rw [Members.get?_inKeyOrder, hget]

theorem usages_reordered {v v' : Json} (h : UsagesReordered v v') (id : String) :
    Option.Rel List.Perm ((Codebase.sitesOfDocument v).lookup id) ((Codebase.sitesOfDocument v').lookup id) := by
  rw [lookup_sitesOfDocument, lookup_sitesOfDocument]
  rcases rel_cases (h.get? (fun _ v => .same v) id) with ⟨hv, hv'⟩ | ⟨w, w', hv, hv', hr⟩
  · rw [hv, hv']
    exact .none
  · rw [hv, hv']
    exact .some ((hr.items fun _ => rfl).perm.map _)

/-- A document in another order describes the codebase in another order. -/
theorem codebase_reordered {v v' : Json} (h : Reordered v v') :
    (Codebase.ofDocument v).Reordered (Codebase.ofDocument v') := by
  have hmember := h.memberAt part_refl
  constructor
  · exact ((hmember "declarations").items .same).map fun _ _ => declaration_reordered
  · intro part id
    cases part with
    | ordinary => exact usages_reordered (hmember "usages") id
    | functional => exact usages_reordered (hmember "functionalUsages") id

/-- **What was accepted is accepted in every order.** -/
theorem parse_reordered {v v' : Json} (h : Reordered v v') {c : Codebase} (accepted : parse (some v) = .ok c) :
    ∃ c', parse (some v') = .ok c' ∧ c.Reordered c' := by
  obtain ⟨w, hread, rfl, hreferences, hacyclic⟩ := parse_eq_ok_iff.mp accepted
  obtain ⟨w', hread', hw⟩ := preserves_snapshot v v' w h hread
  have hr := codebase_reordered hw
  have hkeys (w : Json) (part : UsageSection) :
      (((Codebase.ofDocument w).usages.entries part).map Prod.fst).Nodup := by
    cases part with
    | ordinary => exact nodup_sitesOfDocument _
    | functional => exact nodup_sitesOfDocument _
  refine ⟨_, parse_eq_ok_iff.mpr ⟨w', hread', rfl, ?_, ?_⟩, hr⟩
  · exact hr.referencesResolve hreferences (hkeys w) (hkeys w')
  · exact hr.graph.acyclic hreferences.uniqueIds hacyclic

end Snapshot

end LeastAccess
