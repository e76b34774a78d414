import LeastAccess.Proofs.Schema.Fields

/-!
# Validating twice

What a schema makes of a document is a document that the schema reads as it stands: the defaults are filled
in, what is not known is gone, and the keys of a record are in the order of a walk. This takes that no object
names a field twice, since the later one of two members with the same name would be found in place of both.

* `Schema.settles` — what is read is read again as the same document
-/

namespace LeastAccess

/-! ## Schemas without a repeated field -/

mutual

/-- No two fields of one object have the same name, and none has the name of a tag. -/
def Schema.isRegular : Schema → Bool
  | .nullable inner | .list inner | .record inner | .refined inner _ => inner.isRegular
  | .object fields => decide fields.names.Nodup && fields.areRegular
  | .tagged tag variants => variants.areRegular tag
  | _ => true

def Fields.areRegular : Fields → Bool
  | .none => true
  | .required _ schema rest | .optional _ schema rest | .defaulted _ _ schema rest =>
    schema.isRegular && rest.areRegular

def Variants.areRegular (tag : String) : Variants → Bool
  | .none => true
  | .variant _ fields rest =>
    decide (tag :: fields.names).Nodup && fields.areRegular && rest.areRegular tag

end

/-! ## Reading again -/

/-- What a schema reads, it reads again as it stands. -/
def Schema.Settles (s : Schema) : Prop := ∀ (v : Option Json) (w : Json), s.Reads v w → s.Reads (some w) w

/-- So does a field, and what was absent stays absent. -/
theorem Schema.Settles.again {field : Field} (hschema : field.schema.Settles) {v w : Option Json}
    (h : field.Reads v w) : field.Reads w w := by
  cases h with
  | required h => exact .required (hschema _ _ h)
  | optional h => exact .optional (hschema _ _ h)
  | absent => exact .absent
  | defaulted h => exact .defaulted (hschema _ _ h)

/-- Fields read again what they have read, also among further members with other names. -/
theorem Fields.Read.again {fields : Fields} {members all : Members Json} {ms : List (String × Json)}
    (hnames : fields.names.Nodup) (hschemas : ∀ field ∈ fields.toList, field.2.schema.Settles)
    (h : fields.Read members ms)
    (hagree : ∀ name ∈ fields.names, Members.get? all name = Members.get? ms name) :
    fields.Read all ms := by
  rw [read_iff_get? hnames] at h ⊢
  refine ⟨fun field hfield => ?_, h.2⟩
  rw [hagree field.1 (List.mem_map_of_mem hfield)]
  exact (hschemas field hfield).again (h.1 field hfield)

namespace Schema.Settles

theorem nullable {inner : Schema} (h : inner.Settles) : (Schema.nullable inner).Settles := by
  intro v w hw
  rw [Reads] at hw ⊢
  rcases hw with ⟨-, rfl⟩ | ⟨-, hw⟩
  · exact Or.inl ⟨rfl, rfl⟩
  · by_cases hnull : w = .null
    · exact Or.inl ⟨congrArg some hnull, hnull⟩
    · exact Or.inr ⟨fun heq => hnull (Option.some.inj heq), h v w hw⟩

theorem list {item : Schema} (h : item.Settles) : (Schema.list item).Settles := by
  intro v w hw
  rw [Reads] at hw ⊢
  obtain ⟨items, ws, -, rfl, hitems⟩ := hw
  exact ⟨ws, ws, rfl, rfl, List.forall₂_same.mpr (forall_mem_of_forall₂ hitems fun x => h (some x))⟩

/-- A record keeps its keys in the order of a walk, and the reserved key is gone. -/
theorem record {item : Schema} (h : item.Settles) : (Schema.record item).Settles := by
  intro v w hw
  rw [Reads] at hw ⊢
  obtain ⟨members, ms, -, rfl, hms⟩ := hw
  have hkeys : (ms.filter (·.1 != reservedKey)).map Prod.fst |>.Sublist
      ((Members.inKeyOrder members).map Prod.fst) :=
    Members.map_fst_eq hms ▸ List.filter_sublist.map Prod.fst
  have hitems : ∀ m ∈ ms, item.Reads (some m.2) m.2 :=
    forall_mem_of_forall₂ hms fun _ m hm => h _ m.2 hm.2
  refine ⟨_, ms.filter (·.1 != reservedKey), rfl, ?_, ?_⟩
  · rw [List.filter_filter]
    simp
  · rw [Members.inKeyOrder_of_sublist hkeys]
    exact List.forall₂_same.mpr fun m hm => ⟨rfl, hitems m (List.mem_of_mem_filter hm)⟩

theorem object {fields : Fields} (hnames : fields.names.Nodup)
    (h : ∀ field ∈ fields.toList, field.2.schema.Settles) : (Schema.object fields).Settles := by
  intro v w hw
  rw [Reads] at hw ⊢
  obtain ⟨members, ms, -, rfl, hread⟩ := hw
  exact ⟨ms, ms, rfl, rfl, hread.again hnames h fun _ _ => rfl⟩

/-- The variant that was chosen is chosen again, as no field replaces the tag. -/
theorem tagged {tag : String} {variants : Variants}
    (h : ∀ s members ms, variants.Read s members ms →
      Members.get? ms tag = none ∧ variants.Read s ((tag, .text s) :: ms) ms) :
    (Schema.tagged tag variants).Settles := by
  intro v w hw
  rw [Reads] at hw ⊢
  obtain ⟨members, -, s, -, ms, rfl, hread⟩ := hw
  obtain ⟨hms, hread⟩ := h s members ms hread
  refine ⟨_, rfl, s, ?_, ms, rfl, hread⟩
  rw [Members.get?_cons, hms, if_pos rfl, Option.none_or]

theorem refined {inner : Schema} {rule : Refinement} (h : inner.Settles) :
    (Schema.refined inner rule).Settles := by
  intro v w hw
  rw [Reads] at hw ⊢
  exact ⟨h v w hw.1, hw.2⟩

end Schema.Settles

mutual

/-- **What a schema makes of a document, it reads again as the same document.** -/
theorem Schema.settles : ∀ s : Schema, s.isRegular = true → s.Settles
  | .text _, _ => fun v w hw => by
    rw [Schema.Reads] at hw ⊢
    obtain ⟨s, -, rfl, hs⟩ := hw
    exact ⟨s, rfl, rfl, hs⟩
  | .flag, _ => fun v w hw => by
    rw [Schema.Reads] at hw ⊢
    obtain ⟨b, -, rfl⟩ := hw
    exact ⟨b, rfl, rfl⟩
  | .whole _, _ => fun v w hw => by
    rw [Schema.Reads] at hw ⊢
    obtain ⟨x, -, rfl, hx⟩ := hw
    exact ⟨x, rfl, rfl, hx⟩
  | .word _, _ => fun v w hw => by
    rw [Schema.Reads] at hw ⊢
    obtain ⟨s, hs, -, rfl⟩ := hw
    exact ⟨s, hs, rfl, rfl⟩
  | .one, _ => fun v w hw => by
    rw [Schema.Reads] at hw ⊢
    exact ⟨congrArg some hw.2, hw.2⟩
  | .nullable inner, h => (Schema.settles inner h).nullable
  | .list item, h => (Schema.settles item h).list
  | .record item, h => (Schema.settles item h).record
  | .object fields, h => by
    rw [Schema.isRegular, Bool.and_eq_true, decide_eq_true_eq] at h
    exact .object h.1 (Fields.settles fields h.2)
  | .tagged tag variants, h => .tagged (Variants.settles tag variants h)
  | .refined inner _, h => (Schema.settles inner h).refined

theorem Fields.settles : ∀ fields : Fields, fields.areRegular = true →
    ∀ field ∈ fields.toList, field.2.schema.Settles
  | .none, _ => fun _ h => absurd h List.not_mem_nil
  | .required name schema rest, h => by
    rw [Fields.areRegular, Bool.and_eq_true] at h
    exact List.forall_mem_cons.mpr ⟨Schema.settles schema h.1, Fields.settles rest h.2⟩
  | .optional name schema rest, h => by
    rw [Fields.areRegular, Bool.and_eq_true] at h
    exact List.forall_mem_cons.mpr ⟨Schema.settles schema h.1, Fields.settles rest h.2⟩
  | .defaulted name value schema rest, h => by
    rw [Fields.areRegular, Bool.and_eq_true] at h
    exact List.forall_mem_cons.mpr ⟨Schema.settles schema h.1, Fields.settles rest h.2⟩

theorem Variants.settles (tag : String) : ∀ variants : Variants, variants.areRegular tag = true →
    ∀ s members ms, variants.Read s members ms →
      Members.get? ms tag = none ∧ variants.Read s ((tag, .text s) :: ms) ms
  | .none, _, _, _, _, hread => by
    rw [Variants.Read] at hread
    exact hread.elim
  | .variant name fields rest, h, s, members, ms, hread => by
    rw [Variants.areRegular, Bool.and_eq_true, Bool.and_eq_true, decide_eq_true_eq] at h
    obtain ⟨⟨htag, hfields⟩, hrest⟩ := h
    obtain ⟨htag, hnames⟩ := List.nodup_cons.mp htag
    rw [Variants.Read] at hread ⊢
    split at hread
    · next hs =>
      have hagree : ∀ name ∈ fields.names, Members.get? ((tag, .text s) :: ms) name = Members.get? ms name := by
        intro name hname
        have hne : tag ≠ name := fun heq => htag (heq ▸ hname)
        rw [Members.get?_cons, if_neg hne, Option.or_none]
      rw [if_pos hs]
      exact ⟨Fields.get?_eq_none_of_read hnames hread htag,
        hread.again hnames (Fields.settles fields hfields) hagree⟩
    · next hs =>
      rw [if_neg hs]
      exact Variants.settles tag rest hrest s members ms hread

end

end LeastAccess
