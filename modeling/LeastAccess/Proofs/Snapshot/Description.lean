import LeastAccess.Proofs.Schema.Fields
import LeastAccess.Snapshot.Loading

/-!
# What a document describes

A declaration, a modifier list or a usage site is described by a document if every part of it is what the
document says under the part's key, or the default where the document says nothing. `Describes` looks at the
document as it was given, not at what the format makes of it, and settles every part.

* `Declaration.describes_ofDocument` — a declaration that the format reads is described by what was given
* `UsageSite.describes_ofDocument` — so is a usage site
* `Declaration.Describes.unique`, `UsageSite.Describes.unique` — no document describes two of them
-/

namespace LeastAccess

/-- What is under a key, or something else if nothing is. -/
def Json.valueAt (v : Json) (key : String) (default : Json) : Json := (v.get? key).getD default

/-! ## Descriptions -/

/-- A document describes modifiers. Where it does not say whether they include private, the access does. -/
structure Modifiers.Describes (v : Json) (m : Modifiers) : Prop where
  access : v.get? "access" = some (.text m.access.name)
  isPrivate : v.valueAt "isPrivate" (.bool (m.access == .priv)) = .bool m.isPrivate
  isNative : v.valueAt "isNative" (.bool false) = .bool m.isNative
  isStatic : v.valueAt "isStatic" (.bool false) = .bool m.isStatic
  isFinal : v.valueAt "isFinal" (.bool false) = .bool m.isFinal
  isAbstract : v.valueAt "isAbstract" (.bool false) = .bool m.isAbstract
  hasInitializer : v.valueAt "hasInitializer" (.bool false) = .bool m.hasInitializer

/-- A document describes a declaration. Only of a type it says what sort of type it is. -/
structure Declaration.Describes (v : Json) (d : Declaration) : Prop where
  id : v.get? "id" = some (.text d.id)
  name : v.get? "name" = some (.text d.name)
  kind : v.get? "kind" = some (.text d.kind.name)
  typeKind : if d.kind = .type
    then ∃ kind, d.typeKind = some kind ∧ v.valueAt "typeKind" .null = .text kind.name
    else d.typeKind = none
  packageName : v.valueAt "package" (.text "") = .text d.packageName
  containerId : v.valueAt "containerId" .null = .textOrNull d.containerId
  modifiers : (d.modifiers = none ∧ v.valueAt "modifiers" .null = .null) ∨
    ∃ m, d.modifiers = some m ∧ Modifiers.Describes (v.valueAt "modifiers" .null) m
  annotations : v.valueAt "annotations" (.list []) = .list (d.annotations.map .text)
  isSynthetic : v.valueAt "isSynthetic" (.bool false) = .bool d.isSynthetic
  isPhysical : v.valueAt "isPhysical" (.bool true) = .bool d.isPhysical
  isConstructor : v.valueAt "isConstructor" (.bool false) = .bool d.isConstructor
  isAnonymous : v.valueAt "isAnonymous" (.bool false) = .bool d.isAnonymous
  isLocal : v.valueAt "isLocal" (.bool false) = .bool d.isLocal
  isTypeParameter : v.valueAt "isTypeParameter" (.bool false) = .bool d.isTypeParameter
  isFunctional : v.valueAt "isFunctional" (.bool false) = .bool d.isFunctional
  superTypeIds : v.valueAt "superTypeIds" (.list []) = .list (d.superTypeIds.map .text)
  hasSuperSignature : v.valueAt "hasSuperSignature" (.bool false) = .bool d.hasSuperSignature
  isOverridden : v.valueAt "isOverridden" (.bool false) = .bool d.isOverridden

/-- A document describes a qualifier; of an expression it may say the type. -/
structure Qualifier.Describes (v : Json) (q : Qualifier) : Prop where
  form : v.get? "form" = some (.text q.name)
  typeId : ∀ typeId, q = .expression typeId → v.valueAt "typeId" .null = .textOrNull typeId

/-- A document describes a usage site. A reference from a descriptor has the file twice. -/
structure UsageSite.Describes (v : Json) (s : UsageSite) : Prop where
  origin : (s.origin = .source ∧ v.valueAt "origin" (.text "source") = .text "source") ∨
    s.origin = .descriptor s.file ∧ v.valueAt "origin" (.text "source") = .text "descriptor"
  file : v.get? "file" = some (.text s.file)
  line : v.valueAt "line" (.number .zero) = .number s.line
  packageName : v.valueAt "package" (.text "") = .text s.packageName
  enclosingTypeId : v.valueAt "enclosingTypeId" .null = .textOrNull s.enclosingTypeId
  qualifier : Qualifier.Describes (v.valueAt "qualifier" (.object [("form", .text "none")])) s.qualifier
  context : v.valueAt "context" (.text "normal") = .text s.context.name
  isConstructorCall : v.valueAt "isConstructorCall" (.bool false) = .bool s.isConstructorCall
  resolved : v.valueAt "resolved" (.bool true) = .bool s.resolved

/-! ## Fields of a document -/

namespace Field.Reads

variable {v w : Json} {key s : String} {value : Json} {schema : Schema} {options : List String} {nonEmpty : Bool}

theorem of_required (h : (Field.required schema).Reads (v.get? key) (w.get? key)) :
    ∃ u, w.get? key = some u ∧ schema.Reads (v.get? key) u := by
  generalize v.get? key = v at h ⊢
  generalize w.get? key = w at h ⊢
  cases h with
  | required h => exact ⟨_, rfl, h⟩

theorem of_defaulted (h : (Field.defaulted value schema).Reads (v.get? key) (w.get? key)) :
    ∃ u, w.get? key = some u ∧ schema.Reads (some (v.valueAt key value)) u := by
  rw [Json.valueAt]
  generalize v.get? key = v at h ⊢
  generalize w.get? key = w at h ⊢
  cases h with
  | defaulted h => exact ⟨_, rfl, h⟩

theorem text (h : (Field.required (.text nonEmpty)).Reads (v.get? key) (w.get? key)) :
    v.get? key = some (.text (w.textAt key)) := by
  obtain ⟨u, hw, hu⟩ := h.of_required
  rw [Schema.Reads] at hu
  obtain ⟨s, hv, rfl, -⟩ := hu
  rw [Json.textAt, hw, hv]

theorem defaultText (h : (Field.defaulted (.text s) (.text nonEmpty)).Reads (v.get? key) (w.get? key)) :
    v.valueAt key (.text s) = .text (w.textAt key) := by
  obtain ⟨u, hw, hu⟩ := h.of_defaulted
  rw [Schema.Reads] at hu
  obtain ⟨s, hv, rfl, -⟩ := hu
  rw [Json.textAt, hw]
  exact Option.some.inj hv

section

variable {α : Type} {all : List α} {name : α → String}

/-- A word is the name of something. -/
theorem word (h : (Field.required (.word (all.map name))).Reads (v.get? key) (w.get? key)) :
    ∃ a, v.get? key = some (.text (name a)) ∧ w.get? key = some (.text (name a)) := by
  obtain ⟨u, hw, hu⟩ := h.of_required
  rw [Schema.Reads] at hu
  obtain ⟨s, hs, hv, rfl⟩ := hu
  obtain ⟨a, -, rfl⟩ := List.mem_map.mp hs
  exact ⟨a, hv, hw⟩

theorem defaultWord (h : (Field.defaulted value (.word (all.map name))).Reads (v.get? key) (w.get? key)) :
    ∃ a, v.valueAt key value = .text (name a) ∧ w.get? key = some (.text (name a)) := by
  obtain ⟨u, hw, hu⟩ := h.of_defaulted
  rw [Schema.Reads] at hu
  obtain ⟨s, hs, hv, rfl⟩ := hu
  obtain ⟨a, -, rfl⟩ := List.mem_map.mp hs
  exact ⟨a, Option.some.inj hv, hw⟩

theorem wordOrNull
    (h : (Field.defaulted .null (.nullable (.word (all.map name)))).Reads (v.get? key) (w.get? key)) :
    (v.valueAt key .null = .null ∧ w.get? key = some .null) ∨
      ∃ a, v.valueAt key .null = .text (name a) ∧ w.get? key = some (.text (name a)) := by
  obtain ⟨u, hw, hu⟩ := h.of_defaulted
  rw [Schema.Reads, Schema.Reads] at hu
  rcases hu with ⟨hv, rfl⟩ | ⟨-, s, hs, hv, rfl⟩
  · exact Or.inl ⟨Option.some.inj hv, hw⟩
  · obtain ⟨a, -, rfl⟩ := List.mem_map.mp hs
    exact Or.inr ⟨a, Option.some.inj hv, hw⟩

end

theorem flag {b : Bool} (h : (Field.defaulted (.bool b) .flag).Reads (v.get? key) (w.get? key)) :
    v.valueAt key (.bool b) = .bool (w.flagAt key) := by
  obtain ⟨u, hw, hu⟩ := h.of_defaulted
  rw [Schema.Reads] at hu
  obtain ⟨b, hv, rfl⟩ := hu
  rw [Json.flagAt, Json.flagAt?, hw]
  exact Option.some.inj hv

theorem number {x : Binary64} {positive : Bool}
    (h : (Field.defaulted (.number x) (.whole positive)).Reads (v.get? key) (w.get? key)) :
    v.valueAt key (.number x) = .number (w.numberAt key) := by
  obtain ⟨u, hw, hu⟩ := h.of_defaulted
  rw [Schema.Reads] at hu
  obtain ⟨x, hv, rfl, -⟩ := hu
  rw [Json.numberAt, hw]
  exact Option.some.inj hv

theorem textOrNull (h : (Field.defaulted .null (.nullable (.text nonEmpty))).Reads (v.get? key) (w.get? key)) :
    v.valueAt key .null = .textOrNull (w.textAt? key) := by
  obtain ⟨u, hw, hu⟩ := h.of_defaulted
  rw [Schema.Reads, Schema.Reads] at hu
  rw [Json.textAt?, hw]
  rcases hu with ⟨hv, rfl⟩ | ⟨-, s, hv, rfl, -⟩
  · exact Option.some.inj hv
  · exact Option.some.inj hv

theorem texts (h : (Field.defaulted (.list []) (.list (.text nonEmpty))).Reads (v.get? key) (w.get? key)) :
    v.valueAt key (.list []) = .list ((w.memberAt key).texts.map .text) := by
  obtain ⟨u, hw, hu⟩ := h.of_defaulted
  rw [Schema.Reads] at hu
  obtain ⟨items, ws, hv, rfl, hitems⟩ := hu
  have hsame : List.Forall₂ (· = ·) items ws := by
    refine hitems.imp fun x w hw => ?_
    rw [Schema.Reads] at hw
    obtain ⟨s, hx, rfl, -⟩ := hw
    exact Option.some.inj hx
  obtain ⟨names, rfl⟩ : ∃ names : List String, ws = names.map .text := by
    refine exists_map_of_forall₂ hitems fun x w hw => ?_
    rw [Schema.Reads] at hw
    obtain ⟨s, -, rfl, -⟩ := hw
    exact ⟨s, rfl⟩
  rw [List.forall₂_eq_eq_eq] at hsame
  rw [Json.memberAt, hw, Option.some.inj hv, Option.getD_some, Json.texts_map_text, hsame]

/-- A flag that may be missing is given or left to what it is for. -/
theorem optionalFlag (h : (Field.optional .flag).Reads (v.get? key) (w.get? key)) (b : Bool) :
    v.valueAt key (.bool b) = .bool ((w.flagAt? key).getD b) := by
  rw [Json.valueAt, Json.flagAt?]
  generalize v.get? key = v at h ⊢
  generalize w.get? key = w at h ⊢
  cases h with
  | absent => rfl
  | optional hu =>
    rw [Schema.Reads] at hu
    obtain ⟨b', hv, rfl⟩ := hu
    rw [hv]
    rfl

/-- A default is read like something that was given. -/
theorem memberAt (h : (Field.defaulted value schema).Reads (v.get? key) (w.get? key)) :
    schema.Reads (some (v.valueAt key value)) (w.memberAt key) := by
  obtain ⟨u, hw, hu⟩ := h.of_defaulted
  rwa [Json.memberAt, hw]

end Field.Reads

/-! ## Modifiers and declarations -/

namespace Modifiers

/-- Modifiers that the format reads are described by what was given. -/
theorem describes_ofDocument {v w : Json} (h : Snapshot.Format.modifiers.Reads (some v) w) :
    Describes v (ofDocument w) := by
  have hread : ∀ {key : String} {field : Field}, _ → field.Reads (v.get? key) (w.get? key) :=
    fun hfield => Schema.reads_get? h (by decide) hfield
  obtain ⟨access, hgiven, hread_access⟩ : ∃ a : Level, v.get? "access" = some (.text a.name) ∧
      w.get? "access" = some (.text a.name) := (hread rfl).word
  have htext : w.textAt "access" = access.name := by rw [Json.textAt, hread_access]
  have haccess : (ofDocument w).access = access := by simp [ofDocument, htext]
  have hprivate : (w.textAt "access" == Level.priv.name) = (access == .priv) := by
    rw [htext]
    cases access <;> decide
  exact
    { access := by rw [haccess, hgiven]
      isPrivate := by
        rw [haccess, ← hprivate]
        exact (hread rfl).optionalFlag _
      isNative := (hread rfl).flag
      isStatic := (hread rfl).flag
      isFinal := (hread rfl).flag
      isAbstract := (hread rfl).flag
      hasInitializer := (hread rfl).flag }

/-- Where modifiers may be null, there are none or they are described by what was given. -/
theorem describes_ofDocument? {v w : Json} (h : (Schema.nullable Snapshot.Format.modifiers).Reads (some v) w) :
    (ofDocument? w = none ∧ v = .null) ∨ ∃ m, ofDocument? w = some m ∧ Describes v m := by
  rw [Schema.Reads] at h
  rcases h with ⟨hv, rfl⟩ | ⟨-, h⟩
  · exact Or.inl ⟨rfl, Option.some.inj hv⟩
  · have hobject := h
    rw [Snapshot.Format.modifiers, Schema.Reads] at hobject
    obtain ⟨_, ms, -, rfl, -⟩ := hobject
    exact Or.inr ⟨ofDocument (.object ms), rfl, describes_ofDocument h⟩

end Modifiers

namespace Declaration

/-- A declaration that the format reads is described by what was given. -/
theorem describes_ofDocument {v w : Json} (h : Snapshot.Format.declaration.Reads (some v) w) :
    Describes v (ofDocument w) := by
  rw [Snapshot.Format.declaration, Schema.Reads] at h
  obtain ⟨h, hrule⟩ := h
  have hread : ∀ {key : String} {field : Field}, _ → field.Reads (v.get? key) (w.get? key) :=
    fun hfield => Schema.reads_get? h (by decide) hfield
  obtain ⟨kind, hgiven, hread_kind⟩ : ∃ k : DeclarationKind, v.get? "kind" = some (.text k.name) ∧
      w.get? "kind" = some (.text k.name) := (hread rfl).word
  have hkind : (ofDocument w).kind = kind := by simp [ofDocument, Json.textAt, hread_kind]
  have htypeKind : if kind = .type
      then ∃ sort, (ofDocument w).typeKind = some sort ∧ v.valueAt "typeKind" .null = .text sort.name
      else (ofDocument w).typeKind = none := by
    have hsort : (v.valueAt "typeKind" .null = .null ∧ w.get? "typeKind" = some .null) ∨
        ∃ sort : TypeKind, v.valueAt "typeKind" .null = .text sort.name ∧
          w.get? "typeKind" = some (.text sort.name) := (hread rfl).wordOrNull
    split
    · next htype =>
      rcases hsort with ⟨-, hnull⟩ | ⟨sort, hsort, hread_sort⟩
      · -- a type without a sort is refused
        simp [Snapshot.Format.typeHasKind, Json.textAt?, hread_kind, htype, hnull] at hrule
      · exact ⟨sort, by simp [ofDocument, Json.textAt, Json.textAt?, hread_kind, htype, hread_sort], hsort⟩
    · next htype => simp [ofDocument, Json.textAt, hread_kind, htype]
  exact
    { id := (hread rfl).text
      name := (hread rfl).text
      kind := by rw [hkind, hgiven]
      typeKind := by rwa [hkind]
      packageName := (hread rfl).defaultText
      containerId := (hread rfl).textOrNull
      modifiers := Modifiers.describes_ofDocument? (hread rfl).memberAt
      annotations := (hread rfl).texts
      isSynthetic := (hread rfl).flag
      isPhysical := (hread rfl).flag
      isConstructor := (hread rfl).flag
      isAnonymous := (hread rfl).flag
      isLocal := (hread rfl).flag
      isTypeParameter := (hread rfl).flag
      isFunctional := (hread rfl).flag
      superTypeIds := (hread rfl).texts
      hasSuperSignature := (hread rfl).flag
      isOverridden := (hread rfl).flag }

end Declaration

/-! ## Usage sites -/

namespace Qualifier

/-- A qualifier that the format reads is described by what was given. -/
theorem describes_ofDocument {v w : Json} (h : Snapshot.Format.qualifier.Reads (some v) w) :
    Describes v (ofDocument w) := by
  rw [Snapshot.Format.qualifier, Schema.Reads] at h
  obtain ⟨members, hv, s, hform, ms, rfl, hread⟩ := h
  cases hv
  simp only [Variants.Read, Fields.Read, Snapshot.Format.nullable] at hread
  split_ifs at hread with hnone hthis hsuper hexpression
  · subst hnone hread
    exact ⟨hform, nofun⟩
  · subst hthis hread
    exact ⟨hform, nofun⟩
  · subst hsuper hread
    exact ⟨hform, nofun⟩
  · subst hexpression
    obtain ⟨u, _, rfl, hu, rfl⟩ := hread
    refine ⟨hform, fun typeId heq => ?_⟩
    cases heq
    exact Field.Reads.textOrNull (.defaulted hu)

end Qualifier

namespace UsageSite

/-- A usage site that the format reads is described by what was given. -/
theorem describes_ofDocument {v w : Json} (h : Snapshot.Format.usageSite.Reads (some v) w) :
    Describes v (ofDocument w) := by
  have hread : ∀ {key : String} {field : Field}, _ → field.Reads (v.get? key) (w.get? key) :=
    fun hfield => Schema.reads_get? h (by decide) hfield
  obtain ⟨context, hgiven, hread_context⟩ : ∃ c : SiteContext,
      v.valueAt "context" (.text "normal") = .text c.name ∧ w.get? "context" = some (.text c.name) :=
    (hread rfl).defaultWord
  have hcontext : (ofDocument w).context = context := by simp [ofDocument, Json.textAt, hread_context]
  have horigin : ((ofDocument w).origin = .source ∧ v.valueAt "origin" (.text "source") = .text "source") ∨
      (ofDocument w).origin = .descriptor (ofDocument w).file ∧
        v.valueAt "origin" (.text "source") = .text "descriptor" := by
    obtain ⟨u, hread_origin, hu⟩ : ∃ u, w.get? "origin" = some u ∧
        (Schema.word ["source", "descriptor"]).Reads (some (v.valueAt "origin" (.text "source"))) u :=
      (hread rfl).of_defaulted
    rw [Schema.Reads] at hu
    obtain ⟨s, hs, hv, rfl⟩ := hu
    rcases List.mem_pair.mp hs with rfl | rfl
    · exact Or.inl ⟨by simp [ofDocument, Json.textAt, hread_origin], Option.some.inj hv⟩
    · exact Or.inr ⟨by simp [ofDocument, Json.textAt, hread_origin], Option.some.inj hv⟩
  exact
    { origin := horigin
      file := (hread rfl).text
      line := (hread rfl).number
      packageName := (hread rfl).defaultText
      enclosingTypeId := (hread rfl).textOrNull
      qualifier := Qualifier.describes_ofDocument (hread rfl).memberAt
      context := by rw [hcontext, hgiven]
      isConstructorCall := (hread rfl).flag
      resolved := (hread rfl).flag }

end UsageSite

/-! ## One document, one description -/

section

variable {v : Json}

theorem text_unique {s t : String} (hs : v = .text s) (ht : v = .text t) : s = t :=
  Json.text.inj (hs.symm.trans ht)

theorem flag_unique {b c : Bool} (hb : v = .bool b) (hc : v = .bool c) : b = c :=
  Json.bool.inj (hb.symm.trans hc)

theorem textOrNull_unique {s t : Option String} (hs : v = .textOrNull s) (ht : v = .textOrNull t) : s = t := by
  subst hs
  cases s <;> cases t <;> simp_all [Json.textOrNull]

theorem texts_unique {ss ts : List String} (hs : v = .list (ss.map .text)) (ht : v = .list (ts.map .text)) :
    ss = ts := by
  have heq := Json.list.inj (hs.symm.trans ht)
  exact List.map_injective_iff.mpr (fun _ _ => Json.text.inj) heq

end

/-- What is found by its name is told by it. -/
theorem eq_of_name_eq {α : Type} {name : α → String} {ofName? : String → Option α}
    (hname : ∀ a, ofName? (name a) = some a) {a b : α} (h : Json.text (name a) = .text (name b)) : a = b := by
  have heq : ofName? (name a) = ofName? (name b) := congrArg ofName? (Json.text.inj h)
  rw [hname, hname] at heq
  exact Option.some.inj heq

/-- A document describes no more than one modifier list. -/
theorem Modifiers.Describes.unique {v : Json} {m m' : Modifiers} (h : Describes v m) (h' : Describes v m') :
    m = m' := by
  have haccess : m.access = m'.access :=
    eq_of_name_eq Level.ofName?_name (Option.some.inj (h.access.symm.trans h'.access))
  have hprivate : m.isPrivate = m'.isPrivate := flag_unique h.isPrivate (haccess ▸ h'.isPrivate)
  cases m
  cases m'
  rw [Modifiers.mk.injEq]
  exact ⟨haccess, hprivate, flag_unique h.isNative h'.isNative, flag_unique h.isStatic h'.isStatic,
    flag_unique h.isFinal h'.isFinal, flag_unique h.isAbstract h'.isAbstract,
    flag_unique h.hasInitializer h'.hasInitializer⟩

namespace Declaration.Describes

variable {v : Json} {d d' : Declaration}

theorem modifiers_unique (h : Describes v d) (h' : Describes v d') : d.modifiers = d'.modifiers := by
  have hnull {m : Modifiers} (hm : Modifiers.Describes .null m) : False := nomatch hm.access
  rcases h.modifiers with ⟨hnone, hv⟩ | ⟨m, hm, hv⟩ <;> rcases h'.modifiers with ⟨hnone', hv'⟩ | ⟨m', hm', hv'⟩
  · rw [hnone, hnone']
  · exact (hnull (hv ▸ hv')).elim
  · exact (hnull (hv' ▸ hv)).elim
  · rw [hm, hm', hv.unique hv']

theorem typeKind_unique (h : Describes v d) (h' : Describes v d') (hkind : d.kind = d'.kind) :
    d.typeKind = d'.typeKind := by
  have hsort := h.typeKind
  have hsort' := h'.typeKind
  rw [← hkind] at hsort'
  split at hsort
  · next htype =>
    rw [if_pos htype] at hsort'
    obtain ⟨sort, heq, hgiven⟩ := hsort
    obtain ⟨sort', heq', hgiven'⟩ := hsort'
    rw [heq, heq', eq_of_name_eq TypeKind.ofName?_name (hgiven.symm.trans hgiven')]
  · next htype =>
    rw [if_neg htype] at hsort'
    rw [hsort, hsort']

/-- A document describes no more than one declaration. -/
theorem unique (h : Describes v d) (h' : Describes v d') : d = d' := by
  have hkind : d.kind = d'.kind :=
    eq_of_name_eq DeclarationKind.ofName?_name (Option.some.inj (h.kind.symm.trans h'.kind))
  have htypeKind := h.typeKind_unique h' hkind
  have hmodifiers := h.modifiers_unique h'
  cases d
  cases d'
  rw [Declaration.mk.injEq]
  exact ⟨Json.text.inj (Option.some.inj (h.id.symm.trans h'.id)),
    Json.text.inj (Option.some.inj (h.name.symm.trans h'.name)), hkind, htypeKind,
    text_unique h.packageName h'.packageName, textOrNull_unique h.containerId h'.containerId, hmodifiers,
    texts_unique h.annotations h'.annotations, flag_unique h.isSynthetic h'.isSynthetic,
    flag_unique h.isPhysical h'.isPhysical, flag_unique h.isConstructor h'.isConstructor,
    flag_unique h.isAnonymous h'.isAnonymous, flag_unique h.isLocal h'.isLocal,
    flag_unique h.isTypeParameter h'.isTypeParameter, flag_unique h.isFunctional h'.isFunctional,
    texts_unique h.superTypeIds h'.superTypeIds, flag_unique h.hasSuperSignature h'.hasSuperSignature,
    flag_unique h.isOverridden h'.isOverridden⟩

end Declaration.Describes

/-- A document describes no more than one qualifier. -/
theorem Qualifier.Describes.unique {v : Json} {q q' : Qualifier} (h : Describes v q) (h' : Describes v q') :
    q = q' := by
  have hname : q.name = q'.name := Json.text.inj (Option.some.inj (h.form.symm.trans h'.form))
  -- the names differ unless both are expressions, or the same otherwise
  cases q <;> cases q' <;> simp [Qualifier.name] at hname ⊢
  exact textOrNull_unique (h.typeId _ rfl) (h'.typeId _ rfl)

/-- A document describes no more than one usage site. -/
theorem UsageSite.Describes.unique {v : Json} {s s' : UsageSite} (h : Describes v s) (h' : Describes v s') :
    s = s' := by
  have hfile : s.file = s'.file := Json.text.inj (Option.some.inj (h.file.symm.trans h'.file))
  have horigin : s.origin = s'.origin := by
    rcases h.origin with ⟨hs, hv⟩ | ⟨hs, hv⟩ <;> rcases h'.origin with ⟨hs', hv'⟩ | ⟨hs', hv'⟩
    · rw [hs, hs']
    · exact absurd (text_unique hv hv') (by decide)
    · exact absurd (text_unique hv hv') (by decide)
    · rw [hs, hs', hfile]
  have hline : s.line = s'.line := Json.number.inj (h.line.symm.trans h'.line)
  have hqualifier := h.qualifier.unique h'.qualifier
  have hcontext : s.context = s'.context :=
    eq_of_name_eq SiteContext.ofName?_name (h.context.symm.trans h'.context)
  cases s
  cases s'
  rw [UsageSite.mk.injEq]
  exact ⟨horigin, hfile, hline, text_unique h.packageName h'.packageName,
    textOrNull_unique h.enclosingTypeId h'.enclosingTypeId, hqualifier, hcontext,
    flag_unique h.isConstructorCall h'.isConstructorCall, flag_unique h.resolved h'.resolved⟩

end LeastAccess
