import LeastAccess.Proofs.Json.KeyOrder
import LeastAccess.Proofs.Schema.Grammar

/-!
# Fields one by one

The fields of an object are read one after the other. As long as no name is repeated, what is read under a
name is therefore found under it, and depends on nothing but what is given under it.

* `Fields.read_iff` — fields are read one by one
* `Fields.exists_read_iff` — an object is read if each field can be
* `Fields.read_iff_get?` — what a field makes of its value is found under its name
* `Schema.reads_get?` — the same of a whole object
-/

namespace LeastAccess

/-! ## Lists read item by item -/

section

variable {α β γ : Type} {R : α → β → Prop} {l : List α} {l' : List β}

/-- What holds of everything that is read holds of all that is read item by item. -/
theorem forall_mem_of_forall₂ {P : β → Prop} (h : List.Forall₂ R l l') (hR : ∀ a b, R a b → P b) :
    ∀ b ∈ l', P b := by
  induction h with
  | nil => exact fun _ hb => absurd hb List.not_mem_nil
  | cons hfirst _ ih => exact List.forall_mem_cons.mpr ⟨hR _ _ hfirst, ih⟩

/-- If everything that is read is the image of something, then so is a list that is read item by item. -/
theorem exists_map_of_forall₂ {f : γ → β} (h : List.Forall₂ R l l') (hR : ∀ a b, R a b → ∃ c, b = f c) :
    ∃ cs, l' = List.map f cs := by
  induction h with
  | nil => exact ⟨[], rfl⟩
  | cons hfirst _ ih =>
    obtain ⟨c, rfl⟩ := hR _ _ hfirst
    obtain ⟨cs, rfl⟩ := ih
    exact ⟨c :: cs, rfl⟩

end

/-! ## Members that may be absent -/

namespace Members

variable {α β : Type}

/-- Members that correspond to each other one by one have the same keys. -/
theorem map_fst_eq {R : String × α → String × β → Prop} {ms : Members α} {ms' : Members β}
    (h : List.Forall₂ (fun m m' => m.1 = m'.1 ∧ R m m') ms ms') : ms'.map Prod.fst = ms.map Prod.fst := by
  induction h with
  | nil => rfl
  | cons hfirst _ ih => rw [List.map_cons, List.map_cons, ih, hfirst.1]

/-- The members that are there, of some that may be absent. -/
def present (slots : List (String × Option α)) : Members α :=
  slots.filterMap fun slot => slot.2.map fun v => (slot.1, v)

theorem present_cons_some (name : String) (v : α) (slots : List (String × Option α)) :
    present ((name, some v) :: slots) = (name, v) :: present slots := rfl

theorem get?_present_of_notMem {slots : List (String × Option α)} {name : String}
    (h : name ∉ slots.map Prod.fst) : get? (present slots) name = none := by
  refine get?_eq_none_of_notMem fun hname => h ?_
  obtain ⟨m, hm, rfl⟩ := List.mem_map.mp hname
  obtain ⟨slot, hslot, hsome⟩ := List.mem_filterMap.mp hm
  obtain ⟨v, -, rfl⟩ := Option.map_eq_some_iff.mp hsome
  exact List.mem_map_of_mem hslot

theorem get?_present {slots : List (String × Option α)} (hnames : (slots.map Prod.fst).Nodup)
    {name : String} {v : Option α} (h : (name, v) ∈ slots) : get? (present slots) name = v := by
  induction slots with
  | nil => exact absurd h List.not_mem_nil
  | cons slot slots ih =>
    obtain ⟨first, v'⟩ := slot
    obtain ⟨hfirst, hnames⟩ := List.nodup_cons.mp hnames
    rcases List.mem_cons.mp h with heq | hmem
    · cases heq
      have hrest : get? (present slots) name = none := get?_present_of_notMem hfirst
      cases v with
      | none => exact hrest
      | some w => rw [present_cons_some, get?_cons, hrest, if_pos rfl, Option.none_or]
    · have hfound := ih hnames hmem
      cases v' with
      | none => exact hfound
      | some w =>
        have hne : first ≠ name := by
          rintro rfl
          exact hfirst (List.mem_map.mpr ⟨_, hmem, rfl⟩)
        rw [present_cons_some, get?_cons, hfound, if_neg hne, Option.or_none]

end Members

/-! ## One field -/

/-- What a field asks for. -/
inductive Field where
  | required (schema : Schema)
  | optional (schema : Schema)
  | defaulted (value : Json) (schema : Schema)

namespace Field

def schema : Field → Schema
  | .required schema => schema
  | .optional schema => schema
  | .defaulted _ schema => schema

/-- What a field makes of what is given under its name; an optional field may make nothing of nothing. -/
inductive Reads : Field → Option Json → Option Json → Prop
  | required {schema : Schema} {v : Option Json} {w : Json} (h : schema.Reads v w) :
      (Field.required schema).Reads v (some w)
  | optional {schema : Schema} {v w : Json} (h : schema.Reads (some v) w) :
      (Field.optional schema).Reads (some v) (some w)
  | absent {schema : Schema} : (Field.optional schema).Reads none none
  | defaulted {value : Json} {schema : Schema} {v : Option Json} {w : Json}
      (h : schema.Reads (some (v.getD value)) w) : (Field.defaulted value schema).Reads v (some w)

end Field

/-! ## All fields -/

namespace Fields

/-- The fields with their names, in order. -/
def toList : Fields → List (String × Field)
  | .none => []
  | .required name schema rest => (name, .required schema) :: rest.toList
  | .optional name schema rest => (name, .optional schema) :: rest.toList
  | .defaulted name value schema rest => (name, .defaulted value schema) :: rest.toList

def names (fields : Fields) : List String := fields.toList.map Prod.fst

/-- Every field makes something of what is given under its name, or nothing. -/
def ReadEach (fields : List (String × Field)) (members : Members Json) (slots : List (String × Option Json)) :
    Prop :=
  List.Forall₂ (fun field slot => field.1 = slot.1 ∧ field.2.Reads (Members.get? members field.1) slot.2)
    fields slots

theorem readEach_cons_iff {name : String} {field : Field} {fields : List (String × Field)}
    {members : Members Json} {slots : List (String × Option Json)} :
    ReadEach ((name, field) :: fields) members slots ↔ ∃ w rest, field.Reads (Members.get? members name) w ∧
      ReadEach fields members rest ∧ slots = (name, w) :: rest := by
  rw [ReadEach, List.forall₂_cons_left_iff]
  constructor
  · rintro ⟨⟨_, w⟩, rest, ⟨rfl, hw⟩, hrest, rfl⟩
    exact ⟨w, rest, hw, hrest, rfl⟩
  · rintro ⟨w, rest, hw, hrest, rfl⟩
    exact ⟨(name, w), rest, ⟨rfl, hw⟩, hrest, rfl⟩

/-- **Fields are read one by one.** -/
theorem read_iff {members : Members Json} : ∀ (fields : Fields) (ms : List (String × Json)),
    fields.Read members ms ↔ ∃ slots, ReadEach fields.toList members slots ∧ ms = Members.present slots
  | .none, ms => by
    rw [Read, toList]
    constructor
    · rintro rfl
      exact ⟨[], .nil, rfl⟩
    · rintro ⟨slots, hslots, rfl⟩
      cases hslots
      rfl
  | .required name schema rest, ms => by
    simp only [Read, toList, readEach_cons_iff, read_iff rest]
    constructor
    · rintro ⟨w, _, rfl, hw, slots, hslots, rfl⟩
      exact ⟨_, ⟨some w, slots, .required hw, hslots, rfl⟩, rfl⟩
    · rintro ⟨_, ⟨_, slots, hfield, hslots, rfl⟩, rfl⟩
      cases hfield with
      | required hw => exact ⟨_, _, rfl, hw, slots, hslots, rfl⟩
  | .optional name schema rest, ms => by
    simp only [Read, toList, readEach_cons_iff]
    cases Members.get? members name with
    | none =>
      simp only [read_iff rest]
      constructor
      · rintro ⟨slots, hslots, rfl⟩
        exact ⟨_, ⟨Option.none, slots, .absent, hslots, rfl⟩, rfl⟩
      · rintro ⟨_, ⟨_, slots, hfield, hslots, rfl⟩, rfl⟩
        cases hfield
        exact ⟨slots, hslots, rfl⟩
    | some v =>
      simp only [read_iff rest]
      constructor
      · rintro ⟨w, _, rfl, hw, slots, hslots, rfl⟩
        exact ⟨_, ⟨some w, slots, .optional hw, hslots, rfl⟩, rfl⟩
      · rintro ⟨_, ⟨_, slots, hfield, hslots, rfl⟩, rfl⟩
        cases hfield with
        | optional hw => exact ⟨_, _, rfl, hw, slots, hslots, rfl⟩
  | .defaulted name value schema rest, ms => by
    simp only [Read, toList, readEach_cons_iff, read_iff rest]
    constructor
    · rintro ⟨w, _, rfl, hw, slots, hslots, rfl⟩
      exact ⟨_, ⟨some w, slots, .defaulted hw, hslots, rfl⟩, rfl⟩
    · rintro ⟨_, ⟨_, slots, hfield, hslots, rfl⟩, rfl⟩
      cases hfield with
      | defaulted hw => exact ⟨_, _, rfl, hw, slots, hslots, rfl⟩

theorem exists_readEach_iff {fields : List (String × Field)} {members : Members Json} :
    (∃ slots, ReadEach fields members slots) ↔
      ∀ field ∈ fields, ∃ w, field.2.Reads (Members.get? members field.1) w := by
  induction fields with
  | nil => exact ⟨fun _ _ h => absurd h List.not_mem_nil, fun _ => ⟨[], .nil⟩⟩
  | cons field fields ih =>
    rw [List.forall_mem_cons, ← ih]
    constructor
    · rintro ⟨slots, hslots⟩
      obtain ⟨w, rest, hw, hrest, -⟩ := readEach_cons_iff.mp hslots
      exact ⟨⟨w, hw⟩, rest, hrest⟩
    · rintro ⟨⟨w, hw⟩, rest, hrest⟩
      exact ⟨_, readEach_cons_iff.mpr ⟨w, rest, hw, hrest, rfl⟩⟩

/-- Members are read if every field can make something of what is given under its name. -/
theorem exists_read_iff {fields : Fields} {members : Members Json} :
    (∃ ms, fields.Read members ms) ↔
      ∀ field ∈ fields.toList, ∃ w, field.2.Reads (Members.get? members field.1) w := by
  rw [← exists_readEach_iff]
  constructor
  · rintro ⟨ms, hms⟩
    obtain ⟨slots, hslots, -⟩ := (read_iff fields ms).mp hms
    exact ⟨slots, hslots⟩
  · rintro ⟨slots, hslots⟩
    exact ⟨_, (read_iff fields _).mpr ⟨slots, hslots, rfl⟩⟩

section

variable {fields : Fields} {members : Members Json} {ms : List (String × Json)} {name : String}

theorem ReadEach.eq_map {fields : List (String × Field)} {slots : List (String × Option Json)}
    {found : String → Option Json} (h : ReadEach fields members slots)
    (hfound : ∀ slot ∈ slots, found slot.1 = slot.2) :
    (∀ field ∈ fields, field.2.Reads (Members.get? members field.1) (found field.1)) ∧
      slots = fields.map fun field => (field.1, found field.1) := by
  induction h with
  | nil => exact ⟨fun _ h => absurd h List.not_mem_nil, rfl⟩
  | @cons field slot fields slots hfirst _ ih =>
    obtain ⟨hslot, hslots⟩ := List.forall_mem_cons.mp hfound
    obtain ⟨hrest, hmap⟩ := ih hslots
    obtain ⟨hname, hfield⟩ := hfirst
    rw [← hname] at hslot
    rw [← hslot] at hfield
    exact ⟨List.forall_mem_cons.mpr ⟨hfield, hrest⟩, by rw [List.map_cons, ← hmap, hslot, hname]⟩

/-- Where no name is repeated, what is read is what each field makes of what is found under its name. -/
theorem read_iff_get? (hnames : fields.names.Nodup) : fields.Read members ms ↔
    (∀ field ∈ fields.toList, field.2.Reads (Members.get? members field.1) (Members.get? ms field.1)) ∧
      ms = Members.present (fields.toList.map fun field => (field.1, Members.get? ms field.1)) := by
  rw [read_iff fields]
  constructor
  · rintro ⟨slots, hslots, rfl⟩
    have hnodup : (slots.map Prod.fst).Nodup := Members.map_fst_eq hslots ▸ hnames
    obtain ⟨heach, hmap⟩ := hslots.eq_map fun slot hslot => Members.get?_present hnodup hslot
    exact ⟨heach, congrArg Members.present hmap⟩
  · rintro ⟨heach, hms⟩
    exact ⟨_, List.forall₂_map_right_iff.mpr (List.forall₂_same.mpr fun f hf => ⟨rfl, heach f hf⟩), hms⟩

/-- What a field makes of its value is found under its name. -/
theorem reads_get? (hnames : fields.names.Nodup) (h : fields.Read members ms) {field : Field}
    (hfield : fields.toList.lookup name = some field) :
    field.Reads (Members.get? members name) (Members.get? ms name) := by
  obtain ⟨before, after, hsplit, -⟩ := List.lookup_eq_some_iff.mp hfield
  refine ((read_iff_get? hnames).mp h).1 (name, field) ?_
  rw [hsplit]
  exact List.mem_append_right _ List.mem_cons_self

theorem get?_eq_none_of_read (hnames : fields.names.Nodup) (h : fields.Read members ms)
    (hname : name ∉ fields.names) : Members.get? ms name = Option.none := by
  rw [((read_iff_get? hnames).mp h).2]
  refine Members.get?_present_of_notMem ?_
  rwa [List.map_map]

end

end Fields

/-- What a format makes of an object has under every name what the field of that name makes of its value. -/
theorem Schema.reads_get? {fields : Fields} {v w : Json} (h : (Schema.object fields).Reads (some v) w)
    (hnames : fields.names.Nodup) {key : String} {field : Field}
    (hfield : fields.toList.lookup key = some field) :
    field.Reads (v.get? key) (w.get? key) := by
  rw [Reads] at h
  obtain ⟨members, ms, hv, rfl, hread⟩ := h
  cases hv
  exact Fields.reads_get? hnames hread hfield

end LeastAccess
