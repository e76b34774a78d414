import LeastAccess.Declaration

/-!
# The declaration graph

The declarations of a program in document order, with the two relations they spell out by ids: the type
around a declaration, and the direct super types of a type. Nothing is assumed of the ids. Of several
declarations with one id the last one counts in look-ups, and an id without a declaration has neither a
container nor super types.

Main statements: `find?_id` and `find?_eq_some_of_mem` (with unique ids, looking up a declaration's id
finds that declaration).
-/

namespace LeastAccess

/-- The declarations of a program. -/
structure Graph where
  declarations : List Declaration
  deriving DecidableEq

namespace Graph

/-- The declaration of an id. -/
def find? (g : Graph) (id : String) : Option Declaration :=
  g.declarations.reverse.find? (·.id == id)

/-- The type directly around a declaration. -/
def containerOf? (g : Graph) (id : String) : Option String := (g.find? id).bind (·.containerId)

/-- The direct super types of a type. -/
def superTypesOf (g : Graph) (id : String) : List String :=
  match g.find? id with
  | some d => d.superTypeIds
  | none => []

/-- The declarations directly in a type, in document order. -/
def membersOf (g : Graph) (containerId : String) : List Declaration :=
  g.declarations.filter (·.containerId == some containerId)

/-- The ids of the declarations, in document order. -/
def ids (g : Graph) : List String := g.declarations.map (·.id)

/-- No two declarations share an id. -/
def UniqueIds (g : Graph) : Prop := g.ids.Nodup

theorem find?_id {g : Graph} {id : String} {d : Declaration} (h : g.find? id = some d) :
    d.id = id := by
  simpa using List.find?_some h

theorem mem_of_find? {g : Graph} {id : String} {d : Declaration} (h : g.find? id = some d) :
    d ∈ g.declarations :=
  List.mem_reverse.1 (List.mem_of_find?_eq_some h)

theorem find?_eq_none_iff {g : Graph} {id : String} : g.find? id = none ↔ id ∉ g.ids := by
  simp [find?, ids]

theorem mem_ids_of_containerOf? {g : Graph} {id c : String} (h : g.containerOf? id = some c) :
    id ∈ g.ids := by
  unfold containerOf? at h
  cases hf : g.find? id with
  | none => simp [hf] at h
  | some d => exact find?_id hf ▸ List.mem_map.2 ⟨d, mem_of_find? hf, rfl⟩

/-- Declarations with one id are one declaration, if ids are unique. -/
theorem eq_of_id_eq {g : Graph} (hu : g.UniqueIds) {d e : Declaration} (hd : d ∈ g.declarations)
    (he : e ∈ g.declarations) (h : d.id = e.id) : d = e := by
  obtain ⟨i, hi, rfl⟩ := List.mem_iff_getElem.1 hd
  obtain ⟨j, hj, rfl⟩ := List.mem_iff_getElem.1 he
  have hn := List.pairwise_iff_getElem.1 (List.pairwise_map.1 hu)
  rcases Nat.lt_trichotomy i j with hij | hij | hij
  · exact absurd h (hn i j hi hj hij)
  · subst hij
    rfl
  · exact absurd h.symm (hn j i hj hi hij)

theorem find?_eq_some_of_mem {g : Graph} (hu : g.UniqueIds) {d : Declaration}
    (h : d ∈ g.declarations) : g.find? d.id = some d := by
  cases hf : g.find? d.id with
  | none => exact absurd (List.mem_map.2 ⟨d, h, rfl⟩) (find?_eq_none_iff.1 hf)
  | some e => rw [eq_of_id_eq hu (mem_of_find? hf) h (find?_id hf)]

end Graph

end LeastAccess
