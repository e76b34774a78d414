import LeastAccess.Graph.Containment

/-!
# A register of declarations

What is asked of a graph over and over is found out once. A register sorts the declarations by the types they
are directly in when it is made, and keeps every depth it has been asked for, with the depths it found on the
way: that of the type around the declaration, that of the type around this one, and so on. A depth that is
kept is not looked for again. A declaration whose chain of containers never ends has no depth, and asking for
it leaves the register as it was.

Main statements: `getD_get?_foldl_file` (the members of a type, in document order) and `membersOf_ofGraph`.
-/

namespace LeastAccess

/-- What is known of some ids. -/
structure ById (α : Type) where
  get? : String → Option α

namespace ById

variable {α : Type}

def empty : ById α := ⟨fun _ => none⟩

def set (m : ById α) (id : String) (a : α) : ById α := ⟨fun x => if x = id then some a else m.get? x⟩

@[simp] theorem get?_empty (id : String) : (empty : ById α).get? id = none := rfl

theorem get?_set (m : ById α) (id : String) (a : α) (x : String) :
    (m.set id a).get? x = if x = id then some a else m.get? x := rfl

end ById

/-- The depth of an id, at most `n` steps outwards from it, and what is known of depths then. -/
def Graph.depthFrom (g : Graph) (n : Nat) (known : ById Nat) (id : String) :
    Except Graph.DepthError (Nat × ById Nat) :=
  match known.get? id with
  | some depth => .ok (depth, known)
  | none =>
    match g.containerOf? id with
    | none => .ok (0, known.set id 0)
    | some container =>
      match n with
      | 0 => .error .endless
      | n + 1 =>
        match g.depthFrom n known container with
        | .error e => .error e
        | .ok (depth, known) => .ok (depth + 1, known.set id (depth + 1))

/-- The declarations of a program, ready to be asked for. -/
structure Register where
  graph : Graph
  /-- The declarations that are directly in a type. -/
  members : ById (List Declaration)
  /-- The depths found so far. -/
  depths : ById Nat

namespace Register

/-- Adds a declaration to those that are in the same type. -/
def file (members : ById (List Declaration)) (d : Declaration) : ById (List Declaration) :=
  match d.containerId with
  | none => members
  | some id =>
    match members.get? id with
    | some siblings => members.set id (siblings ++ [d])
    | none => members.set id [d]

/-- The register of a graph, which has not been asked for a depth yet. -/
def ofGraph (g : Graph) : Register where
  graph := g
  members := g.declarations.foldl file .empty
  depths := .empty

/-- The declarations directly in a type. -/
def membersOf (r : Register) (id : String) : List Declaration := (r.members.get? id).getD []

/-- The depth of a declaration, and the register that remembers it. -/
def depthOf (r : Register) (id : String) : Except Graph.DepthError (Nat × Register) :=
  match r.graph.depthFrom r.graph.declarations.length r.depths id with
  | .error e => .error e
  | .ok (depth, depths) => .ok (depth, { r with depths })

/-- The register when it has been asked for a depth. -/
def afterDepthOf (r : Register) (id : String) : Register :=
  match r.depthOf id with
  | .error _ => r
  | .ok (_, r) => r

/-- The register when it has been asked for some depths, one after the other. -/
def afterDepthsOf (r : Register) (ids : List String) : Register := ids.foldl afterDepthOf r

/-! ## Members -/

theorem getD_get?_file (members : ById (List Declaration)) (d : Declaration) (id : String) :
    ((file members d).get? id).getD [] =
      (members.get? id).getD [] ++ [d].filter (·.containerId == some id) := by
  unfold file
  cases hc : d.containerId with
  | none => simp [hc]
  | some container =>
    by_cases hid : id = container
    · subst hid
      cases hm : members.get? id <;> simp [hm, hc, ById.get?_set]
    · cases hm : members.get? container <;> simp [hm, hc, hid, Ne.symm hid, ById.get?_set]

/-- Filed one after the other, the declarations in a type stay in order. -/
theorem getD_get?_foldl_file (members : ById (List Declaration)) (ds : List Declaration) (id : String) :
    ((ds.foldl file members).get? id).getD [] =
      (members.get? id).getD [] ++ ds.filter (·.containerId == some id) := by
  induction ds generalizing members with
  | nil => simp
  | cons d ds ih =>
    rw [List.foldl_cons, ih, getD_get?_file, List.append_assoc, ← List.filter_append, List.singleton_append]

theorem membersOf_ofGraph (g : Graph) (id : String) : (ofGraph g).membersOf id = g.membersOf id := by
  unfold membersOf ofGraph
  rw [getD_get?_foldl_file]
  rfl

end Register

end LeastAccess
