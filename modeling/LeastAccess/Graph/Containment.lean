import LeastAccess.Graph.Basic

/-!
# Containment

`chain` lists a declaration, the type around it, the type around that one, and so on. Only a declared id
has a container, so a chain without repetition has at most one step per declaration, and that many steps
reach its end; a chain that runs into a cycle has then passed every id on it. Enclosure and depth are read
off the chain.

A declaration whose chain never ends has no depth.

Main statements: `Encloses.of_encloses` (the search answers within the relation), `encloses_self` and
`Encloses.trans`.
-/

namespace LeastAccess.Graph

/-- `outer` encloses `inner`: it is the same id, or it encloses the container of `inner`. -/
inductive Encloses (g : Graph) : String → String → Prop where
  | refl (id : String) : Encloses g id id
  | step {outer container inner : String} (h : g.containerOf? inner = some container)
      (rest : Encloses g outer container) : Encloses g outer inner

/-- At most `n` steps from an id outwards. -/
def chainFrom (g : Graph) : Nat → String → List String
  | 0, id => [id]
  | n + 1, id =>
    match g.containerOf? id with
    | none => [id]
    | some container => id :: chainFrom g n container

/-- A declaration and the types around it, from the inside outwards. -/
def chain (g : Graph) (id : String) : List String := g.chainFrom g.declarations.length id

/-- Whether a type encloses a declaration; every id encloses itself. -/
def encloses (g : Graph) (outer inner : String) : Bool := (g.chain inner).contains outer

/-- The number of types around a declaration. -/
def depth (g : Graph) (id : String) : Nat := (g.chain id).length - 1

/-- Whether the types around a declaration come to an end. -/
def hasOutermost (g : Graph) (id : String) : Bool :=
  ((g.chain id).getLast?.bind g.containerOf?).isNone

/-- Why a declaration has no depth. -/
inductive DepthError where
  /-- The types around it never come to an end. -/
  | endless
  deriving DecidableEq, Repr

def DepthError.message : DepthError → String
  | .endless => "Maximum call stack size exceeded"

/-- The depth of a declaration, if it has one. -/
def depth? (g : Graph) (id : String) : Except DepthError Nat :=
  if g.hasOutermost id then .ok (g.depth id) else .error .endless

/-- Checks that all types have a depth. -/
def checkDepths (g : Graph) : Except DepthError Unit :=
  if g.declarations.all fun d => !d.isType || g.hasOutermost d.id then .ok () else .error .endless

/-! ## Chains and enclosure -/

theorem encloses_of_mem_chainFrom {g : Graph} {n : Nat} {outer inner : String}
    (h : outer ∈ g.chainFrom n inner) : Encloses g outer inner := by
  induction n generalizing inner with
  | zero =>
    rw [chainFrom, List.mem_singleton] at h
    exact h ▸ .refl _
  | succ n ih =>
    rw [chainFrom] at h
    cases hc : g.containerOf? inner with
    | none =>
      rw [hc] at h
      exact (List.mem_singleton.1 h) ▸ .refl _
    | some c =>
      rw [hc] at h
      rcases List.mem_cons.1 h with h | h
      · exact h ▸ .refl _
      · exact .step hc (ih h)

theorem self_mem_chainFrom (g : Graph) (n : Nat) (id : String) : id ∈ g.chainFrom n id := by
  cases n with
  | zero => exact List.mem_singleton.2 rfl
  | succ n =>
    rw [chainFrom]
    cases g.containerOf? id <;> simp

theorem self_mem_chain (g : Graph) (id : String) : id ∈ g.chain id := self_mem_chainFrom g _ id

theorem encloses_self (g : Graph) (id : String) : g.encloses id id = true :=
  List.contains_iff_mem.2 (self_mem_chain g id)

/-- What the search answers is in the relation. -/
theorem Encloses.of_encloses {g : Graph} {outer inner : String}
    (h : g.encloses outer inner = true) : Encloses g outer inner :=
  encloses_of_mem_chainFrom (List.contains_iff_mem.1 h)

theorem Encloses.trans {g : Graph} {a b c : String} (h : Encloses g a b) (h' : Encloses g b c) :
    Encloses g a c := by
  induction h' with
  | refl => exact h
  | step hc _ ih => exact .step hc ih

end LeastAccess.Graph
