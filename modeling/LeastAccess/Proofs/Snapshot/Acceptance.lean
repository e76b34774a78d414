import LeastAccess.Proofs.Snapshot.Violations
import LeastAccess.Snapshot.Loading

/-!
# What an accepted snapshot guarantees

An accepted snapshot has no violations, so ids are unique, every container is a declared type, and
containment has no cycle.

* `wellFormed_of_parse` — the declarations of an accepted snapshot are a forest of types and members
-/

namespace LeastAccess

/-- A forest: every id stands for one declaration, and what contains a declaration is a type. -/
structure Graph.WellFormed (g : Graph) : Prop where
  uniqueIds : g.UniqueIds
  container_isType : ∀ d ∈ g.declarations, ∀ id, d.containerId = some id →
    ∃ container, g.find? id = some container ∧ container.isType = true
  acyclic : g.Acyclic

/-- What contains something is a type. -/
theorem Graph.WellFormed.isType_of_contains {g : Graph} (hw : g.WellFormed) {d : Declaration}
    (hd : d ∈ g.declarations) {id : String} (h : g.Contains d.id id) : d.isType = true := by
  obtain ⟨container, hc, he⟩ := h
  induction he generalizing id with
  | refl =>
    obtain ⟨inner, hinner, hcontainer⟩ := Option.bind_eq_some_iff.mp hc
    obtain ⟨type, htype, hisType⟩ := hw.container_isType inner (Graph.mem_of_find? hinner) _ hcontainer
    rw [Graph.find?_eq_some_of_mem hw.uniqueIds hd] at htype
    rw [Option.some.inj htype]
    exact hisType
  | step hc' _ ih => exact ih hc'

namespace Snapshot

theorem checkIntegrity_eq_ok {c c' : Codebase} (h : checkIntegrity c = .ok c') :
    c' = c ∧ c.referenceIssues = [] ∧ c.containmentIssues = [] := by
  rw [checkIntegrity] at h
  split at h
  · cases h
  · next href =>
    split at h
    · cases h
    · next hcyc =>
      cases h
      exact ⟨rfl, not_not.mp href, not_not.mp hcyc⟩

/-- The declarations of a snapshot without violations form a forest. -/
theorem wellFormed_of_checkIntegrity {c c' : Codebase} (h : checkIntegrity c = .ok c') :
    c.graph.WellFormed := by
  obtain ⟨-, href, hcyc⟩ := checkIntegrity_eq_ok h
  have hresolve := Codebase.referenceIssues_eq_nil_iff.mp href
  exact ⟨hresolve.uniqueIds, hresolve.containers, Codebase.containmentIssues_eq_nil_iff.mp hcyc⟩

/-- An accepted snapshot has no violations. -/
theorem checkIntegrity_of_parse {v : Option Json} {c : Codebase} (h : parse v = .ok c) :
    checkIntegrity c = .ok c := by
  rw [parse] at h
  split at h
  · cases h
  · obtain ⟨rfl, -, -⟩ := checkIntegrity_eq_ok h
    exact h

/-- The declarations of an accepted snapshot form a forest. -/
theorem wellFormed_of_parse {v : Option Json} {c : Codebase} (h : parse v = .ok c) :
    c.graph.WellFormed :=
  wellFormed_of_checkIntegrity (checkIntegrity_of_parse h)

/-- What is parsed to some codebase is accepted. -/
theorem parse_of_toOption {v : Option Json} {c : Codebase} (h : (parse v).toOption = some c) :
    parse v = .ok c := by
  cases hv : parse v with
  | error e =>
    rw [hv] at h
    cases h
  | ok c' =>
    rw [hv] at h
    rw [Option.some.inj h]

end Snapshot

/-! ## An accepted snapshot -/

namespace Sample

/-- Usages in a type, with the form of their qualifier. -/
def usedIn (type pkg form : String) : Json :=
  .list [.object [("file", .text "Main.java"), ("package", .text pkg), ("enclosingTypeId", .text type),
    ("qualifier", .object [("form", .text form)])]]

/-- A declaration at some level, with what else is said of it. -/
def entry (id name kind access : String) (more : List (String × Json)) : Json :=
  .object ([("id", .text id), ("name", .text name), ("kind", .text kind), ("package", .text "p"),
    ("modifiers", .object [("access", .text access)])] ++ more)

/-- Three types and two members of the first one, all public, with what refers to them. -/
def document : Json :=
  let named (id name kind pkg : String) : List (String × Json) :=
    [("id", .text id), ("name", .text name), ("kind", .text kind), ("package", .text pkg),
      ("modifiers", .object [("access", .text "public")])]
  let declarations : List Json :=
    [.object (named "A" "A" "type" "p" ++ [("typeKind", .text "class")]),
      .object (named "A.f" "f" "field" "p" ++ [("containerId", .text "A")]),
      .object (named "A.g" "g" "field" "p" ++ [("containerId", .text "A")]),
      .object (named "B" "B" "type" "q" ++ [("typeKind", .text "class")]),
      .object (named "F" "F" "type" "p" ++
        [("typeKind", .text "interface"), ("isFunctional", .bool true)])]
  .object
    [("version", .number .one), ("declarations", .list declarations),
      ("usages", .object [("A", usedIn "F" "p" "none"), ("A.f", usedIn "B" "q" "expression"),
        ("A.g", usedIn "A" "p" "this"), ("F", usedIn "A" "p" "none")]),
      ("functionalUsages", .object [("F", usedIn "A" "p" "none")])]

/-- A public declaration. -/
def declared (id name : String) (kind : DeclarationKind) (pkg : String) : Declaration :=
  { id, name, kind, packageName := pkg, modifiers := some { access := .pub } }

/-- A usage in a type of the same package. -/
def siteIn (type : String) : UsageSite :=
  { file := "Main.java", packageName := "p", enclosingTypeId := some type }

/-- A field of the first type that is used in the type itself. -/
def field : Declaration := { declared "A.g" "g" .field "p" with containerId := some "A" }

/-- A functional type with a site in either list. -/
def functionalType : Declaration :=
  { declared "F" "F" .type "p" with typeKind := some .interface, isFunctional := true }

def codebase : Codebase :=
  let used (type pkg : String) (qualifier : Qualifier) : UsageSite :=
    { file := "Main.java", packageName := pkg, enclosingTypeId := some type, qualifier }
  { graph :=
      ⟨[{ declared "A" "A" .type "p" with typeKind := some .cls },
        { declared "A.f" "f" .field "p" with containerId := some "A" }, field,
        { declared "B" "B" .type "q" with typeKind := some .cls }, functionalType]⟩
    usages :=
      { ordinary := [("A", [used "F" "p" .none]), ("A.f", [used "B" "q" (.expression none)]),
          ("A.g", [used "A" "p" .this]), ("F", [used "A" "p" .none])]
        functional := [("F", [used "A" "p" .none])] } }

theorem parse_document : Snapshot.parse (some document) = .ok codebase :=
  Snapshot.parse_of_toOption (by decide +kernel)

end Sample

end LeastAccess
