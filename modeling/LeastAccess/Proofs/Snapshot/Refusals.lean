import LeastAccess.Proofs.Json.KeyOrder
import LeastAccess.Proofs.Schema.Grammar
import LeastAccess.Proofs.Snapshot.Acceptance

/-!
# Which documents are snapshots

Loading accepts a document if its schema reads it, its references resolve, and containment has no cycle. A
refusal is for the first of these conditions that fails, and it lists what violates the condition.

* `accepts_exactly_snapshots` — loading accepts exactly the snapshots, and explains what it refuses
-/

namespace LeastAccess.Snapshot

/-- Why a document is refused. -/
inductive Refusal (v : Option Json) (fault : SnapshotFault) : Prop where
  | malformed {issues : List Issue} (hform : ∀ w, ¬ Format.snapshot.Reads v w)
      (hcode : fault.code = .snapshotSchemaInvalid)
      (hissues : fault.issues? = some (issues.map (·.text))) (hsome : issues ≠ [])
  /-- Some references do not resolve. Their violations are listed by place, the keys of usages being in key
  order. -/
  | dangling {w : Json} {issues : List ReferenceIssue} (hform : Format.snapshot.Reads v w)
      (hreferences : ¬ (Codebase.ofDocument w).ReferencesResolve)
      (hcode : fault.code = .snapshotDanglingReference)
      (hissues : fault.issues? = some (issues.map (·.text)))
      (hlisted : Enumerates (Codebase.ofDocument w).Violation issues)
      (hkeys : ∀ part : UsageSection, (((Codebase.ofDocument w).usages.entries part).map Prod.fst).Pairwise
        (Members.Precedes (Members.keys (w.memberAt part.key).members)))
  /-- Containment has a cycle. The declarations that run into one are listed, each with a type on it. -/
  | cyclic {w : Json} {issues : List CycleIssue} (hform : Format.snapshot.Reads v w)
      (hreferences : (Codebase.ofDocument w).ReferencesResolve)
      (hcyclic : ¬ (Codebase.ofDocument w).graph.Acyclic)
      (hcode : fault.code = .snapshotContainmentCycle)
      (hissues : fault.issues? = some (issues.map (·.text)))
      (hlisted : Enumerates (Codebase.ofDocument w).Endless (issues.map (·.id)))
      (hentries : ∀ issue ∈ issues,
        Graph.Encloses (Codebase.ofDocument w).graph issue.entry issue.id ∧
          (Codebase.ofDocument w).graph.Contains issue.entry issue.entry)

theorem checkIntegrity_eq_ok_iff {c c' : Codebase} :
    checkIntegrity c = .ok c' ↔ c' = c ∧ c.ReferencesResolve ∧ c.graph.Acyclic := by
  rw [← Codebase.referenceIssues_eq_nil_iff, ← Codebase.containmentIssues_eq_nil_iff]
  refine ⟨checkIntegrity_eq_ok, ?_⟩
  rintro ⟨rfl, href, hcyc⟩
  rw [checkIntegrity, if_neg (not_not.mpr href), if_neg (not_not.mpr hcyc)]

/-- Loading accepts what the schema reads, if references resolve and containment has no cycle. -/
theorem parse_eq_ok_iff {v : Option Json} {c : Codebase} : parse v = .ok c ↔
    ∃ w, Format.snapshot.Reads v w ∧ c = Codebase.ofDocument w ∧ c.ReferencesResolve ∧ c.graph.Acyclic := by
  rw [parse]
  simp only [← Schema.validate_eq_ok_iff]
  cases hv : Format.snapshot.validate v with
  | error issues => simp
  | ok document =>
    simp only [checkIntegrity_eq_ok_iff, Except.ok.injEq, exists_eq_left']
    constructor
    · rintro ⟨rfl, h⟩
      exact ⟨rfl, h⟩
    · rintro ⟨rfl, h⟩
      exact ⟨rfl, h⟩

/-- The keys of a usage section are in key order. -/
theorem pairwise_entries_ofDocument (w : Json) (part : UsageSection) :
    (((Codebase.ofDocument w).usages.entries part).map Prod.fst).Pairwise
      (Members.Precedes (Members.keys (w.memberAt part.key).members)) := by
  have hsites (entries : Json) : ((Codebase.sitesOfDocument entries).map Prod.fst).Pairwise
      (Members.Precedes (Members.keys entries.members)) := by
    rw [Codebase.sitesOfDocument, List.map_map]
    exact Members.pairwise_inKeyOrder entries.members
  cases part with
  | ordinary => exact hsites _
  | functional => exact hsites _

theorem refusal_of_parse {v : Option Json} {fault : SnapshotFault} (h : parse v = .error fault) :
    Refusal v fault := by
  rw [parse] at h
  cases hv : Format.snapshot.validate v with
  | error issues =>
    rw [hv] at h
    cases h
    refine .malformed (fun w hw => ?_) rfl rfl (Schema.issues_ne_nil_of_validate hv)
    rw [Schema.validate_eq_ok_iff.mpr hw] at hv
    cases hv
  | ok w =>
    -- the document has the form of a snapshot, so one of the two checks has failed
    have hform := Schema.validate_eq_ok_iff.mp hv
    simp only [hv, checkIntegrity] at h
    split at h
    · next href =>
      cases h
      exact .dangling hform (fun hr => href (Codebase.referenceIssues_eq_nil_iff.mpr hr)) rfl rfl
        (Codebase.enumerates_referenceIssues _) (pairwise_entries_ofDocument w)
    · next href =>
      split at h
      · next hcyc =>
        cases h
        exact .cyclic hform (Codebase.referenceIssues_eq_nil_iff.mp (not_not.mp href))
          (fun hc => hcyc (Codebase.containmentIssues_eq_nil_iff.mpr hc)) rfl rfl
          (Codebase.enumerates_containmentIssues _)
          fun _ => Codebase.contains_self_of_mem_containmentIssues
      · cases h

/-- **Loading accepts exactly the documents that have the form of a snapshot, whose references resolve, and
whose containment has no cycle, and explains every refusal.** -/
theorem accepts_exactly_snapshots (v : Option Json) :
    (∀ c, parse v = .ok c ↔ ∃ w, Format.snapshot.Reads v w ∧ c = Codebase.ofDocument w ∧
      c.ReferencesResolve ∧ c.graph.Acyclic) ∧
    ((∃ c, parse v = .ok c) ∨ ∃ fault, parse v = .error fault ∧ Refusal v fault) := by
  refine ⟨fun c => parse_eq_ok_iff, ?_⟩
  · cases h : parse v with
    | ok c => exact Or.inl ⟨c, rfl⟩
    | error fault => exact Or.inr ⟨fault, rfl, refusal_of_parse h⟩

/-- A repeated id, an unknown container, and under an unknown key a site in an unknown type. -/
example :
    let document : Json := .object
      [("version", .number .one),
        ("declarations", .list
          [Sample.entry "f" "f" "field" "public" [("containerId", .text "T")],
            Sample.entry "f" "f" "field" "public" []]),
        ("usages", .object [("g", Sample.usedIn "T" "p" "none")])]
    parse (some document) = .error (.dangling
      [.duplicateId "f", .unknownContainer "f" "T", .unknownDeclaration .ordinary "g",
        .unknownEnclosingType .ordinary "g" 0 "T"]) := by
  decide +kernel

end LeastAccess.Snapshot
