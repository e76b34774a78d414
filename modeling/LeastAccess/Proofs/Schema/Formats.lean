import LeastAccess.Proofs.Config.Document
import LeastAccess.Proofs.Schema.Idempotence
import LeastAccess.Proofs.Snapshot.Refusals

/-!
# Documents that are written out

A configuration or a snapshot may be written out with every default filled in, as validation makes it. What
is written so validates as it stands, and the same configuration or snapshot is read from it.

* `validation_is_idempotent` — every format accepts what it has made of a document, and changes nothing
-/

namespace LeastAccess

namespace Config

/-- The format of a configuration and those of its parts. -/
def Format.all : List Schema :=
  [analysis, entryPointMarker, entryPoints, subclassingRule, extensibility, config]

end Config

namespace Snapshot

/-- The format of a snapshot and those of its parts. -/
def Format.all : List Schema :=
  [levelName, modifiers, declaration, qualifier, usageSite, usages, snapshot]

end Snapshot

theorem isRegular_of_mem {s : Schema} (h : s ∈ Config.Format.all ++ Snapshot.Format.all) :
    s.isRegular = true := by
  revert s
  decide

/-- A format reads again what it has read, as it stands. -/
theorem settles_of_mem {s : Schema} (h : s ∈ Config.Format.all ++ Snapshot.Format.all) : s.Settles :=
  s.settles (isRegular_of_mem h)

/-- **Validation is idempotent.** Every format accepts what it has made of a document and does not change it.
So a configuration is read back from what it is written out as, with every default, and so is a snapshot. -/
theorem validation_is_idempotent :
    (∀ s ∈ Config.Format.all ++ Snapshot.Format.all, ∀ v w,
      s.validate v = .ok w → s.validate (some w) = .ok w) ∧
    (∀ v cfg, Config.parse v = .ok cfg →
      Config.Format.config.validate v = .ok cfg.toJson ∧ Config.parse (some cfg.toJson) = .ok cfg) ∧
    (∀ v c, Snapshot.parse v = .ok c →
      ∃ w, Snapshot.Format.snapshot.validate v = .ok w ∧ Snapshot.parse (some w) = .ok c) := by
  refine ⟨fun s hs v w h => ?_, fun v cfg h => ?_, fun v c h => ?_⟩
  · rw [Schema.validate_eq_ok_iff] at h ⊢
    exact settles_of_mem hs v w h
  · have hwritten := Config.parse_eq_ok_iff_validate.mp h
    refine ⟨hwritten, Config.parse_eq_ok_iff_validate.mpr ?_⟩
    rw [Schema.validate_eq_ok_iff] at hwritten ⊢
    exact settles_of_mem (by simp [Config.Format.all]) v _ hwritten
  · obtain ⟨w, hw, hc⟩ := Snapshot.parse_eq_ok_iff.mp h
    have hagain := settles_of_mem (by simp [Snapshot.Format.all]) v w hw
    exact ⟨w, Schema.validate_eq_ok_iff.mpr hw, Snapshot.parse_eq_ok_iff.mpr ⟨w, hagain, hc⟩⟩

/-! ## Some documents -/

namespace Sample

/-- Usages under keys that a walk does not visit as they stand, one of which no record keeps. -/
def scatteredUsages : Json :=
  .object [("T.f", .list []), (reservedKey, .list []), ("12", .list []), ("7", .list [])]

/-- The same usages in the order of a walk. -/
def orderedUsages : Json :=
  .object [("7", .list []), ("12", .list []), ("T.f", .list [])]

end Sample

theorem sample_documents_settle :
    Snapshot.Format.usages.validate (some Sample.scatteredUsages) = .ok Sample.orderedUsages ∧
    Snapshot.Format.usages.validate (some Sample.orderedUsages) = .ok Sample.orderedUsages ∧
    Config.parse (some ({} : Config).toJson) = .ok {} ∧
    ∃ w, Snapshot.Format.snapshot.validate (some Sample.document) = .ok w ∧
      Snapshot.parse (some w) = .ok Sample.codebase := by
  have hordered : Snapshot.Format.usages.validate (some Sample.scatteredUsages) = .ok Sample.orderedUsages := rfl
  obtain ⟨hformats, hconfig, hsnapshot⟩ := validation_is_idempotent
  exact ⟨hordered, hformats _ (by simp [Snapshot.Format.all]) _ _ hordered,
    (hconfig _ _ Config.parse_empty).2, hsnapshot _ _ Sample.parse_document⟩

end LeastAccess
