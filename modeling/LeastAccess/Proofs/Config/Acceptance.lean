import LeastAccess.Config.Reading
import LeastAccess.Proofs.Binary64.Exact
import LeastAccess.Proofs.Schema.Grammar

/-!
# What an accepted configuration guarantees

* `Analysis.checkConcurrency_eq_ok_iff` — with how many workers an analysis can be set up
* `parse_eq_ok_iff` — a configuration is read from what the format reads
* `concurrency_of_parse` — its number of workers is a positive whole number
* `checkConcurrency_of_parse` — so an analysis can be set up
-/

namespace LeastAccess

/-- An analysis can be set up with a whole number of workers that is at least one. -/
theorem Analysis.checkConcurrency_eq_ok_iff {x : Binary64} : checkConcurrency x = .ok () ↔ x.IsCount := by
  rw [Binary64.isCount_iff_not_lt_one, checkConcurrency]
  cases x.isInteger <;> cases x.lt .one <;> simp

namespace Config

theorem parse_eq_ok_iff {v : Option Json} {cfg : Config} :
    parse v = .ok cfg ↔ ∃ w, Format.config.Reads v w ∧ cfg = ofDocument w := by
  rw [parse]
  simp only [← Schema.validate_eq_ok_iff]
  cases Format.config.validate v with
  | error issues => simp
  | ok document => simp [eq_comm]

theorem numberAt_concurrency_of_reads {v : Option Json} {w : Json} (h : Format.analysis.Reads v w) :
    (w.numberAt "concurrency").isInteger = true ∧ (w.numberAt "concurrency").isPositive = true := by
  simp only [Format.analysis, Fields.flag, Schema.Reads, Fields.Read] at h
  -- four flags stand before the number
  obtain ⟨_, _, -, rfl, _, _, rfl, ⟨_, -, rfl⟩, _, _, rfl, ⟨_, -, rfl⟩, _, _, rfl, ⟨_, -, rfl⟩, _, _, rfl,
    ⟨_, -, rfl⟩, _, _, rfl, ⟨x, -, rfl, hinteger, hpositive⟩, rfl⟩ := h
  exact ⟨hinteger, hpositive⟩

theorem reads_analysis_of_reads {v : Option Json} {w : Json} (h : Format.config.Reads v w) :
    ∃ v', Format.analysis.Reads v' (w.memberAt "analysis") := by
  simp only [Format.config, Schema.Reads, Fields.Read] at h
  obtain ⟨_, _, -, rfl, _, _, rfl, hanalysis, _, _, rfl, -, _, _, rfl, -, rfl⟩ := h
  exact ⟨_, hanalysis⟩

/-- The number of workers in a configuration is a positive whole number. -/
theorem concurrency_of_parse {v : Option Json} {cfg : Config} (h : parse v = .ok cfg) :
    cfg.concurrency.isInteger = true ∧ cfg.concurrency.isPositive = true := by
  obtain ⟨w, hw, rfl⟩ := parse_eq_ok_iff.mp h
  obtain ⟨v', hanalysis⟩ := reads_analysis_of_reads hw
  exact numberAt_concurrency_of_reads hanalysis

/-- An accepted configuration does not keep an analysis from being set up. -/
theorem checkConcurrency_of_parse {v : Option Json} {cfg : Config} (h : parse v = .ok cfg) :
    Analysis.checkConcurrency cfg.concurrency = .ok () := by
  rw [Analysis.checkConcurrency_eq_ok_iff, Binary64.isCount_iff_isPositive]
  exact concurrency_of_parse h

end Config

end LeastAccess
