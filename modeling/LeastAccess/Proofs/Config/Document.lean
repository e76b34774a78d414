import LeastAccess.Proofs.Config.Acceptance
import LeastAccess.Proofs.Schema.Fields

/-!
# A configuration spelled out

What the format makes of a document is the configuration in it with every choice spelled out, and the
configuration can be read off that again.

* `ofDocument_toJson` — a configuration is what is read from it spelled out
* `parse_eq_ok_iff_validate` — the format makes of a document the configuration in it, spelled out
-/

namespace LeastAccess

/-! ## Parts -/

namespace Level

theorem exists_name_of_mem {s : String} (h : s ∈ names) : ∃ a : Level, a.name = s := by
  obtain ⟨a, -, ha⟩ := List.mem_map.mp h
  exact ⟨a, ha⟩

end Level

namespace EntryPointMarker

theorem ofDocument_toJson (a : EntryPointMarker) : ofDocument a.toJson = a := by
  obtain ⟨name, minLevel⟩ := a
  cases minLevel with
  | none => rfl
  | some l => exact congrArg (EntryPointMarker.mk name) (Level.ofName?_name l)

theorem exists_toJson_of_reads {v : Option Json} {w : Json} (h : Config.Format.entryPointMarker.Reads v w) :
    ∃ a : EntryPointMarker, w = a.toJson := by
  simp only [Config.Format.entryPointMarker, Schema.Reads, Fields.Read] at h
  obtain ⟨members, ms, -, rfl, _, rest, rfl, ⟨name, -, rfl, -⟩, hlevel⟩ := h
  split at hlevel
  · obtain ⟨_, _, rfl, ⟨s, hs, -, rfl⟩, rfl⟩ := hlevel
    obtain ⟨l, rfl⟩ := Level.exists_name_of_mem hs
    exact ⟨⟨name, some l⟩, rfl⟩
  · subst hlevel
    exact ⟨⟨name, none⟩, rfl⟩

end EntryPointMarker

namespace SubclassingRule

theorem ofDocument_toJson (r : SubclassingRule) : ofDocument r.toJson = r := by
  obtain ⟨marker, methodAnnotations⟩ := r
  cases methodAnnotations with
  | none => rfl
  | some names => exact congrArg (SubclassingRule.mk marker ∘ some) (Json.texts_map_text names)

theorem exists_toJson_of_reads {v : Option Json} {w : Json} (h : Config.Format.subclassingRule.Reads v w) :
    ∃ r : SubclassingRule, w = r.toJson := by
  simp only [Config.Format.subclassingRule, Schema.Reads, Fields.Read] at h
  obtain ⟨members, ms, -, rfl, _, rest, rfl, ⟨marker, -, rfl, -⟩, hnames⟩ := h
  split at hnames
  · obtain ⟨_, _, rfl, ⟨_, ws, -, rfl, hws⟩, rfl⟩ := hnames
    obtain ⟨names, rfl⟩ : ∃ names : List String, ws = names.map .text := by
      refine exists_map_of_forall₂ hws ?_
      rintro _ _ ⟨s, -, rfl, -⟩
      exact ⟨s, rfl⟩
    exact ⟨⟨marker, some names⟩, rfl⟩
  · subst hnames
    exact ⟨⟨marker, none⟩, rfl⟩

end SubclassingRule

/-! ## The whole -/

namespace Config

/-- A configuration is what is read from it spelled out. -/
theorem ofDocument_toJson (c : Config) : ofDocument c.toJson = c := by
  have hannotations : (c.annotations.map (·.toJson)).map EntryPointMarker.ofDocument = c.annotations := by
    rw [List.map_map]
    exact List.map_id'' EntryPointMarker.ofDocument_toJson _
  have hproviders : (c.subclassing.map (·.toJson)).map SubclassingRule.ofDocument = c.subclassing := by
    rw [List.map_map]
    exact List.map_id'' SubclassingRule.ofDocument_toJson _
  have hdocument : ofDocument c.toJson =
      { c with
        annotations := (c.annotations.map (·.toJson)).map EntryPointMarker.ofDocument
        subclassing := (c.subclassing.map (·.toJson)).map SubclassingRule.ofDocument } := rfl
  rw [hdocument, hannotations, hproviders]

theorem exists_analysis_of_reads {v : Option Json} {w : Json} (h : Format.analysis.Reads v w) :
    ∃ (o : Options) (x : Binary64), w = .object (o.toMembers ++ [("concurrency", .number x)]) := by
  simp only [Format.analysis, Fields.flag, Schema.Reads, Fields.Read] at h
  -- four flags stand before the number
  obtain ⟨_, _, -, rfl, _, _, rfl, ⟨a, -, rfl⟩, _, _, rfl, ⟨b, -, rfl⟩, _, _, rfl, ⟨c, -, rfl⟩, _, _, rfl,
    ⟨d, -, rfl⟩, _, _, rfl, ⟨x, -, rfl, -⟩, rfl⟩ := h
  exact ⟨⟨a, b, c, d⟩, x, rfl⟩

theorem exists_entryPoints_of_reads {v : Option Json} {w : Json} (h : Format.entryPoints.Reads v w) :
    ∃ (annotations : List EntryPointMarker) (mainMethods : Bool), w = .object
      [("annotations", .list (annotations.map (·.toJson))), ("mainMethods", .bool mainMethods)] := by
  simp only [Format.entryPoints, Fields.flag, Schema.Reads, Fields.Read] at h
  obtain ⟨_, _, -, rfl, _, _, rfl, ⟨_, ws, -, rfl, hws⟩, _, _, rfl, ⟨mainMethods, -, rfl⟩, rfl⟩ := h
  obtain ⟨annotations, rfl⟩ := exists_map_of_forall₂ hws fun _ _ => EntryPointMarker.exists_toJson_of_reads
  exact ⟨annotations, mainMethods, rfl⟩

theorem exists_extensibility_of_reads {v : Option Json} {w : Json} (h : Format.extensibility.Reads v w) :
    ∃ rules : List SubclassingRule, w = .object [("providers", .list (rules.map (·.toJson)))] := by
  simp only [Format.extensibility, Schema.Reads, Fields.Read] at h
  obtain ⟨_, _, -, rfl, _, _, rfl, ⟨_, ws, -, rfl, hws⟩, rfl⟩ := h
  obtain ⟨rules, rfl⟩ := exists_map_of_forall₂ hws fun _ _ => SubclassingRule.exists_toJson_of_reads
  exact ⟨rules, rfl⟩

/-- What the format reads is some configuration spelled out. -/
theorem exists_toJson_of_reads {v : Option Json} {w : Json} (h : Format.config.Reads v w) :
    ∃ c : Config, w = c.toJson := by
  simp only [Format.config, Schema.Reads, Fields.Read] at h
  obtain ⟨_, _, -, rfl, _, _, rfl, hanalysis, _, _, rfl, hentryPoints, _, _, rfl, hextensibility, rfl⟩ := h
  obtain ⟨options, concurrency, rfl⟩ := exists_analysis_of_reads hanalysis
  obtain ⟨annotations, mainMethods, rfl⟩ := exists_entryPoints_of_reads hentryPoints
  obtain ⟨subclassing, rfl⟩ := exists_extensibility_of_reads hextensibility
  exact ⟨⟨options, concurrency, annotations, mainMethods, subclassing⟩, rfl⟩

/-- **The format makes of a document the configuration in it, spelled out.** -/
theorem parse_eq_ok_iff_validate {v : Option Json} {cfg : Config} :
    parse v = .ok cfg ↔ Format.config.validate v = .ok cfg.toJson := by
  rw [parse_eq_ok_iff, Schema.validate_eq_ok_iff]
  constructor
  · rintro ⟨w, hw, rfl⟩
    obtain ⟨c, rfl⟩ := exists_toJson_of_reads hw
    rwa [ofDocument_toJson]
  · intro hw
    exact ⟨_, hw, (ofDocument_toJson cfg).symm⟩

end Config

end LeastAccess
