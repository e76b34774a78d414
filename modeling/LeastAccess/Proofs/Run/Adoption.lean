import LeastAccess.Proofs.Adoption.Resolution
import LeastAccess.Proofs.Run.Containment

/-!
# After the adoption of suggestions

Whoever adopts all suggestions of a complete run gets a program in which another complete run finds the same
levels. So it suggests nothing, and withdraws the same types. A type that was narrowed makes room for the
levels that are found for all it contains, and therefore for the levels that its contents then have, except
for nested types that were withdrawn: these keep a level broader than the one that was found for them, and it
may be broader than that of the type around them.

* `narrowed_type_covers_contents` — the levels in a type that was narrowed
* `adoption_is_final` — a second run
-/

namespace LeastAccess

namespace Config.Answers

variable {cfg : Config} {c : Codebase} {x : Disturbance} {discipline : Scans → Scans.Move → Prop}
  {report : Report} {d : Declaration}

/-- What is suggested was not withdrawn. -/
theorem notMem_withdrawn (h : cfg.Answers c x discipline report) (hw : c.graph.WellFormed) {s : Suggestion}
    (hs : s ∈ report.suggestions) : s.declarationId ∉ report.withdrawn := by
  obtain ⟨d, hd, current, level, hn, rfl, hfit⟩ := (h.mem_suggestions_iff hw).mp hs
  show d.id ∉ report.withdrawn
  rw [h.mem_withdrawn_iff hw hd hn]
  rintro ⟨htype, hexceed⟩
  exact hfit htype hexceed

/-- A declaration that could be narrowed adopts the level that was found for it, unless it was withdrawn;
everything else stays as it is. -/
theorem adopt_cases (h : cfg.Answers c x discipline report) (hw : c.graph.WellFormed)
    (hd : d ∈ c.graph.declarations) :
    (∃ current level, report.findings.Narrow d current level ∧ d.id ∉ report.withdrawn ∧
        d.adopt report.suggestions = d.withAccess level) ∨
      (d.adopt report.suggestions = d ∧
        ∀ current level, report.findings.Narrow d current level → d.id ∈ report.withdrawn) := by
  rcases d.adopt_cases report.suggestions with ⟨hsame, hnone⟩ | ⟨s, hs, hid, hadopt⟩
  · refine Or.inr ⟨hsame, fun current level hn => ?_⟩
    rw [h.mem_withdrawn_iff hw hd hn]
    by_contra hfit
    have hs := (h.mem_suggestions_iff hw).mpr
      ⟨d, hd, current, level, hn, rfl, fun htype hexceed => hfit ⟨htype, hexceed⟩⟩
    exact hnone _ hs rfl
  · have hout := h.notMem_withdrawn hw hs
    obtain ⟨d', hd', current, level, hn, rfl, -⟩ := (h.mem_suggestions_iff hw).mp hs
    obtain rfl := Graph.eq_of_id_eq hw.uniqueIds hd' hd hid
    exact Or.inl ⟨current, level, hn, hout, hadopt⟩

/-- A declaration for which a level is suggested adopts that level. -/
theorem access?_adopt_of_mem (h : cfg.Answers c x discipline report) (hw : c.graph.WellFormed)
    (hd : d ∈ c.graph.declarations) {s : Suggestion} (hs : s ∈ report.suggestions)
    (hid : s.declarationId = d.id) : (d.adopt report.suggestions).access? = some s.suggested := by
  have hout := h.notMem_withdrawn hw hs
  obtain ⟨d', hd', current, level, hn, rfl, -⟩ := (h.mem_suggestions_iff hw).mp hs
  obtain rfl := Graph.eq_of_id_eq hw.uniqueIds hd' hd hid
  rcases h.adopt_cases hw hd' with ⟨_, level', hn', -, hadopt⟩ | ⟨-, hwithdrawn⟩
  · rw [hadopt, ← hn.unique hn']
    exact Declaration.access?_withAccess hn.1 level
  · exact absurd (hwithdrawn current level hn) hout

/-- What was withdrawn is a type, and stays as it is. -/
theorem adopt_of_withdrawn (h : cfg.Answers c x discipline report) (hw : c.graph.WellFormed)
    (hd : d ∈ c.graph.declarations) (hin : d.id ∈ report.withdrawn) :
    d.isType = true ∧ d.adopt report.suggestions = d := by
  rcases h.adopt_cases hw hd with ⟨_, _, -, hout, -⟩ | ⟨hsame, -⟩
  · exact absurd hin hout
  · obtain ⟨d', hd', hid, current, level, hn⟩ := h.exists_narrow_of_withdrawn hw hin
    obtain rfl := Graph.eq_of_id_eq hw.uniqueIds hd' hd hid
    exact ⟨((h.mem_withdrawn_iff hw hd' hn).mp hin).1, hsame⟩

/-- Everything else is then at most at the level that was found for it. -/
theorem access?_adopt_le (h : cfg.Answers c x discipline report) (hw : c.graph.WellFormed)
    (hd : d ∈ c.graph.declarations) {current found : Level} (haccess : d.access? = some current)
    (hfound : (report.findings.resolutionOf? d.id).bind (·.level?) = some found)
    (hout : d.id ∉ report.withdrawn) :
    ∃ final, (d.adopt report.suggestions).access? = some final ∧ final ≤ found := by
  rcases h.adopt_cases hw hd with ⟨_, level, hn, -, hadopt⟩ | ⟨hsame, hwithdrawn⟩
  · have hlevel : level = found := Option.some.inj (hn.2.1.symm.trans hfound)
    refine ⟨found, ?_, Level.le_refl found⟩
    rw [hadopt, hlevel]
    exact Declaration.access?_withAccess haccess found
  · have hkept : current ≤ found :=
      Level.not_lt.mp fun hlt => hout (hwithdrawn current found ⟨haccess, hfound, hlt⟩)
    exact ⟨current, by rw [hsame, haccess], hkept⟩

/-- What is found for anything in a type is at most what is suggested for the type. -/
theorem found_le_of_mem (h : cfg.Answers c x discipline report) (hw : c.graph.WellFormed)
    {type member : Declaration} (htype : type ∈ c.graph.declarations)
    (hmember : member ∈ c.graph.declarations) (hin : c.graph.Contains type.id member.id) {s : Suggestion}
    (hs : s ∈ report.suggestions) (hid : s.declarationId = type.id) {found : Level}
    (hfound : (report.findings.resolutionOf? member.id).bind (·.level?) = some found) :
    found ≤ s.suggested := by
  obtain ⟨d, hd, current, level, hn, rfl, hfit⟩ := (h.mem_suggestions_iff hw).mp hs
  obtain rfl := Graph.eq_of_id_eq hw.uniqueIds hd htype hid
  rw [← h.findings_match.levelOf?_eq hw.uniqueIds] at hfound
  have hcontribution := h.findings_match.contributionOf?_of_levelOf? hw.uniqueIds hfound
  exact Level.not_lt.mp fun hlt =>
    hfit (hw.isType_of_contains hd hin) ⟨member, hmember, hin, found, hcontribution, hlt⟩

/-- Without failures, exclusions and cancellations every declaration has a level, and a current one. -/
theorem exists_level (h : cfg.Answers c x discipline report) (hu : c.graph.UniqueIds)
    (whole : report.cancelled = false)
    (known : ∀ id r, report.findings.resolutionOf? id = some r → r ≠ .excluded ∧ ∀ o, r ≠ .unresolvable o)
    (hd : d ∈ c.graph.declarations) : ∃ current found, d.access? = some current ∧
      (report.findings.resolutionOf? d.id).bind (·.level?) = some found := by
  obtain ⟨f, hf, rfl⟩ := h.findings_match.exists_mem hd
  have hr := h.findings_match.resolutionOf?_of_mem hu hf
  obtain ⟨hexcluded, hunresolvable⟩ := known _ _ hr
  have hlevel : ∃ found, f.resolution.level? = some found := by
    cases hresolution : f.resolution with
    | resolved level => exact ⟨level, rfl⟩
    | kept level => exact ⟨level, rfl⟩
    | excluded => exact absurd hresolution hexcluded
    | unresolvable o => exact absurd hresolution (hunresolvable o)
    | cancelled =>
      rw [(h.explains hf).isCancelled hresolution] at whole
      cases whole
  obtain ⟨found, hl⟩ := hlevel
  obtain ⟨current, haccess⟩ := exists_access?_of_plainResolution ((h.explains hf).level?_eq hl)
  exact ⟨current, found, haccess, by rw [hr, Option.bind_some, hl]⟩

end Config.Answers

/-! ## Levels in a type that was narrowed -/

/-- **A type that was narrowed makes room for its contents.** In a complete run over an accepted snapshot
that knows a level for every declaration, a level that is suggested for a type is at least the level that is
found for anything in it, at any depth. It is at least the level that this has after the adoption of all
suggestions, unless it is a nested type that was withdrawn, which stays as it is. -/
theorem narrowed_type_covers_contents {v : Option Json} {c : Codebase}
    (accepted : Snapshot.parse v = .ok c) {cfg : Config} {x : Disturbance}
    {discipline : Scans → Scans.Move → Prop} {report : Report}
    (answers : cfg.Answers c x discipline report) (whole : report.cancelled = false)
    (known : ∀ id r, report.findings.resolutionOf? id = some r → r ≠ .excluded ∧ ∀ o, r ≠ .unresolvable o)
    {type member : Declaration} (htype : type ∈ c.graph.declarations)
    (hmember : member ∈ c.graph.declarations) (hin : c.graph.Contains type.id member.id) {s : Suggestion}
    (hs : s ∈ report.suggestions) (hid : s.declarationId = type.id) :
    (type.adopt report.suggestions).access? = some s.suggested ∧
      ∃ found final, (report.findings.resolutionOf? member.id).bind (·.level?) = some found ∧
        (member.adopt report.suggestions).access? = some final ∧ found ≤ s.suggested ∧
        (member.id ∉ report.withdrawn → final ≤ s.suggested) ∧
        (member.id ∈ report.withdrawn →
          member.isType = true ∧ member.adopt report.suggestions = member) := by
  have hw := Snapshot.wellFormed_of_parse accepted
  obtain ⟨current, found, haccess, hfound⟩ := answers.exists_level hw.uniqueIds whole known hmember
  have hle := answers.found_le_of_mem hw htype hmember hin hs hid hfound
  refine ⟨answers.access?_adopt_of_mem hw htype hs hid, ?_⟩
  by_cases hwithdrawn : member.id ∈ report.withdrawn
  · obtain ⟨hisType, hsame⟩ := answers.adopt_of_withdrawn hw hmember hwithdrawn
    exact ⟨found, current, hfound, by rw [hsame, haccess], hle, fun hout => absurd hwithdrawn hout,
      fun _ => ⟨hisType, hsame⟩⟩
  · obtain ⟨final, hfinal, hlevel⟩ := answers.access?_adopt_le hw hmember haccess hfound hwithdrawn
    exact ⟨found, final, hfound, hfinal, hle, fun _ => Level.le_trans hlevel hle,
      fun hin => absurd hin hwithdrawn⟩

namespace Sample

/-- A type with a nested type, which is used in the outer type only, while its field is used elsewhere. -/
def nestedDocument : Json :=
  .object
    [("version", .number .one),
      ("declarations", .list
        [entry "T.N" "N" "type" "public" [("typeKind", .text "class"), ("containerId", .text "T")],
          entry "T.N.f" "f" "field" "public" [("containerId", .text "T.N")],
          entry "T" "T" "type" "public" [("typeKind", .text "class")],
          entry "U" "U" "type" "public" [("typeKind", .text "class")]]),
      ("usages", .object
        [("T.N", usedIn "T" "p" "none"), ("T.N.f", usedIn "U" "p" "none"), ("T", usedIn "U" "p" "none")])]

def nestedType : Declaration :=
  { declared "T.N" "N" .type "p" with typeKind := some .cls, containerId := some "T" }

def nestedField : Declaration := { declared "T.N.f" "f" .field "p" with containerId := some "T.N" }

def outerType : Declaration := { declared "T" "T" .type "p" with typeKind := some .cls }

def nested : Codebase :=
  { graph :=
      ⟨[nestedType, nestedField, outerType, { declared "U" "U" .type "p" with typeKind := some .cls }]⟩
    usages :=
      { ordinary := [("T.N", [siteIn "T"]), ("T.N.f", [siteIn "U"]), ("T", [siteIn "U"])]
        functional := [] } }

theorem parse_nestedDocument : Snapshot.parse (some nestedDocument) = .ok nested :=
  Snapshot.parse_of_toOption (by decide +kernel)

/-- The nested type comes first already. -/
theorem typesInnermostFirst_nested :
    nested.graph.typesInnermostFirst = nested.graph.declarations.filter (·.isType) :=
  Graph.typesInnermostFirst_of_pairwise (by decide)

theorem suggestions_nested : (runOver nested .none).report.suggestions =
    [.ofDeclaration nestedField .pub .pkg, .ofDeclaration outerType .pub .pkg] := by
  rw [runOver, Analysis.report_run_one, Report.ofFindings, withdraw, typesInnermostFirst_nested]
  decide +kernel

/-- Every declaration has a level. -/
theorem known_nested (id : String) (r : Resolution)
    (hr : (runOver nested .none).report.findings.resolutionOf? id = some r) :
    r ≠ .excluded ∧ ∀ o, r ≠ .unresolvable o := by
  have hall : ∀ f ∈ (runOver nested .none).report.findings, f.resolution.level?.isSome = true := by
    rw [runOver, Analysis.report_run_one]
    decide +kernel
  obtain ⟨f, hf, -, rfl⟩ := Findings.exists_mem_of_resolutionOf? hr
  have hlevel := hall f hf
  constructor
  · intro h
    rw [h] at hlevel
    cases hlevel
  · intro o h
    rw [h] at hlevel
    cases hlevel

theorem contains_nested : nested.graph.Contains outerType.id nestedType.id := ⟨"T", rfl, .refl "T"⟩

end Sample

/-- A nested type that was withdrawn can be broader than the type around it after the adoption of all
suggestions. -/
theorem withdrawn_type_in_narrowed_type :
    ¬ ∀ (v : Option Json) (c : Codebase), Snapshot.parse v = .ok c → ∀ (cfg : Config) (run : Analysis.Run),
      cfg.analyze c .none {} = .ok run → run.report.cancelled = false →
        (∀ id r, run.report.findings.resolutionOf? id = some r →
          r ≠ .excluded ∧ ∀ o, r ≠ .unresolvable o) →
        ∀ type ∈ c.graph.declarations, ∀ member ∈ c.graph.declarations,
          c.graph.Contains type.id member.id →
          (∃ s ∈ run.report.suggestions, s.declarationId = type.id) →
            ∀ outer inner, (type.adopt run.report.suggestions).access? = some outer →
              (member.adopt run.report.suggestions).access? = some inner → inner ≤ outer := by
  intro hcover
  have h := hcover _ _ Sample.parse_nestedDocument Sample.config _ (Sample.analyze_eq_runOver _ _)
    (Sample.cancelled_runOver _) Sample.known_nested Sample.outerType (by decide) Sample.nestedType
    (by decide) Sample.contains_nested
  rw [Sample.suggestions_nested] at h
  exact absurd (h ⟨.ofDeclaration Sample.outerType .pub .pkg, by decide, rfl⟩ .pkg .pub rfl rfl) (by decide)

/-- The outer type and the field of the nested type are narrowed, and the nested type is withdrawn. -/
theorem narrowed_type_covers_nested_contents :
    let report := (Sample.runOver Sample.nested .none).report
    Snapshot.parse (some Sample.nestedDocument) = .ok Sample.nested ∧
      Sample.config.Answers Sample.nested .none Scans.InTurn report ∧ report.cancelled = false ∧
      Sample.nested.graph.Contains Sample.outerType.id Sample.nestedType.id ∧
      .ofDeclaration Sample.outerType .pub .pkg ∈ report.suggestions ∧
      (Sample.outerType.adopt report.suggestions).access? = some .pkg ∧
      ∃ found, (report.findings.resolutionOf? "T.N").bind (·.level?) = some found ∧ found ≤ .pkg := by
  intro report
  have hs : Suggestion.ofDeclaration Sample.outerType .pub .pkg ∈ report.suggestions := by
    rw [Sample.suggestions_nested]
    decide
  have houter : Sample.outerType ∈ Sample.nested.graph.declarations := by decide
  have hinner : Sample.nestedType ∈ Sample.nested.graph.declarations := by decide
  obtain ⟨hfinal, found, _, hfound, -, hle, -⟩ := narrowed_type_covers_contents
    Sample.parse_nestedDocument (Sample.answers_runOver _ _) (Sample.cancelled_runOver _)
    Sample.known_nested houter hinner Sample.contains_nested hs rfl
  exact ⟨Sample.parse_nestedDocument, Sample.answers_runOver _ _, Sample.cancelled_runOver _,
    Sample.contains_nested, hs, hfinal, found, hfound, hle⟩

/-! ## A second run -/

namespace Config.Answers

variable {cfg : Config} {c : Codebase} {x x' : Disturbance}
  {discipline discipline' : Scans → Scans.Move → Prop} {report second : Report} {d : Declaration}

/-- What is found about a declaration after the adoption of all suggestions has the same level. -/
theorem level?_adopt (h : cfg.Answers c x discipline report) (hw : c.graph.WellFormed)
    (serves : ∀ r, x.fails r = false) (whole : report.cancelled = false)
    (hd : d ∈ c.graph.declarations) :
    (plainResolution (c.adopt report.suggestions) cfg.policy (d.adopt report.suggestions)).level? =
      (plainResolution c cfg.policy d).level? := by
  rw [plainResolution_adopt]
  rcases h.adopt_cases hw hd with ⟨current, level, ⟨haccess, hl, hlt⟩, -, hadopt⟩ | ⟨hsame, -⟩
  · rw [h.level?_eq hw.uniqueIds serves whole hd] at hl
    rw [hadopt, level?_plainResolution_withAccess haccess hl hlt, hl]
  · rw [hsame]

section

variable (h : cfg.Answers c x discipline report)
  (h' : cfg.Answers (c.adopt report.suggestions) x' discipline' second) (hw : c.graph.WellFormed)
  (hw' : (c.adopt report.suggestions).graph.WellFormed) (serves : ∀ r, x.fails r = false)
  (serves' : ∀ r, x'.fails r = false) (whole : report.cancelled = false)
  (whole' : second.cancelled = false)

include h h' hw hw' serves serves' whole whole'

/-- The contents of a type exceed the same levels as before. -/
theorem exceed_adopt_iff (id : String) (own : Level) :
    second.findings.Exceed (c.adopt report.suggestions).graph id own ↔
      report.findings.Exceed c.graph id own := by
  have hcontribution {member : Declaration} (hmem : member ∈ c.graph.declarations) :
      second.findings.contributionOf? (member.adopt report.suggestions) =
        report.findings.contributionOf? member := by
    have hmem' : member.adopt report.suggestions ∈ (c.adopt report.suggestions).graph.declarations :=
      List.mem_map_of_mem hmem
    rw [h'.contributionOf?_eq hw'.uniqueIds serves' whole' hmem', h.level?_adopt hw serves whole hmem,
      h.contributionOf?_eq hw.uniqueIds serves whole hmem]
  constructor
  · rintro ⟨member', hmem', hin, level, hl, hlt⟩
    obtain ⟨member, hmem, rfl⟩ := Graph.mem_declarations_adopt.mp hmem'
    rw [hcontribution hmem] at hl
    exact ⟨member, hmem, Graph.contains_adopt_iff.mp hin, level, hl, hlt⟩
  · rintro ⟨member, hmem, hin, level, hl, hlt⟩
    rw [← hcontribution hmem] at hl
    exact ⟨member.adopt report.suggestions, List.mem_map_of_mem hmem, Graph.contains_adopt_iff.mpr hin,
      level, hl, hlt⟩

/-- What could be narrowed after the adoption of all suggestions could be before, and was withdrawn. -/
theorem narrow_adopt_iff (hd : d ∈ c.graph.declarations) {current level : Level} :
    second.findings.Narrow (d.adopt report.suggestions) current level ↔
      report.findings.Narrow d current level ∧ d.id ∈ report.withdrawn := by
  have hlevel : (second.findings.resolutionOf? d.id).bind (·.level?) =
      (report.findings.resolutionOf? d.id).bind (·.level?) := by
    have hd' : d.adopt report.suggestions ∈ (c.adopt report.suggestions).graph.declarations :=
      List.mem_map_of_mem hd
    rw [h.level?_eq hw.uniqueIds serves whole hd, ← h.level?_adopt hw serves whole hd]
    exact h'.level?_eq hw'.uniqueIds serves' whole' hd'
  rcases h.adopt_cases hw hd with ⟨_, found, hn, hout, hadopt⟩ | ⟨hsame, hwithdrawn⟩
  · constructor
    · rintro ⟨haccess, hl, hlt⟩
      -- the level that was adopted is the one that is found again
      have hcurrent : current = found := by
        rw [hadopt, Declaration.access?_withAccess hn.1] at haccess
        exact (Option.some.inj haccess).symm
      have hfound : level = found := by
        have hl : (second.findings.resolutionOf? d.id).bind (·.level?) = some level := hl
        rw [hlevel, hn.2.1] at hl
        exact (Option.some.inj hl).symm
      rw [hcurrent, hfound] at hlt
      exact absurd hlt (Nat.lt_irrefl _)
    · rintro ⟨-, hin⟩
      exact absurd hin hout
  · rw [hsame, Findings.Narrow, hlevel]
    exact ⟨fun hn => ⟨hn, hwithdrawn current level hn⟩, And.left⟩

/-- What could be narrowed once more is held by its contents once more. -/
theorem suggestions_adopt : second.suggestions = [] := by
  rw [List.eq_nil_iff_forall_not_mem]
  intro s hs
  obtain ⟨d', hd', current, level, hn', -, hfit⟩ := (h'.mem_suggestions_iff hw').mp hs
  obtain ⟨d, hd, rfl⟩ := Graph.mem_declarations_adopt.mp hd'
  obtain ⟨hn, hwithdrawn⟩ := (h.narrow_adopt_iff h' hw hw' serves serves' whole whole' hd).mp hn'
  obtain ⟨htype, hexceed⟩ := (h.mem_withdrawn_iff hw hd hn).mp hwithdrawn
  exact hfit htype ((h.exceed_adopt_iff h' hw hw' serves serves' whole whole' d.id level).mpr hexceed)

theorem mem_withdrawn_adopt_iff (id : String) : id ∈ second.withdrawn ↔ id ∈ report.withdrawn := by
  constructor
  · intro hid
    obtain ⟨d', hd', rfl, current, level, hn'⟩ := h'.exists_narrow_of_withdrawn hw' hid
    obtain ⟨d, hd, rfl⟩ := Graph.mem_declarations_adopt.mp hd'
    exact ((h.narrow_adopt_iff h' hw hw' serves serves' whole whole' hd).mp hn').2
  · intro hid
    obtain ⟨d, hd, rfl, current, level, hn⟩ := h.exists_narrow_of_withdrawn hw hid
    have hn' := (h.narrow_adopt_iff h' hw hw' serves serves' whole whole' hd).mpr ⟨hn, hid⟩
    obtain ⟨htype, hexceed⟩ := (h.mem_withdrawn_iff hw hd hn).mp hid
    have hexceed' := (h.exceed_adopt_iff h' hw hw' serves serves' whole whole' d.id level).mpr hexceed
    exact (h'.mem_withdrawn_iff hw' (List.mem_map_of_mem hd) hn').mpr ⟨htype, hexceed'⟩

end

end Config.Answers

/-- **Adopting the suggestions is final.** When all suggestions of a complete run over an accepted snapshot
are adopted, the snapshot is still acceptable, it can be analysed completely, and every complete run over it
suggests nothing and withdraws what the first one did. -/
theorem adoption_is_final {v : Option Json} {c : Codebase} (accepted : Snapshot.parse v = .ok c)
    {cfg : Config} {x : Disturbance} {discipline : Scans → Scans.Move → Prop} {report : Report}
    (answers : cfg.Answers c x discipline report) (serves : ∀ r, x.fails r = false)
    (whole : report.cancelled = false) :
    let adopted := c.adopt report.suggestions
    Snapshot.checkIntegrity adopted = .ok adopted ∧
      (Analysis.checkConcurrency cfg.concurrency = .ok () →
        ∃ run, cfg.analyze adopted .none {} = .ok run ∧ run.report.cancelled = false) ∧
      ∀ x' discipline' second, cfg.Answers adopted x' discipline' second → (∀ r, x'.fails r = false) →
        second.cancelled = false → second.suggestions = [] ∧ second.withdrawn = report.withdrawn := by
  intro adopted
  have hintegrity := Snapshot.checkIntegrity_adopt (Snapshot.checkIntegrity_of_parse accepted)
    report.suggestions
  have hw := Snapshot.wellFormed_of_parse accepted
  have hw' := Snapshot.wellFormed_of_checkIntegrity hintegrity
  refine ⟨hintegrity, fun positive => ?_, ?_⟩
  · exact ⟨_, Config.analyze_of_checkConcurrency positive adopted .none {},
      Analysis.isCancelled_progress (fun _ => rfl) adopted cfg.policy rfl⟩
  intro x' discipline' second answers' serves' whole'
  refine ⟨answers.suggestions_adopt answers' hw hw' serves serves' whole whole', ?_⟩
  have hsecond := answers'.sublist_withdrawn
  rw [show adopted.graph.ids = c.graph.ids from Graph.ids_adopt c.graph report.suggestions] at hsecond
  exact eq_of_mem_iff hw.uniqueIds hsecond answers.sublist_withdrawn
    (answers.mem_withdrawn_adopt_iff answers' hw hw' serves serves' whole whole')

/-- Where a field has become private and a functional type package-private, nothing else is suggested. -/
theorem adoption_of_two_suggestions :
    let report := Sample.run.report
    let second := (Sample.runOver (Sample.codebase.adopt report.suggestions) .none).report
    Snapshot.parse (some Sample.document) = .ok Sample.codebase ∧
      Sample.config.Answers Sample.codebase .none Scans.InTurn report ∧
      Sample.config.Answers (Sample.codebase.adopt report.suggestions) .none Scans.InTurn second ∧
      report.cancelled = false ∧ second.cancelled = false ∧
      report.suggestions =
        [.ofDeclaration Sample.field .pub .priv, .ofDeclaration Sample.functionalType .pub .pkg] ∧
      second.suggestions = [] ∧ second.withdrawn = ["A"] := by
  intro report second
  have answers' := Sample.answers_runOver (Sample.codebase.adopt report.suggestions) .none
  have whole' := Sample.cancelled_runOver (Sample.codebase.adopt report.suggestions)
  obtain ⟨-, -, hfinal⟩ := adoption_is_final Sample.parse_document Sample.answers_run (fun _ => rfl)
    (Sample.cancelled_runOver _)
  obtain ⟨hsuggestions, hwithdrawn⟩ := hfinal _ _ second answers' (fun _ => rfl) whole'
  exact ⟨Sample.parse_document, Sample.answers_run, answers', Sample.cancelled_runOver _, whole',
    Sample.suggestions_run, hsuggestions, hwithdrawn.trans Sample.withdrawn_run⟩

end LeastAccess
