import LeastAccess.Proofs.Report.Agreement
import LeastAccess.Proofs.Reordering.Resolution
import LeastAccess.Proofs.Reordering.Snapshot
import LeastAccess.Proofs.Run.Containment

/-!
# The order of the input does not show

Complete runs over a snapshot and over the same snapshot in another order find the same about every
declaration, since the plain join does. So they narrow the same declarations and withdraw the same types,
and each lists them in the order of its own declarations.

* `Config.Answers.agree_reordered` — the same resolutions
* `order_of_input_does_not_show` — the whole reports, for every snapshot and every configuration
-/

namespace LeastAccess

/-! ## What is narrowed -/

namespace Findings

variable {g g' : Graph} {fs fs' : Findings} {d d' : Declaration}

/-- What narrows a declaration in one order narrows it in the other one. -/
theorem Narrow.reordered (ha : fs.Agree fs') (hr : d.Reordered d') {current level : Level}
    (hn : fs.Narrow d current level) : fs'.Narrow d' current level := by
  obtain ⟨haccess, hlevel, hlt⟩ := hn
  rw [ha.level?_eq, hr.id_eq] at hlevel
  obtain ⟨-, -⟩ := hr
  exact ⟨haccess, hlevel, hlt⟩

/-- What is too broad in a type in one order is too broad in it in the other one. -/
theorem Exceed.reordered (h : g.Reordered g') (hu : g.UniqueIds) (ha : fs.Agree fs') {id : String}
    {own : Level} (he : fs.Exceed g id own) : fs'.Exceed g' id own := by
  obtain ⟨member, hmember, hin, level, hlevel, hlt⟩ := he
  obtain ⟨member', hmember', hr⟩ := h.exists_right hu hmember
  have hcontribution : fs.contributionOf? member = fs'.contributionOf? member' := by
    rw [ha.contributionOf?_eq]
    obtain ⟨-, -⟩ := hr
    rfl
  rw [h.contains_iff hu, hr.id_eq] at hin
  exact ⟨member', hmember', hin, level, hcontribution ▸ hlevel, hlt⟩

end Findings

/-! ## Complete runs -/

/-- A complete run: the index serves every request, and nothing cancels the run. -/
structure Config.Completes (cfg : Config) (c : Codebase) (report : Report) : Prop where
  answers : ∃ x discipline, (∀ r, x.fails r = false) ∧ cfg.Answers c x discipline report
  whole : report.cancelled = false

/-- Two reports that say the same, the second one in the order of some ids. -/
structure Report.Reordered (order : List String) (report report' : Report) : Prop where
  /-- The resolutions differ at most in the number of sites that were looked at. -/
  resolutions : ∀ id ∈ order, ∃ r r', report.findings.resolutionOf? id = some r ∧
    report'.findings.resolutionOf? id = some r' ∧ r.verdict = r'.verdict
  suggestions : report.suggestions.Perm report'.suggestions
  withdrawn : report.withdrawn.Perm report'.withdrawn
  suggestions_inOrder : (report'.suggestions.map (·.declarationId)).Sublist order
  withdrawn_inOrder : report'.withdrawn.Sublist order

namespace Config.Answers

section

variable {cfg cfg' : Config} {c c' : Codebase} {x x' : Disturbance}
  {discipline discipline' : Scans → Scans.Move → Prop} {report report' : Report}
  (h : cfg.Answers c x discipline report) (h' : cfg'.Answers c' x' discipline' report')

include h h'

/-- The same is found about every declaration. -/
theorem agree_reordered (hcfg : cfg.Reordered cfg') (hc : c.Reordered c') (hw : c.graph.WellFormed)
    (serves : ∀ r, x.fails r = false) (serves' : ∀ r, x'.fails r = false) (whole : report.cancelled = false)
    (whole' : report'.cancelled = false) : report.findings.Agree report'.findings := by
  intro id
  have hu' := hc.graph.uniqueIds hw.uniqueIds
  have hmap := h.findings_match.map_resolutionOf? hw.uniqueIds (·.verdict)
    (fun d => (plainResolution c cfg.policy d).verdict) (fun f hf => h.verdict_eq serves whole hf) id
  have hmap' := h'.findings_match.map_resolutionOf? hu' (·.verdict)
    (fun d => (plainResolution c' cfg'.policy d).verdict) (fun f hf => h'.verdict_eq serves' whole' hf) id
  rw [hmap, hmap']
  rcases rel_cases (hc.graph.find? hw.uniqueIds id) with ⟨hf, hf'⟩ | ⟨d, d', hf, hf', hr⟩
  · rw [hf, hf']
    rfl
  · rw [hf, hf', Option.map_some, Option.map_some,
      plainResolution_reordered hc hw hcfg (Graph.mem_of_find? hf) (Graph.mem_of_find? hf') hr]

variable (hr : c.graph.Reordered c'.graph) (hw : c.graph.WellFormed)
  (ha : report.findings.Agree report'.findings)

include hr hw ha

theorem suggestions_subset : report.suggestions ⊆ report'.suggestions := by
  have hw' := hr.wellFormed hw
  intro s hs
  rw [h.mem_suggestions_iff hw] at hs
  rw [h'.mem_suggestions_iff hw']
  obtain ⟨d, hd, current, level, hn, rfl, hfit⟩ := hs
  obtain ⟨d', hd', hdd'⟩ := hr.exists_right hw.uniqueIds hd
  refine ⟨d', hd', current, level, hn.reordered ha hdd', ?_, fun htype hexceed => ?_⟩
  · obtain ⟨-, -⟩ := hdd'
    rfl
  · rw [← hdd'.isType_eq] at htype
    rw [← hdd'.id_eq] at hexceed
    exact hfit htype (hexceed.reordered hr.symm hw'.uniqueIds ha.symm)

theorem withdrawn_subset : report.withdrawn ⊆ report'.withdrawn := by
  have hw' := hr.wellFormed hw
  intro id hid
  obtain ⟨d, hd, rfl, current, level, hn⟩ := h.exists_narrow_of_withdrawn hw hid
  obtain ⟨d', hd', hdd'⟩ := hr.exists_right hw.uniqueIds hd
  obtain ⟨htype, hexceed⟩ := (h.mem_withdrawn_iff hw hd hn).mp hid
  rw [hdd'.id_eq, h'.mem_withdrawn_iff hw' hd' (hn.reordered ha hdd'), ← hdd'.isType_eq, ← hdd'.id_eq]
  exact ⟨htype, hexceed.reordered hr hw.uniqueIds ha⟩

end

end Config.Answers

section

variable {cfg cfg' : Config} {c c' : Codebase} {report report' : Report}

theorem Config.Completes.reordered (h : cfg.Completes c report) (h' : cfg'.Completes c' report')
    (hcfg : cfg.Reordered cfg') (hc : c.Reordered c') (hw : c.graph.WellFormed) :
    report.Reordered c'.graph.ids report' := by
  obtain ⟨⟨x, discipline, serves, answers⟩, whole⟩ := h
  obtain ⟨⟨x', discipline', serves', answers'⟩, whole'⟩ := h'
  have hw' := hc.graph.wellFormed hw
  have ha := answers.agree_reordered answers' hcfg hc hw serves serves' whole whole'
  have hsorted := answers.sublist_suggestions.nodup hw.uniqueIds
  have hsorted' := answers'.sublist_suggestions.nodup hw'.uniqueIds
  refine ⟨fun id hid => ?_, ?_, ?_, answers'.sublist_suggestions, answers'.sublist_withdrawn⟩
  · obtain ⟨d, hd, rfl⟩ := List.mem_map.mp hid
    obtain ⟨f, hf, rfl⟩ := answers'.findings_match.exists_mem hd
    have hfound := answers'.findings_match.resolutionOf?_of_mem hw'.uniqueIds hf
    rcases ha.cases f.declaration.id with ⟨-, hnone⟩ | hsome
    · rw [hfound] at hnone
      cases hnone
    · exact hsome
  · refine (List.perm_ext_iff_of_nodup (.of_map _ hsorted) (.of_map _ hsorted')).mpr fun s => ⟨?_, ?_⟩
    · exact fun hs => answers.suggestions_subset answers' hc.graph hw ha hs
    · exact fun hs => answers'.suggestions_subset answers hc.graph.symm hw' ha.symm hs
  · refine (List.perm_ext_iff_of_nodup (answers.sublist_withdrawn.nodup hw.uniqueIds)
      (answers'.sublist_withdrawn.nodup hw'.uniqueIds)).mpr fun id => ⟨?_, ?_⟩
    · exact fun hid => answers.withdrawn_subset answers' hc.graph hw ha hid
    · exact fun hid => answers'.withdrawn_subset answers hc.graph.symm hw' ha.symm hid

/-- A run to which nothing happens is complete. -/
theorem Config.exists_completes (setup : Analysis.checkConcurrency cfg.concurrency = .ok ()) (c : Codebase) :
    ∃ run, cfg.analyze c .none {} = .ok run ∧ cfg.Completes c run.report := by
  have hrun := Config.analyze_of_checkConcurrency setup c .none {}
  refine ⟨_, hrun, ⟨.none, Scans.InTurn, fun _ => rfl, .executed hrun⟩, ?_⟩
  exact Analysis.isCancelled_progress (fun _ => rfl) c cfg.policy rfl

end

/-- **The order of the input does not show.** Permute, in an accepted snapshot, the declarations, the
annotations and super types of any declaration, the keys of usages and functional usages, and the sites under
any key; permute the annotations of entry points and the subclassing rules that are configured. The other
snapshot is accepted as well, it can be analysed completely, and every complete run over it gives each
declaration the same resolution, up to the number of sites, as every complete run over the first one. The
suggestions and the withdrawn types are the same, in the order of the other snapshot's declarations. -/
theorem order_of_input_does_not_show {v v' : Json} {c : Codebase}
    (accepted : Snapshot.parse (some v) = .ok c) (snapshot : Snapshot.Reordered v v') {cfg cfg' : Config}
    (configured : cfg.Reordered cfg') :
    ∃ c', Snapshot.parse (some v') = .ok c' ∧ c.graph.ids.Perm c'.graph.ids ∧
      (Analysis.checkConcurrency cfg.concurrency = .ok () →
        (∃ run, cfg.analyze c .none {} = .ok run ∧ cfg.Completes c run.report) ∧
          ∃ run', cfg'.analyze c' .none {} = .ok run' ∧ cfg'.Completes c' run'.report) ∧
      ∀ report report', cfg.Completes c report → cfg'.Completes c' report' →
        report.Reordered c'.graph.ids report' := by
  obtain ⟨c', haccepted, hc⟩ := Snapshot.parse_reordered snapshot accepted
  have hconcurrency : cfg.concurrency = cfg'.concurrency := by
    obtain ⟨-, -⟩ := configured
    rfl
  refine ⟨c', haccepted, hc.graph.perm_ids, fun setup => ⟨Config.exists_completes setup c, ?_⟩, ?_⟩
  · rw [hconcurrency] at setup
    exact Config.exists_completes setup c'
  · intro report report' h h'
    exact h.reordered h' configured hc (Snapshot.wellFormed_of_parse accepted)

/-! ## A snapshot in two orders -/

namespace Sample

def snapshotOf (declarations : List Json) (usages : List (String × Json)) : Json :=
  .object [("version", .number .one), ("declarations", .list declarations), ("usages", .object usages)]

def classDocument (id : String) (more : List (String × Json)) : Json :=
  entry id id "type" "public" (("typeKind", .text "class") :: more)

/-- A class that extends two others. -/
def heirDocument (annotations superTypeIds : List Json) : Json :=
  classDocument "C" [("annotations", .list annotations), ("superTypeIds", .list superTypeIds)]

/-- A field of the first of these classes. -/
def memberDocument : Json := entry "A.f" "f" "field" "public" [("containerId", .text "A")]

/-- Where the field is used: in the class that extends the first one, in another package, and in the package. -/
def inHeir : Json := .object [("file", .text "Main.java"), ("package", .text "q"), ("enclosingTypeId", .text "C"),
  ("qualifier", .object [("form", .text "expression")])]

def inPackage : Json := .object [("file", .text "Main.java"), ("package", .text "p")]

def familyDocument : Json :=
  snapshotOf [classDocument "A" [], memberDocument, classDocument "B" [],
      heirDocument [.text "One", .text "Other"] [.text "B", .text "A"]]
    [("A", .list [inPackage]), ("A.f", .list [inHeir, inPackage]), ("B", .list [inPackage]),
      ("C", .list [inPackage])]

/-- The same in another order. -/
def shuffledDocument : Json :=
  snapshotOf [heirDocument [.text "Other", .text "One"] [.text "A", .text "B"], classDocument "B" [],
      memberDocument, classDocument "A" []]
    [("C", .list [inPackage]), ("B", .list [inPackage]), ("A.f", .list [inPackage, inHeir]),
      ("A", .list [inPackage])]

def classNamed (id : String) : Declaration := { declared id id .type "p" with typeKind := some .cls }

def heir : Declaration :=
  { classNamed "C" with annotations := ["One", "Other"], superTypeIds := ["B", "A"] }

def family : Codebase :=
  let inPackage : UsageSite := { file := "Main.java", packageName := "p" }
  let inHeir : UsageSite :=
    { file := "Main.java", packageName := "q", enclosingTypeId := some "C", qualifier := .expression none }
  { graph :=
      ⟨[classNamed "A", { declared "A.f" "f" .field "p" with containerId := some "A" }, classNamed "B", heir]⟩
    usages :=
      { ordinary :=
          [("A", [inPackage]), ("A.f", [inHeir, inPackage]), ("B", [inPackage]), ("C", [inPackage])] } }

theorem parse_familyDocument : Snapshot.parse (some familyDocument) = .ok family :=
  Snapshot.parse_of_toOption (by decide +kernel)

theorem typesInnermostFirst_family :
    family.graph.typesInnermostFirst = family.graph.declarations.filter (·.isType) :=
  Graph.typesInnermostFirst_of_pairwise (by decide)

theorem suggestions_family : (runOver family .none).report.suggestions =
    [.ofDeclaration (classNamed "B") .pub .pkg, .ofDeclaration heir .pub .pkg] := by
  rw [runOver, Analysis.report_run_one, Report.ofFindings, withdraw, typesInnermostFirst_family]
  decide +kernel

/-- The first class stays public for its field. -/
theorem withdrawn_family : (runOver family .none).report.withdrawn = ["A"] := by
  rw [runOver, Analysis.report_run_one, Report.ofFindings, withdraw, typesInnermostFirst_family]
  decide +kernel

theorem itemwise_pair (a b : Json) : Json.Itemwise (· = ·) (.list [a, b]) (.list [b, a]) :=
  .list (.of_perm (.swap b a []))

theorem keywise_heirDocument :
    Json.Keywise Snapshot.DeclarationPart (heirDocument [.text "One", .text "Other"] [.text "B", .text "A"])
      (heirDocument [.text "Other", .text "One"] [.text "A", .text "B"]) := by
  have hmembers : List.Forall₂ (fun m m' => m.1 = m'.1 ∧ Snapshot.DeclarationPart m.1 m.2 m'.2)
      (heirDocument [.text "One", .text "Other"] [.text "B", .text "A"]).members
      (heirDocument [.text "Other", .text "One"] [.text "A", .text "B"]).members := by
    -- what stands before the two lists is the same
    repeat' refine .cons ⟨rfl, Snapshot.declarationPart_refl _ _⟩ ?_
    exact .cons ⟨rfl, itemwise_pair _ _⟩ (.cons ⟨rfl, itemwise_pair _ _⟩ .nil)
  exact .of_shuffled ⟨_, hmembers, .refl _⟩ (by decide)

theorem reordered_familyDocument : Snapshot.Reordered familyDocument shuffledDocument := by
  have hdeclarations : List.Forall₂ (Json.Keywise Snapshot.DeclarationPart)
      [classDocument "A" [], memberDocument, classDocument "B" [],
        heirDocument [.text "One", .text "Other"] [.text "B", .text "A"]]
      [classDocument "A" [], memberDocument, classDocument "B" [],
        heirDocument [.text "Other", .text "One"] [.text "A", .text "B"]] :=
    .cons (.same _) (.cons (.same _) (.cons (.same _) (.cons keywise_heirDocument .nil)))
  have husages : List.Forall₂ (fun m m' => m.1 = m'.1 ∧ Json.Itemwise (· = ·) m.2 m'.2)
      [("A", .list [inPackage]), ("A.f", .list [inHeir, inPackage]), ("B", .list [inPackage]),
        ("C", .list [inPackage])]
      [("A", .list [inPackage]), ("A.f", .list [inPackage, inHeir]), ("B", .list [inPackage]),
        ("C", .list [inPackage])] :=
    .cons ⟨rfl, .same _⟩ (.cons ⟨rfl, itemwise_pair _ _⟩ (.cons ⟨rfl, .same _⟩ (.cons ⟨rfl, .same _⟩ .nil)))
  have hparts : List.Forall₂ (fun m m' => m.1 = m'.1 ∧ Snapshot.Part m.1 m.2 m'.2)
      familyDocument.members shuffledDocument.members :=
    .cons ⟨rfl, Snapshot.part_refl _ _⟩
      (.cons ⟨rfl, .list ⟨_, hdeclarations, (List.reverse_perm _).symm⟩⟩
        (.cons ⟨rfl, .of_shuffled ⟨_, husages, (List.reverse_perm _).symm⟩ (by decide)⟩ .nil))
  exact .of_shuffled ⟨_, hparts, .refl _⟩ (by decide)

end Sample

/-- A run over the other order finds the same suggestions. -/
theorem family_in_another_order :
    let cfg' : Config := { Sample.config with annotations := EntryPointMarker.usual.reverse }
    Snapshot.parse (some Sample.familyDocument) = .ok Sample.family ∧
      Snapshot.Reordered Sample.familyDocument Sample.shuffledDocument ∧ Sample.config.Reordered cfg' ∧
      ∃ c', Snapshot.parse (some Sample.shuffledDocument) = .ok c' ∧
        ∃ run, cfg'.analyze c' .none {} = .ok run ∧
          [.ofDeclaration (Sample.classNamed "B") .pub .pkg, .ofDeclaration Sample.heir .pub .pkg].Perm
            run.report.suggestions ∧
          run.report.withdrawn = ["A"] := by
  intro cfg'
  have hcfg : Sample.config.Reordered cfg' := ⟨(List.reverse_perm _).symm, .refl _⟩
  obtain ⟨c', haccepted, -, hcomplete, hsame⟩ :=
    order_of_input_does_not_show Sample.parse_familyDocument Sample.reordered_familyDocument hcfg
  obtain ⟨⟨run, hrun, hwhole⟩, run', hrun', hwhole'⟩ := hcomplete Analysis.checkConcurrency_one
  have hreordered := hsame run.report run'.report hwhole hwhole'
  cases hrun.symm.trans (Sample.analyze_eq_runOver Sample.family .none)
  refine ⟨Sample.parse_familyDocument, Sample.reordered_familyDocument, hcfg, c', haccepted, run', hrun', ?_, ?_⟩
  · rw [← Sample.suggestions_family]
    exact hreordered.suggestions
  · have hwithdrawn := hreordered.withdrawn
    rw [Sample.withdrawn_family] at hwithdrawn
    exact List.perm_singleton.mp hwithdrawn.symm

end LeastAccess
