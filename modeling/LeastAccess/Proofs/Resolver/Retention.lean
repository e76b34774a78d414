import LeastAccess.Config.Basic
import LeastAccess.Proofs.EntryPoint.Marks
import LeastAccess.Proofs.Resolver.Origin

/-!
# What keeps its level

`Policy.Retains` lists the reasons for which a declaration keeps its current level, each as a condition on
the codebase and on what was asked for. The resolver asks for them one after the other and names the first
that it finds, so a reason that it names is one that there is, and it looks for a new level exactly if there
is none. What it then finds is as broad as the floor of everything that marks the declaration an entry point.

* `SubclassingRule.forces_iff` — which methods a framework overrides
* `screenIn_cases` — what screening settles, and what it leaves to a scan
* `exactly_unconstrained_are_relevelled` — a level is looked for exactly if there is no reason against it
-/

namespace LeastAccess

/-! ## Reasons -/

/-- A framework that subclasses a type for its annotation overrides a method of it: any method, or one that
carries an annotation the framework looks for. -/
structure SubclassingRule.Overrides (rule : SubclassingRule) (container method : Declaration) : Prop where
  isType : container.isType = true
  isMethod : method.isMethod = true
  marked : container.Carries rule.marker
  wanted : ∀ annotations, rule.methodAnnotations = some annotations →
    ∃ annotation ∈ annotations, method.Carries annotation

/-- A declaration is directly in another one. -/
def Graph.IsIn (g : Graph) (d container : Declaration) : Prop :=
  container ∈ g.declarations ∧ d.containerId = some container.id

/-- What keeps a declaration at its current level. -/
def Policy.Retains (p : Policy) (c : Codebase) (d : Declaration) (m : Modifiers) : KeepReason → Prop
  | .privateOrNative => m.isPrivate = true ∨ m.isNative = true
  | .synthetic => d.isSynthetic = true ∨ d.isPhysical = false
  | .overrides => d.isMethod = true ∧ d.hasSuperSignature = true
  | .overridden => d.isMethod = true ∧ d.isOverridden = true
  | .enumConstant => d.kind = .enumConstant
  | .specialType => d.isType = true ∧ (d.isAnonymous = true ∨ d.isLocal = true ∨ d.isTypeParameter = true)
  | .fixedContainer => ∃ container, c.graph.IsIn d container ∧
      (container.typeKind = some .interface ∨ container.typeKind = some .enum ∨
        container.typeKind = some .annotationType ∨ container.isLocal = true)
  | .frameworkSubclassed => ∃ container, c.graph.IsIn d container ∧
      ∃ rule ∈ p.subclassing, rule.Overrides container d
  | .entryPoint => ∃ rule ∈ p.entryPoints, rule.Marks c.graph d none
  | .unused => c.sitesOf d = [] ∧ ∀ rule ∈ p.entryPoints, ∀ floor, ¬ rule.Marks c.graph d floor

section

variable {g : Graph} {c : Codebase} {p : Policy} {d container : Declaration} {m : Modifiers}
  {reason : KeepReason}

theorem Graph.isIn_iff (hu : g.UniqueIds) : g.IsIn d container ↔ d.containerId.bind g.find? = some container := by
  rw [Graph.IsIn, Option.bind_eq_some_iff]
  constructor
  · rintro ⟨hmem, hid⟩
    exact ⟨_, hid, Graph.find?_eq_some_of_mem hu hmem⟩
  · rintro ⟨id, hid, hfind⟩
    exact ⟨Graph.mem_of_find? hfind, by rw [Graph.find?_id hfind, hid]⟩

/-! ## Frameworks -/

theorem SubclassingRule.intercepts_iff {annotations : List String} :
    intercepts annotations d = true ↔ d.isMethod = true ∧ ∃ wanted ∈ annotations, d.Carries wanted := by
  unfold intercepts
  rw [Bool.and_eq_true, List.any_eq_true]
  simp only [Annotations.anyNamed_iff]

/-- Of the members of a type, those that a rule intercepts are forced. -/
theorem SubclassingRule.includes_forcedMembers_iff (hu : g.UniqueIds) (hd : d ∈ g.declarations)
    (hin : g.IsIn d container) {rule : SubclassingRule} {annotations : List String}
    (h : rule.methodAnnotations = some annotations) :
    (rule.forcedMembers g container).any (·.includes d.id) = true ↔ intercepts annotations d = true := by
  have hmem : d.id ∈ ((g.membersOf container.id).filter (intercepts annotations)).map (·.id) ↔
      intercepts annotations d = true := by
    rw [List.mem_map]
    constructor
    · rintro ⟨other, hother, hid⟩
      obtain ⟨hmember, hintercepts⟩ := List.mem_filter.mp hother
      have hdeclared : other ∈ g.declarations := (List.mem_filter.mp hmember).1
      rwa [Graph.eq_of_id_eq hu hdeclared hd hid] at hintercepts
    · intro hintercepts
      have hmember : d ∈ g.membersOf container.id := List.mem_filter.mpr ⟨hd, by simp [hin.2]⟩
      exact ⟨d, List.mem_filter.mpr ⟨hmember, hintercepts⟩, rfl⟩
  unfold forcedMembers
  rw [h]
  simp only []
  split
  · next hnil =>
    rw [hnil] at hmem
    simpa using hmem
  · show (List.eraseDups _).contains d.id = true ↔ _
    rw [List.contains_iff_mem, List.mem_eraseDups, hmem]

/-- A rule forces the methods that the framework overrides. -/
theorem SubclassingRule.forces_iff (hu : g.UniqueIds) (hd : d ∈ g.declarations)
    (hin : g.IsIn d container) (hmethod : d.isMethod = true) {rule : SubclassingRule} :
    rule.forces g container d.id = true ↔ rule.Overrides container d := by
  unfold forces appliesTo
  rw [Bool.and_eq_true, Bool.and_eq_true, Annotations.anyNamed_iff]
  cases hannotations : rule.methodAnnotations with
  | none =>
    -- without a list every method is forced
    have hall : rule.forcedMembers g container = some .all := by rw [forcedMembers, hannotations]
    rw [hall]
    constructor
    · rintro ⟨⟨htype, hmarked⟩, -⟩
      exact ⟨htype, hmethod, hmarked, by rw [hannotations]; exact nofun⟩
    · rintro ⟨htype, -, hmarked, -⟩
      exact ⟨⟨htype, hmarked⟩, rfl⟩
  | some annotations =>
    rw [includes_forcedMembers_iff hu hd hin hannotations, intercepts_iff]
    constructor
    · rintro ⟨⟨htype, hmarked⟩, -, hwanted⟩
      refine ⟨htype, hmethod, hmarked, fun wanted hsome => ?_⟩
      rw [hannotations] at hsome
      exact Option.some.inj hsome ▸ hwanted
    · rintro ⟨htype, -, hmarked, hwanted⟩
      exact ⟨⟨htype, hmarked⟩, hmethod, hwanted annotations hannotations⟩

/-! ## Reasons apart from usages -/

theorem retains_of_ownKeepReason? (h : ownKeepReason? d m = some reason) : p.Retains c d m reason := by
  unfold ownKeepReason? at h
  split_ifs at h with hprivate hsynthetic hsuper hoverridden henum hspecial
  all_goals cases h
  · show m.isPrivate = true ∨ m.isNative = true
    exact Bool.or_eq_true _ _ ▸ hprivate
  · show d.isSynthetic = true ∨ d.isPhysical = false
    rwa [Bool.or_eq_true, Bool.not_eq_true'] at hsynthetic
  · show d.isMethod = true ∧ d.hasSuperSignature = true
    rwa [Bool.and_eq_true] at hsuper
  · show d.isMethod = true ∧ d.isOverridden = true
    rwa [Bool.and_eq_true] at hoverridden
  · show d.kind = .enumConstant
    exact beq_iff_eq.mp henum
  · show d.isType = true ∧ (d.isAnonymous = true ∨ d.isLocal = true ∨ d.isTypeParameter = true)
    rwa [Bool.and_eq_true, Bool.or_eq_true, Bool.or_eq_true, or_assoc] at hspecial

/-- Where no reason lies in the declaration itself, all that are left lie around it or in its uses. -/
theorem of_ownKeepReason?_eq_none (h : ownKeepReason? d m = none) (hr : p.Retains c d m reason) :
    reason = .fixedContainer ∨ reason = .frameworkSubclassed ∨ reason = .entryPoint ∨ reason = .unused := by
  unfold ownKeepReason? at h
  split_ifs at h with hprivate hsynthetic hsuper hoverridden henum hspecial
  cases reason with
  | privateOrNative => exact absurd (by simpa [Policy.Retains] using hr) hprivate
  | synthetic => exact absurd (by simpa [Policy.Retains] using hr) hsynthetic
  | overrides => exact absurd (by simpa [Policy.Retains] using hr) hsuper
  | overridden => exact absurd (by simpa [Policy.Retains] using hr) hoverridden
  | enumConstant => exact absurd (beq_iff_eq.mpr hr) henum
  | specialType => exact absurd (by simpa [Policy.Retains, or_assoc] using hr) hspecial
  | fixedContainer => simp
  | frameworkSubclassed => simp
  | entryPoint => simp
  | unused => simp

theorem Declaration.fixesMembers_iff :
    container.fixesMembers = true ↔ container.typeKind = some .interface ∨ container.typeKind = some .enum ∨
      container.typeKind = some .annotationType ∨ container.isLocal = true := by
  unfold fixesMembers
  cases container.typeKind with
  | none => simp
  | some kind => cases kind <;> simp [TypeKind.fixesMembers]

section

variable (hu : c.graph.UniqueIds) (hd : d ∈ c.graph.declarations) (hin : c.graph.IsIn d container)

include hu in
/-- A declaration is directly in one declaration at most. -/
theorem Graph.IsIn.unique {other : Declaration} (hin : c.graph.IsIn d container)
    (h : c.graph.IsIn d other) : other = container := by
  rw [Graph.isIn_iff hu] at h hin
  exact Option.some.inj (h.symm.trans hin)

include hu hd hin

theorem isSome_forcingRule?_iff (hmethod : d.isMethod = true) :
    (p.forcingRule? c.graph d container).isSome = true ↔ ∃ rule ∈ p.subclassing, rule.Overrides container d := by
  unfold Policy.forcingRule?
  rw [List.find?_isSome]
  simp only [SubclassingRule.forces_iff hu hd hin hmethod]

theorem retains_of_containerKeepReason? (h : containerKeepReason? c.graph p d container = some reason) :
    p.Retains c d m reason := by
  unfold containerKeepReason? at h
  split_ifs at h with hfixes hforced
  all_goals cases h
  · exact ⟨container, hin, Declaration.fixesMembers_iff.mp hfixes⟩
  · rw [Bool.and_eq_true] at hforced
    exact ⟨container, hin, (isSome_forcingRule?_iff hu hd hin hforced.1).mp hforced.2⟩

/-- Where no reason lies in the container, there is none that names it. -/
theorem of_containerKeepReason?_eq_none (h : containerKeepReason? c.graph p d container = none) :
    ¬ p.Retains c d m .fixedContainer ∧ ¬ p.Retains c d m .frameworkSubclassed := by
  unfold containerKeepReason? at h
  split_ifs at h with hfixes hforced
  constructor
  · rintro ⟨other, hother, hr⟩
    rw [hin.unique hu hother] at hr
    exact hfixes (Declaration.fixesMembers_iff.mpr hr)
  · rintro ⟨other, hother, rule, hrule, hoverrides⟩
    rw [hin.unique hu hother] at hoverrides
    refine hforced (Bool.and_eq_true _ _ ▸ ⟨hoverrides.isMethod, ?_⟩)
    exact (isSome_forcingRule?_iff hu hd hin hoverrides.isMethod).mpr ⟨rule, hrule, hoverrides⟩

end

section

variable (hu : c.graph.UniqueIds) (hd : d ∈ c.graph.declarations)

include hu hd

theorem retains_of_keepReason?
    (h : keepReason? c.graph p d m (d.containerId.bind c.graph.find?) = some reason) :
    p.Retains c d m reason := by
  unfold keepReason? at h
  rcases Option.or_eq_some_iff.mp h with hown | ⟨-, haround⟩
  · exact retains_of_ownKeepReason? hown
  · obtain ⟨container, hcontainer, hreason⟩ := Option.bind_eq_some_iff.mp haround
    exact retains_of_containerKeepReason? hu hd ((Graph.isIn_iff hu).mpr hcontainer) hreason

/-- Where no reason has been found so far, only what is used and by whom can be one. -/
theorem of_keepReason?_eq_none
    (h : keepReason? c.graph p d m (d.containerId.bind c.graph.find?) = none)
    (hr : p.Retains c d m reason) : reason = .entryPoint ∨ reason = .unused := by
  unfold keepReason? at h
  obtain ⟨hown, haround⟩ := Option.or_eq_none_iff.mp h
  have hcontainer {container : Declaration} (hin : c.graph.IsIn d container) :
      ¬ p.Retains c d m .fixedContainer ∧ ¬ p.Retains c d m .frameworkSubclassed := by
    rw [(Graph.isIn_iff hu).mp hin, Option.bind_some] at haround
    exact of_containerKeepReason?_eq_none hu hd hin haround
  rcases of_ownKeepReason?_eq_none hown hr with rfl | rfl | h
  · obtain ⟨container, hin, -⟩ := id hr
    exact absurd hr (hcontainer hin).1
  · obtain ⟨container, hin, -⟩ := id hr
    exact absurd hr (hcontainer hin).2
  · exact h

/-- What is settled with a level is retained for a reason. What is scanned without a floor is not marked, and
is retained at most for being unused. What is scanned from a floor is not retained, and the floor is that of
the marks. -/
theorem screenIn_cases :
    (∃ reason, p.Retains c d m reason ∧
        screenIn c.graph p d m (d.containerId.bind c.graph.find?) = .settled (.kept m.access reason)) ∨
      ((∀ reason, p.Retains c d m reason → reason = .unused) ∧
        (∀ rule ∈ p.entryPoints, ∀ mark, ¬ rule.Marks c.graph d mark) ∧
        screenIn c.graph p d m (d.containerId.bind c.graph.find?) =
          .scan m.access (d.containerId.bind c.graph.find?) none) ∨
      (∀ reason, ¬ p.Retains c d m reason) ∧
        ∃ floor, (∀ rule ∈ p.entryPoints, ∀ mark, rule.Marks c.graph d (some mark) → mark ≤ floor) ∧
          screenIn c.graph p d m (d.containerId.bind c.graph.find?) =
            .scan m.access (d.containerId.bind c.graph.find?) (some floor) := by
  unfold screenIn
  cases hkeep : keepReason? c.graph p d m (d.containerId.bind c.graph.find?) with
  | some reason => exact Or.inl ⟨reason, retains_of_keepReason? hu hd hkeep, rfl⟩
  | none =>
    have hrest {reason : KeepReason} (hr : p.Retains c d m reason) : reason = .entryPoint ∨ reason = .unused :=
      of_keepReason?_eq_none hu hd hkeep hr
    by_cases hcovers : p.entryPoint.covers c.graph d = true
    · have hfloor := EntryPointRule.isFloor_floor? _ hcovers
      have hmarks {mark : Option Level} : p.entryPoint.Marks c.graph d mark ↔
          ∃ rule ∈ p.entryPoints, rule.Marks c.graph d mark := EntryPointRule.marks_anyOf_iff
      simp only [hcovers, if_true]
      cases hf : p.entryPoint.floor? c.graph d with
      | none => exact Or.inl ⟨.entryPoint, hmarks.mp (hfloor.eq_none_iff.mp hf), rfl⟩
      | some floor =>
        rw [hf] at hfloor
        refine Or.inr (Or.inr ⟨fun reason hr => ?_, floor, fun rule hrule mark hmark => ?_, rfl⟩)
        · rcases hrest hr with rfl | rfl
          · exact hfloor.1 (hmarks.mpr hr)
          · -- the floor itself is a mark
            obtain ⟨rule, hrule, hmark⟩ := hmarks.mp hfloor.2.1
            exact hr.2 rule hrule _ hmark
        · exact hfloor.le (hmarks.mpr ⟨rule, hrule, hmark⟩)
    · have hunmarked : ∀ rule ∈ p.entryPoints, ∀ mark, ¬ rule.Marks c.graph d mark := by
        intro rule hrule mark hmark
        exact hcovers ((EntryPointRule.covers_iff _).mpr ⟨mark, .anyOf hrule hmark⟩)
      refine Or.inr (Or.inl ⟨fun reason hr => (hrest hr).resolve_left ?_, hunmarked, if_neg hcovers⟩)
      rintro rfl
      obtain ⟨rule, hrule, hmark⟩ := hr
      exact hunmarked rule hrule none hmark

end

/-! ## What is answered -/

/-- The plain join takes effect, unless there is nothing to join. -/
theorem plainResolution_of_screen {access : Level} {container? : Option Declaration} {floor : Option Level}
    (h : screen c.graph p d = .scan access container? floor) :
    plainResolution c p d =
      if (c.sitesOf d).isEmpty && floor.isNone then .kept access .unused
      else .resolved (effectiveLevel p.options d container? (Level.join (floor.getD .priv)
        ((c.sitesOf d).map (siteLevel c.graph p.options d container?)))) (c.sitesOf d).length := by
  unfold plainResolution effectiveLevel
  rw [h]
  exact if_congr Iff.rfl rfl (apply_ite (Resolution.resolved · _) _ _ _).symm

/-- What there is to answer about a declaration with modifiers. -/
inductive Policy.Decides (p : Policy) (c : Codebase) (d : Declaration) (m : Modifiers) : Resolution → Prop
  /-- A constant that is not wanted. -/
  | excluded (unwanted : p.options.constants = false) (constant : d.isConstant m = true) :
      Decides p c d m .excluded
  | kept {reason : KeepReason} (included : ¬ (p.options.constants = false ∧ d.isConstant m = true))
      (retained : p.Retains c d m reason) : Decides p c d m (.kept m.access reason)
  /-- Nothing is in the way of another level. -/
  | resolved {level : Level} {sites : Nat}
      (included : ¬ (p.options.constants = false ∧ d.isConstant m = true))
      (free : ∀ reason, ¬ p.Retains c d m reason)
      (above : ∀ rule ∈ p.entryPoints, ∀ floor, rule.Marks c.graph d (some floor) → floor ≤ level) :
      Decides p c d m (.resolved level sites)

/-- The number of sites does not matter. -/
theorem Policy.Decides.of_verdict {r r' : Resolution} (h : p.Decides c d m r') (hv : r.verdict = r'.verdict) :
    p.Decides c d m r := by
  cases h with
  | excluded unwanted constant =>
    cases r <;> cases hv
    exact .excluded unwanted constant
  | kept included retained =>
    cases r <;> cases hv
    exact .kept included retained
  | resolved included free above =>
    cases r <;> cases hv
    exact .resolved included free above

section

variable (hw : c.graph.WellFormed) (hd : d ∈ c.graph.declarations) (hm : d.modifiers = some m)

include hw hd hm

/-- Screening excludes what is not wanted, and goes on with everything else. -/
theorem screen_of_wellFormed :
    screen c.graph p d = if !p.options.constants && d.isConstant m then .settled .excluded
      else screenIn c.graph p d m (d.containerId.bind c.graph.find?) := by
  unfold screen
  rw [hm]
  cases hid : d.containerId with
  | none => rfl
  | some id =>
    obtain ⟨container, hfind, -⟩ := hw.container_isType d hd id hid
    simp only [hfind, Option.bind_some]

/-- What is left to answer about a declaration is decided by its reasons, marks and usages. -/
theorem decides_plainResolution : p.Decides c d m (plainResolution c p d) := by
  have hscreen := screen_of_wellFormed (p := p) hw hd hm
  by_cases hexcluded : p.options.constants = false ∧ d.isConstant m = true
  · rw [if_pos (by simp [hexcluded])] at hscreen
    rw [plainResolution, hscreen]
    exact .excluded hexcluded.1 hexcluded.2
  rw [if_neg (by simpa using hexcluded)] at hscreen
  rcases screenIn_cases (p := p) (m := m) hw.uniqueIds hd with
    ⟨reason, hr, heq⟩ | ⟨hunused, hunmarked, heq⟩ | ⟨hfree, floor, hfloor, heq⟩
  · rw [plainResolution, hscreen, heq]
    exact .kept hexcluded hr
  · rw [plainResolution_of_screen (hscreen.trans heq)]
    by_cases hsites : c.sitesOf d = []
    · rw [if_pos (by simp [hsites])]
      exact .kept hexcluded ⟨hsites, hunmarked⟩
    · rw [if_neg (by simp [hsites])]
      refine .resolved hexcluded (fun reason hr => ?_) fun rule hrule mark hmark => ?_
      · obtain rfl := hunused reason hr
        exact hsites hr.1
      · exact absurd hmark (hunmarked rule hrule _)
  · rw [plainResolution_of_screen (hscreen.trans heq), if_neg (by simp)]
    refine .resolved hexcluded hfree fun rule hrule mark hmark => ?_
    exact Level.le_trans (hfloor rule hrule mark hmark)
      (Level.le_trans (Level.seed_le_join _ _) le_effectiveLevel)

end

end

/-- **Exactly the unconstrained declarations are re-levelled.** In an accepted snapshot, whatever was
configured, a declaration with modifiers that is resolved without a cancellation is excluded exactly if it is
a constant and constants are not wanted. Otherwise it is kept at its current level exactly if it is retained
for some reason, and then for such a reason. If there is none, it is resolved at a level as broad as every
floor of the entry point rules that mark it. -/
theorem exactly_unconstrained_are_relevelled {v : Option Json} {c : Codebase}
    (accepted : Snapshot.parse v = .ok c) (cfg : Config) {d : Declaration}
    (declared : d ∈ c.graph.declarations) {m : Modifiers} (hm : d.modifiers = some m) {x : Disturbance}
    (serves : ∀ r, x.fails r = false) (feed : Feed)
    (steady : (resolve c cfg.policy x d feed).feed.token.isCancelled = false) :
    let resolution := (resolve c cfg.policy x d feed).resolution
    (resolution = .excluded ↔ cfg.options.constants = false ∧
        d.kind = .field ∧ m.isStatic = true ∧ m.isFinal = true ∧ m.hasInitializer = true) ∧
      (resolution ≠ .excluded →
        ((∃ reason, resolution = .kept m.access reason) ↔ ∃ reason, cfg.policy.Retains c d m reason) ∧
          (∀ level reason, resolution = .kept level reason →
            level = m.access ∧ cfg.policy.Retains c d m reason) ∧
          ((∀ reason, ¬ cfg.policy.Retains c d m reason) →
            ∃ level sites, resolution = .resolved level sites ∧
              ∀ rule ∈ cfg.entryPoints, ∀ floor, rule.Marks c.graph d (some floor) → floor ≤ level)) := by
  intro resolution
  have hconstant : d.isConstant m = true ↔
      d.kind = .field ∧ m.isStatic = true ∧ m.isFinal = true ∧ m.hasInitializer = true := by
    simp [Declaration.isConstant, and_assoc]
  have hdecides : cfg.policy.Decides c d m resolution :=
    (decides_plainResolution (Snapshot.wellFormed_of_parse accepted) declared hm).of_verdict
      (verdict_resolve serves c cfg.policy d feed steady)
  rw [← hconstant]
  clear_value resolution
  cases hdecides with
  | excluded unwanted constant => exact ⟨iff_of_true rfl ⟨unwanted, constant⟩, fun h => absurd rfl h⟩
  | kept included retained =>
    refine ⟨iff_of_false (by simp) included, fun _ => ⟨iff_of_true ⟨_, rfl⟩ ⟨_, retained⟩, ?_, ?_⟩⟩
    · intro level reason heq
      cases heq
      exact ⟨rfl, retained⟩
    · exact fun free => absurd retained (free _)
  | resolved included free above =>
    refine ⟨iff_of_false (by simp) included, fun _ => ⟨?_, by simp, fun _ => ⟨_, _, rfl, above⟩⟩⟩
    exact iff_of_false (by simp) (not_exists.mpr free)

/-- A field that is used in its own type alone is not retained, under the usual choices. -/
theorem used_field_is_relevelled :
    let resolution := (resolve Sample.codebase ({} : Config).policy .none Sample.field {}).resolution
    Snapshot.parse (some Sample.document) = .ok Sample.codebase ∧
      Sample.field ∈ Sample.codebase.graph.declarations ∧
      Sample.field.modifiers = some { access := .pub } ∧ resolution = .resolved .priv 1 ∧
      ∀ reason, ¬ ({} : Config).policy.Retains Sample.codebase Sample.field { access := .pub } reason := by
  intro resolution
  have hmem : Sample.field ∈ Sample.codebase.graph.declarations := by decide +kernel
  have hresolution : resolution = .resolved .priv 1 := by decide +kernel
  have hsteady : (resolve Sample.codebase ({} : Config).policy .none Sample.field {}).feed.token.isCancelled =
      false := by decide +kernel
  obtain ⟨-, hincluded⟩ := exactly_unconstrained_are_relevelled Sample.parse_document {} hmem rfl
    (x := .none) (fun _ => rfl) {} hsteady
  obtain ⟨hkept, -, -⟩ := hincluded fun h => by cases hresolution.symm.trans h
  refine ⟨Sample.parse_document, hmem, rfl, hresolution, fun reason retained => ?_⟩
  obtain ⟨_, h⟩ := hkept.mpr ⟨reason, retained⟩
  cases hresolution.symm.trans h

end LeastAccess
