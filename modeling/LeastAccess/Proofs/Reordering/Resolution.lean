import LeastAccess.Proofs.Reordering.Graph
import LeastAccess.Proofs.Resolver.Retention

/-!
# Resolving in another order

No rule looks at the place of anything in a list. What a usage requires goes by look-ups, enclosure and
inheritance. Whether a rule covers a declaration, at what floor, and whether a framework overrides it goes by
what the lists hold. A join goes by what is joined. So the plain join finds the same, in whatever order
declarations, their annotations and super types, usage sites and rules are listed.

* `siteLevel_reordered` — what a usage requires
* `screen_reordered` — what needs no usages
* `plainResolution_reordered` — what is found
-/

namespace LeastAccess

/-- The same choices with the annotations of entry points and the subclassing rules in some other order. -/
inductive Config.Reordered (cfg : Config) : Config → Prop
  | intro {annotations : List EntryPointMarker} {subclassing : List SubclassingRule}
      (hannotations : cfg.annotations.Perm annotations) (hsubclassing : cfg.subclassing.Perm subclassing) :
      Reordered cfg { cfg with annotations, subclassing }

section

variable {g g' : Graph} (h : g.Reordered g') (hw : g.WellFormed)

include h hw

/-! ## What a usage requires -/

section

variable {member member' : Declaration} (hmember : member.Reordered member')

namespace UsageSite

variable (site : UsageSite) {container container' : Declaration} (hcontainer : container.Reordered container')

theorem enclosing?_reordered :
    Option.Rel Declaration.Reordered (site.enclosing? g) (site.enclosing? g') := by
  rw [enclosing?, enclosing?]
  cases site.enclosingTypeId with
  | none => exact .none
  | some id => exact h.find? hw.uniqueIds id

theorem qualifierPackage?_reordered : site.qualifierPackage? g = site.qualifierPackage? g' := by
  rw [qualifierPackage?, qualifierPackage?]
  cases site.qualifier.typeId? with
  | none => rfl
  | some id =>
    rw [Option.bind_some, Option.bind_some]
    rcases rel_cases (h.find? hw.uniqueIds id) with ⟨hf, hf'⟩ | ⟨d, d', hf, hf', hr⟩
    · rw [hf, hf']
    · obtain ⟨-, -⟩ := hr
      rw [hf, hf']
      rfl

include hmember in
theorem isInPackageOf_reordered : site.isInPackageOf g member = site.isInPackageOf g' member' := by
  obtain ⟨-, -⟩ := hmember
  rw [isInPackageOf, isInPackageOf, qualifierPackage?_reordered h hw]

include hcontainer

theorem isOnSubtype_reordered : site.isOnSubtype g container = site.isOnSubtype g' container' := by
  simp only [isOnSubtype, h.inherits_eq hw.uniqueIds, hcontainer.id_eq]

theorem isInNest_reordered : site.isInNest g container = site.isInNest g' container' := by
  rw [isInNest, isInNest]
  rcases rel_cases (site.enclosing?_reordered h hw) with ⟨he, he'⟩ | ⟨d, d', he, he', hr⟩
  · rw [he, he']
    rfl
  · obtain ⟨-, -⟩ := hr
    rw [he, he']
    simp only [Option.any_some, isLocalAccess, h.encloses_eq hw.uniqueIds hw.acyclic, hcontainer.id_eq]
    rfl

theorem isInSubtype_reordered : site.isInSubtype g container = site.isInSubtype g' container' := by
  rw [isInSubtype, isInSubtype]
  rcases rel_cases (site.enclosing?_reordered h hw) with ⟨he, he'⟩ | ⟨d, d', he, he', hr⟩
  · rw [he, he']
    rfl
  · rw [he, he']
    simp only [Option.any_some, h.inherits_eq hw.uniqueIds, hr.id_eq, hcontainer.id_eq]

end UsageSite

variable (o : Options) (site : UsageSite)

include hmember

theorem localLevel_reordered {container container' : Declaration}
    (hcontainer : container.Reordered container') :
    localLevel g o site member container = localLevel g' o site member' container' := by
  have hsubtype := site.isOnSubtype_reordered h hw hcontainer
  obtain ⟨-, -⟩ := hmember
  rw [localLevel, hsubtype, localLevel]
  obtain ⟨-, -⟩ := hcontainer
  rfl

variable {container container' : Option Declaration}
  (hcontainer : Option.Rel Declaration.Reordered container container')

include hcontainer

theorem outsideLevel_reordered :
    outsideLevel g o site member container = outsideLevel g' o site member' container' := by
  have hsubtype : container.any (site.isInSubtype g) = container'.any (site.isInSubtype g') := by
    cases hcontainer with
    | none => rfl
    | some hr => exact site.isInSubtype_reordered h hw hr
  rw [outsideLevel, site.isInPackageOf_reordered h hw hmember, hsubtype, outsideLevel]
  obtain ⟨-, -⟩ := hmember
  rfl

theorem requiredLevel_reordered :
    requiredLevel g o site member container = requiredLevel g' o site member' container' := by
  have houtside := outsideLevel_reordered h hw hmember o site hcontainer
  cases hcontainer with
  | none => simp only [requiredLevel, houtside]
  | some hr =>
    simp only [requiredLevel, houtside, site.isInNest_reordered h hw hr,
      localLevel_reordered h hw hmember o site hr]

theorem siteLevel_reordered :
    siteLevel g o member container site = siteLevel g' o member' container' site := by
  rw [siteLevel, siteLevel, requiredLevel_reordered h hw hmember o site hcontainer]

end

/-! ## Marks and frameworks -/

section

variable {cfg cfg' : Config} (hcfg : cfg.Reordered cfg') {d d' : Declaration} (hr : d.Reordered d')

omit h hw in
theorem Declaration.Reordered.carries_iff {name : String} (hr : d.Reordered d') :
    d.Carries name ↔ d'.Carries name := by
  obtain ⟨hannotations, -⟩ := hr
  exact exists_congr fun actual => and_congr_left' hannotations.mem_iff

include hr in
theorem isMainMethod_reordered :
    EntryPointRule.isMainMethod g d = EntryPointRule.isMainMethod g' d' := by
  obtain ⟨-, -⟩ := hr
  have htop (id : String) :
      (g.find? id).any (·.containerId.isNone) = (g'.find? id).any (·.containerId.isNone) := by
    rcases rel_cases (h.find? hw.uniqueIds id) with ⟨hf, hf'⟩ | ⟨e, e', hf, hf', ⟨-, -⟩⟩
    · rw [hf, hf']
    · rw [hf, hf']
      rfl
  simp only [EntryPointRule.isMainMethod, htop]
  rfl

omit h hw in
/-- The rules of both configurations mark the same. -/
theorem Config.Reordered.marks_iff (hcfg : cfg.Reordered cfg') {floor : Option Level} :
    cfg.policy.entryPoint.Marks g d floor ↔ cfg'.policy.entryPoint.Marks g d floor := by
  obtain ⟨hannotations, -⟩ := hcfg
  have hannotated : ∀ l l' : List EntryPointMarker, l.Perm l' →
      (EntryPointRule.annotated l).Marks g d floor → (EntryPointRule.annotated l').Marks g d floor := by
    intro l l' hperm hmark
    obtain ⟨marker, hmem, hrest⟩ := EntryPointRule.marks_annotated_iff.mp hmark
    exact EntryPointRule.marks_annotated_iff.mpr ⟨marker, hperm.mem_iff.mp hmem, hrest⟩
  simp only [Policy.entryPoint, Config.policy, Config.entryPoints, EntryPointRule.marks_anyOf_iff,
    List.exists_mem_cons_iff]
  exact or_congr ⟨hannotated _ _ hannotations, hannotated _ _ hannotations.symm⟩ Iff.rfl

include hr hcfg in
/-- A declaration has the same marks in both orders. -/
theorem marks_reordered (floor : Option Level) :
    cfg.policy.entryPoint.Marks g d floor ↔ cfg'.policy.entryPoint.Marks g' d' floor := by
  have hmain := isMainMethod_reordered h hw hr
  rw [hcfg.marks_iff]
  exact ⟨.of_carries (fun _ => hr.carries_iff.mp) fun hd => hmain ▸ hd,
    .of_carries (fun _ => hr.carries_iff.mpr) fun hd => hmain ▸ hd⟩

omit h hw in
theorem SubclassingRule.Overrides.reordered {rule : SubclassingRule} {container container' : Declaration}
    (ho : rule.Overrides container d) (hcontainer : container.Reordered container') (hr : d.Reordered d') :
    rule.Overrides container' d' where
  isType := hcontainer.isType_eq ▸ ho.isType
  isMethod := hr.isMethod_eq ▸ ho.isMethod
  marked := hcontainer.carries_iff.mp ho.marked
  wanted := fun annotations hannotations => by
    obtain ⟨name, hmem, hcarries⟩ := ho.wanted annotations hannotations
    exact ⟨name, hmem, hr.carries_iff.mp hcarries⟩

end

end

/-! ## What needs no usages -/

/-- What screening answers about a declaration, in two orders: its container is the same declaration. -/
inductive Screening.Reordered : Screening → Screening → Prop
  | settled (resolution : Resolution) : Reordered (.settled resolution) (.settled resolution)
  | scan {container container' : Option Declaration} (access : Level) (floor : Option Level)
      (hcontainer : Option.Rel Declaration.Reordered container container') :
      Reordered (.scan access container floor) (.scan access container' floor)

section

variable {c c' : Codebase} (h : c.graph.Reordered c'.graph) (hw : c.graph.WellFormed) {cfg cfg' : Config}
  (hcfg : cfg.Reordered cfg') {d d' : Declaration} (hd : d ∈ c.graph.declarations)
  (hd' : d' ∈ c'.graph.declarations) (hr : d.Reordered d')

include h hw hcfg hd hd' hr

/-- A framework forces the same methods. -/
theorem isSome_forcingRule?_reordered {container container' : Declaration}
    (hcontainer : container.Reordered container') (hin : c.graph.IsIn d container)
    (hin' : c'.graph.IsIn d' container') (hmethod : d.isMethod = true) :
    (cfg.policy.forcingRule? c.graph d container).isSome =
      (cfg'.policy.forcingRule? c'.graph d' container').isSome := by
  rw [Bool.eq_iff_iff, isSome_forcingRule?_iff hw.uniqueIds hd hin hmethod,
    isSome_forcingRule?_iff (h.uniqueIds hw.uniqueIds) hd' hin' (hr.isMethod_eq ▸ hmethod)]
  obtain ⟨-, hsubclassing⟩ := hcfg
  constructor
  · rintro ⟨rule, hmem, ho⟩
    exact ⟨rule, hsubclassing.mem_iff.mp hmem, ho.reordered hcontainer hr⟩
  · rintro ⟨rule, hmem, ho⟩
    exact ⟨rule, hsubclassing.mem_iff.mpr hmem, ho.reordered hcontainer.symm hr.symm⟩

theorem keepReason?_reordered (m : Modifiers) :
    keepReason? c.graph cfg.policy d m (d.containerId.bind c.graph.find?) =
      keepReason? c'.graph cfg'.policy d' m (d'.containerId.bind c'.graph.find?) := by
  have hown : ownKeepReason? d m = ownKeepReason? d' m := by
    obtain ⟨-, -⟩ := hr
    rfl
  rw [keepReason?, keepReason?, hown]
  congr 1
  rcases rel_cases (h.rel_container hw.uniqueIds hr) with
    ⟨hc, hc'⟩ | ⟨container, container', hc, hc', hcontainer⟩
  · rw [hc, hc']
    rfl
  · rw [hc, hc', Option.bind_some, Option.bind_some, containerKeepReason?, containerKeepReason?]
    have hin := (Graph.isIn_iff hw.uniqueIds).mpr hc
    have hin' := (Graph.isIn_iff (h.uniqueIds hw.uniqueIds)).mpr hc'
    have hfixes : container.fixesMembers = container'.fixesMembers := by
      obtain ⟨-, -⟩ := hcontainer
      rfl
    have hforced : (d.isMethod && (cfg.policy.forcingRule? c.graph d container).isSome) =
        (d'.isMethod && (cfg'.policy.forcingRule? c'.graph d' container').isSome) := by
      rw [← hr.isMethod_eq]
      cases hmethod : d.isMethod with
      | false => rfl
      | true => rw [isSome_forcingRule?_reordered h hw hcfg hd hd' hr hcontainer hin hin' hmethod]
    rw [hfixes, hforced]

theorem screenIn_reordered (m : Modifiers) :
    (screenIn c.graph cfg.policy d m (d.containerId.bind c.graph.find?)).Reordered
      (screenIn c'.graph cfg'.policy d' m (d'.containerId.bind c'.graph.find?)) := by
  have hmarks := marks_reordered h hw hcfg hr
  rw [screenIn, screenIn, keepReason?_reordered h hw hcfg hd hd' hr]
  cases keepReason? c'.graph cfg'.policy d' m (d'.containerId.bind c'.graph.find?) with
  | some reason => exact .settled _
  | none =>
    simp only []
    rw [← EntryPointRule.covers_eq_of_marks hmarks]
    split
    · next hcovers =>
      rw [← EntryPointRule.floor?_eq_of_marks hmarks hcovers]
      cases cfg.policy.entryPoint.floor? c.graph d with
      | none => exact .settled _
      | some floor => exact .scan m.access (some floor) (h.rel_container hw.uniqueIds hr)
    · exact .scan m.access none (h.rel_container hw.uniqueIds hr)

theorem screen_reordered :
    (screen c.graph cfg.policy d).Reordered (screen c'.graph cfg'.policy d') := by
  have hmodifiers : d.modifiers = d'.modifiers := by
    obtain ⟨-, -⟩ := hr
    rfl
  cases hm : d.modifiers with
  | none =>
    rw [hm] at hmodifiers
    rw [screen, hm, screen, ← hmodifiers]
    exact .settled _
  | some m =>
    have hexcluded : (!cfg.policy.options.constants && d.isConstant m) =
        (!cfg'.policy.options.constants && d'.isConstant m) := by
      obtain ⟨-, -⟩ := hcfg
      obtain ⟨-, -⟩ := hr
      rfl
    rw [screen_of_wellFormed hw hd hm, screen_of_wellFormed (h.wellFormed hw) hd' (hmodifiers ▸ hm), hexcluded]
    split
    · exact .settled _
    · exact screenIn_reordered h hw hcfg hd hd' hr m

end

/-! ## What is found -/

section

variable {c c' : Codebase} (h : c.Reordered c')

include h

theorem perm_sitesOf {d d' : Declaration} (hr : d.Reordered d') : (c.sitesOf d).Perm (c'.sitesOf d') := by
  have hfunctional : (d.isType && d.isFunctional) = (d'.isType && d'.isFunctional) := by
    obtain ⟨-, -⟩ := hr
    rfl
  rw [Codebase.sitesOf, Codebase.sitesOf, hfunctional, hr.id_eq]
  refine (h.perm_sites .ordinary d'.id).append ?_
  split
  · exact h.perm_sites .functional d'.id
  · exact .refl _

/-- **The plain join finds the same in every order.** -/
theorem plainResolution_reordered (hw : c.graph.WellFormed) {cfg cfg' : Config} (hcfg : cfg.Reordered cfg')
    {d d' : Declaration} (hd : d ∈ c.graph.declarations) (hd' : d' ∈ c'.graph.declarations)
    (hr : d.Reordered d') : plainResolution c cfg.policy d = plainResolution c' cfg'.policy d' := by
  have hscreen := screen_reordered h.graph hw hcfg hd hd' hr
  cases hs : screen c.graph cfg.policy d with
  | settled resolution =>
    rw [hs] at hscreen
    generalize hs' : screen c'.graph cfg'.policy d' = screening' at hscreen
    cases hscreen
    rw [plainResolution, hs, plainResolution, hs']
  | scan access container floor =>
    rw [hs] at hscreen
    generalize hs' : screen c'.graph cfg'.policy d' = screening' at hscreen
    cases hscreen with
    | @scan _ container' _ _ hcontainer =>
    have hsites := perm_sitesOf h hr
    have hoptions : cfg.policy.options = cfg'.policy.options := by
      obtain ⟨-, -⟩ := hcfg
      rfl
    -- the same levels are joined, in another order
    have hlevels : siteLevel c.graph cfg.policy.options d container =
        siteLevel c'.graph cfg'.policy.options d' container' := by
      funext site
      rw [hoptions]
      exact siteLevel_reordered h.graph hw hr _ site hcontainer
    have hjoin (seed : Level) : Level.join seed
          ((c.sitesOf d).map (siteLevel c.graph cfg.policy.options d container)) =
        Level.join seed ((c'.sitesOf d').map (siteLevel c'.graph cfg'.policy.options d' container')) := by
      rw [hlevels]
      exact Level.join_perm (hsites.map _)
    have heffective (joined : Level) : effectiveLevel cfg.policy.options d container joined =
        effectiveLevel cfg'.policy.options d' container' joined := by
      rw [effectiveLevel, effectiveLevel, hoptions]
      obtain ⟨-, -⟩ := hr
      cases hcontainer with
      | none => rfl
      | some => rfl
    rw [plainResolution_of_screen hs, plainResolution_of_screen hs', hjoin, heffective, hsites.isEmpty_eq,
      hsites.length_eq]

end

end LeastAccess
