import LeastAccess.Proofs.Adoption.Graph
import LeastAccess.Proofs.Resolver.PlainJoin

/-!
# Resolving after the adoption of suggestions

No rule reads the level of another declaration, so what is found about a declaration stays the same when
others adopt suggestions. A declaration that adopts a level that was found for it is found to do with just
that level again: it keeps private access, and any other level is joined from the same usages as before.

* `plainResolution_adopt` — when others adopt suggestions
* `level?_plainResolution_withAccess` — when the declaration itself adopts one
-/

namespace LeastAccess

variable (g : Graph) (suggestions : List Suggestion)

/-! ## What a usage requires -/

section

variable (o : Options) (site : UsageSite) (member container : Declaration)

namespace UsageSite

@[simp] theorem enclosing?_adopt :
    site.enclosing? (g.adopt suggestions) = (site.enclosing? g).map (·.adopt suggestions) := by
  rw [enclosing?, enclosing?]
  cases site.enclosingTypeId <;> simp

@[simp] theorem qualifierPackage?_adopt :
    site.qualifierPackage? (g.adopt suggestions) = site.qualifierPackage? g := by
  rw [qualifierPackage?, qualifierPackage?]
  cases site.qualifier.typeId? <;> simp [Function.comp_def]

@[simp] theorem isOnSubtype_adopt :
    site.isOnSubtype (g.adopt suggestions) (container.adopt suggestions) =
      site.isOnSubtype g container := by
  simp [isOnSubtype]

@[simp] theorem isInPackageOf_adopt :
    site.isInPackageOf (g.adopt suggestions) member = site.isInPackageOf g member := by
  simp [isInPackageOf]

@[simp] theorem isInNest_adopt :
    site.isInNest (g.adopt suggestions) (container.adopt suggestions) = site.isInNest g container := by
  simp [isInNest, isLocalAccess, Option.any_map]

@[simp] theorem isInSubtype_adopt :
    site.isInSubtype (g.adopt suggestions) (container.adopt suggestions) =
      site.isInSubtype g container := by
  simp [isInSubtype, Option.any_map]

end UsageSite

@[simp] theorem localLevel_adopt :
    localLevel (g.adopt suggestions) o site member (container.adopt suggestions) =
      localLevel g o site member container := by
  simp [localLevel]

@[simp] theorem outsideLevel_adopt (container : Option Declaration) :
    outsideLevel (g.adopt suggestions) o site member (container.map (·.adopt suggestions)) =
      outsideLevel g o site member container := by
  simp [outsideLevel, Option.any_map]

theorem requiredLevel_adopt (container : Option Declaration) :
    requiredLevel (g.adopt suggestions) o site member (container.map (·.adopt suggestions)) =
      requiredLevel g o site member container := by
  have houtside := outsideLevel_adopt g suggestions o site member container
  cases container with
  | none =>
    simp only [requiredLevel, Option.map_none] at houtside ⊢
    rw [houtside]
  | some type =>
    simp only [requiredLevel, Option.map_some, UsageSite.isInNest_adopt, localLevel_adopt] at houtside ⊢
    rw [houtside]

end

/-! ## What needs no usages -/

namespace EntryPointRule

section

variable {g} {g' : Graph} {d d' : Declaration}

mutual

/-- Rules look at annotations and at main methods, and at nothing else. -/
theorem covers_congr (hmain : isMainMethod g' d' = isMainMethod g d)
    (hannotations : d'.annotations = d.annotations) (rule : EntryPointRule) :
    covers g' d' rule = covers g d rule := by
  cases rule with
  | annotated => simp only [covers, carried, hannotations]
  | mainMethods => simp only [covers, hmain]
  | fixed => simp only [covers]
  | anyOf rules => simp only [covers, coversAny_congr hmain hannotations rules]

theorem coversAny_congr (hmain : isMainMethod g' d' = isMainMethod g d)
    (hannotations : d'.annotations = d.annotations) (rules : List EntryPointRule) :
    coversAny g' d' rules = coversAny g d rules := by
  cases rules with
  | nil => simp only [coversAny]
  | cons rule rest =>
    simp only [coversAny, covers_congr hmain hannotations rule, coversAny_congr hmain hannotations rest]

end

mutual

theorem floor?_congr (hmain : isMainMethod g' d' = isMainMethod g d)
    (hannotations : d'.annotations = d.annotations) (rule : EntryPointRule) :
    floor? g' d' rule = floor? g d rule := by
  cases rule with
  | annotated => simp only [floor?, carried, hannotations]
  | mainMethods => simp only [floor?]
  | fixed => simp only [floor?]
  | anyOf rules => simp only [floor?, floors_congr hmain hannotations rules]

theorem floors_congr (hmain : isMainMethod g' d' = isMainMethod g d)
    (hannotations : d'.annotations = d.annotations) (rules : List EntryPointRule) :
    floors g' d' rules = floors g d rules := by
  cases rules with
  | nil => simp only [floors]
  | cons rule rest =>
    simp only [floors, covers_congr hmain hannotations rule, floor?_congr hmain hannotations rule,
      floors_congr hmain hannotations rest]

end

end

theorem isMainMethod_adopt (d : Declaration) :
    isMainMethod (g.adopt suggestions) d = isMainMethod g d := by
  rw [isMainMethod, isMainMethod]
  cases d.containerId <;> simp [Option.any_map]

theorem isMainMethod_withAccess (d : Declaration) (level : Level) :
    isMainMethod g (d.withAccess level) = isMainMethod g d := by
  rw [isMainMethod, Declaration.isStatic_withAccess, isMainMethod]
  rfl

end EntryPointRule

/-- A framework overrides the same members. -/
theorem SubclassingRule.forces_adopt (rule : SubclassingRule) (container : Declaration) (id : String) :
    rule.forces (g.adopt suggestions) (container.adopt suggestions) id = rule.forces g container id := by
  have hintercepts (annotations : List String) :
      (intercepts annotations ∘ fun d => d.adopt suggestions) = intercepts annotations := by
    funext d
    simp [intercepts]
  have hforced : rule.forcedMembers (g.adopt suggestions) (container.adopt suggestions) =
      rule.forcedMembers g container := by
    rw [forcedMembers, forcedMembers]
    cases rule.methodAnnotations with
    | none => rfl
    | some annotations =>
      simp [List.filter_map, hintercepts, Function.comp_def]
  rw [forces, forces, hforced]
  simp [appliesTo]

section

variable {g} {suggestions} {p : Policy} {d : Declaration}

theorem keepReason?_adopt (m : Modifiers) (container : Option Declaration) :
    keepReason? (g.adopt suggestions) p d m (container.map (·.adopt suggestions)) =
      keepReason? g p d m container := by
  cases container with
  | none => rfl
  | some container =>
    simp [keepReason?, containerKeepReason?, Policy.forcingRule?, SubclassingRule.forces_adopt,
      Declaration.fixesMembers]

/-- What screening answers after others have adopted suggestions. -/
def Screening.adopt (suggestions : List Suggestion) : Screening → Screening
  | .settled resolution => .settled resolution
  | .scan access container floor => .scan access (container.map (·.adopt suggestions)) floor

theorem screenIn_adopt (m : Modifiers) (container : Option Declaration) :
    screenIn (g.adopt suggestions) p d m (container.map (·.adopt suggestions)) =
      (screenIn g p d m container).adopt suggestions := by
  have hmain := EntryPointRule.isMainMethod_adopt g suggestions d
  rw [screenIn, keepReason?_adopt, EntryPointRule.covers_congr hmain rfl,
    EntryPointRule.floor?_congr hmain rfl, screenIn]
  split
  · rfl
  · split
    · split <;> rfl
    · rfl

theorem screen_adopt : screen (g.adopt suggestions) p d = (screen g p d).adopt suggestions := by
  unfold screen
  split
  · rfl
  · next m _ =>
    split
    · rfl
    · split
      · exact screenIn_adopt m none
      · next id _ =>
        rw [Graph.find?_adopt]
        cases g.find? id with
        | none => rfl
        | some container => exact screenIn_adopt m (some container)

end

/-! ## What is found -/

/-- What is found about a declaration stays the same when others adopt suggestions. -/
theorem plainResolution_adopt (c : Codebase) (suggestions : List Suggestion) (p : Policy)
    (d : Declaration) : plainResolution (c.adopt suggestions) p d = plainResolution c p d := by
  have hsites : (c.adopt suggestions).sitesOf d = c.sitesOf d := rfl
  have hgraph : (c.adopt suggestions).graph = c.graph.adopt suggestions := rfl
  rw [plainResolution, plainResolution, hgraph, hsites, screen_adopt]
  cases screen c.graph p d with
  | settled resolution => rfl
  | scan access container floor =>
    -- the container may have adopted a level of its own, which no usage is judged by
    simp only [Screening.adopt, requiredLevel_adopt, Option.isNone_map]

/-! ## A level of its own -/

section

variable {g} {p : Policy} {d : Declaration} {m : Modifiers} {access level : Level}
  {container container' : Option Declaration} {floor : Option Level}

theorem requiredLevel_withAccess (o : Options) (site : UsageSite) (container : Option Declaration) :
    requiredLevel g o site (d.withAccess level) container = requiredLevel g o site d container := by
  have habstract : (d.withAccess level).isAbstract = d.isAbstract := by
    rw [Declaration.isAbstract, Declaration.withAccess, Option.any_map]
    rfl
  have hlocal (type : Declaration) :
      localLevel g o site (d.withAccess level) type = localLevel g o site d type := by
    rw [localLevel, habstract]
    rfl
  cases container with
  | none => rfl
  | some type =>
    simp only [requiredLevel, hlocal]
    rfl

/-- Private access is a reason to keep it; another level is no reason. -/
theorem ownKeepReason?_withAccess (h : ownKeepReason? d m = none) (level : Level) :
    ownKeepReason? (d.withAccess level) (m.withAccess level) =
      if level = .priv then some .privateOrNative else none := by
  split
  · next hpriv =>
    subst hpriv
    simp [ownKeepReason?, Modifiers.withAccess]
  · next hne =>
    -- of the modifiers that count here none has changed
    have hprivate : (m.withAccess level).isPrivate = m.isPrivate := by simp [Modifiers.withAccess, hne]
    rw [← h, ownKeepReason?, hprivate]
    rfl

/-- A declaration that has adopted private access keeps it; one that has adopted another level is scanned
again from the same floor. -/
theorem screenIn_withAccess (h : screenIn g p d m container = .scan access container' floor)
    (level : Level) : screenIn g p (d.withAccess level) (m.withAccess level) container =
      if level = .priv then .settled (.kept .priv .privateOrNative)
      else .scan level container' floor := by
  have hkeep : keepReason? g p d m container = none := by
    unfold screenIn at h
    split at h
    · cases h
    · assumption
  obtain ⟨hown, hcontainer⟩ := Option.or_eq_none_iff.mp hkeep
  have hmain := EntryPointRule.isMainMethod_withAccess g d level
  have hcontainer' : container.bind (containerKeepReason? g p (d.withAccess level)) = none := hcontainer
  rw [screenIn, keepReason?, ownKeepReason?_withAccess hown, hcontainer',
    EntryPointRule.covers_congr hmain rfl, EntryPointRule.floor?_congr hmain rfl]
  by_cases hpriv : level = .priv
  · subst hpriv
    rfl
  · -- neither has a reason to keep its level, and the same entry point rules cover them
    rw [screenIn, hkeep] at h
    rw [if_neg hpriv, if_neg hpriv]
    simp only [Option.or_none] at h ⊢
    split at h
    · next hcovers =>
      rw [if_pos hcovers]
      split at h
      · cases h
      · cases h
        rfl
    · next hcovers =>
      rw [if_neg hcovers]
      cases h
      rfl

theorem screen_withAccess (h : screen g p d = .scan access container floor) (level : Level) :
    screen g p (d.withAccess level) =
      if level = .priv then .settled (.kept .priv .privateOrNative) else .scan level container floor := by
  unfold screen at h ⊢
  have hmodifiers : (d.withAccess level).modifiers = d.modifiers.map (·.withAccess level) := rfl
  have hcontainer : (d.withAccess level).containerId = d.containerId := rfl
  rw [hmodifiers, hcontainer]
  cases hm : d.modifiers with
  | none =>
    rw [hm] at h
    cases h
  | some m =>
    have hconstant : (d.withAccess level).isConstant (m.withAccess level) = d.isConstant m := rfl
    rw [hm] at h
    simp only [Option.map_some, hconstant] at h ⊢
    split at h
    · cases h
    · next hconstant =>
      rw [if_neg hconstant]
      cases hc : d.containerId with
      | none =>
        rw [hc] at h
        exact screenIn_withAccess h level
      | some id =>
        rw [hc] at h
        cases hf : g.find? id with
        | none => simp [hf] at h
        | some container =>
          simp only [hf] at h ⊢
          exact screenIn_withAccess h level

/-- A declaration that has adopted a level that was found for it is found to do with that level. -/
theorem level?_plainResolution_withAccess {c : Codebase} {current : Level}
    (haccess : d.access? = some current) (hl : (plainResolution c p d).level? = some level)
    (hlt : level < current) : (plainResolution c p (d.withAccess level)).level? = some level := by
  have hnew := access?_ne_of_lt haccess hlt
  rw [plainResolution] at hl
  cases hscreen : screen c.graph p d with
  | settled resolution =>
    rw [hscreen] at hl
    exact absurd (level?_of_screen hscreen hl) hnew
  | scan access container floor =>
    rw [hscreen] at hl
    rw [plainResolution, screen_withAccess hscreen]
    have haccess := (of_screen_eq_scan hscreen).1
    have hsites : c.sitesOf (d.withAccess level) = c.sitesOf d := rfl
    by_cases hpriv : level = .priv
    · rw [if_pos hpriv, hpriv]
      rfl
    · rw [if_neg hpriv]
      simp only [requiredLevel_withAccess, hsites] at hl ⊢
      split at hl
      · -- an unused declaration keeps its level
        cases hl
        exact absurd haccess hnew
      · next hused =>
        rw [if_neg hused]
        exact hl

end

end LeastAccess
