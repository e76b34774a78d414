import LeastAccess.Proofs.Resolver.MoreUsages

/-!
# More options never broaden

Where an option is off, a broader level stands in for one that may not be suggested. So with more options on,
no usage requires more than before, and the join of all usages is no broader. The options come in once more
after the join, where outside every type another level takes the place of private access. They cannot make
up there for what they have narrowed: outside every type a join is private only if there are no usages at
all, and then it is the floor, which the options do not change.

No option but the one for constants decides what is scanned, and whether a scan finds anything is up to the
usages. So it is only the level of a resolved declaration that the options show in.

* `siteLevel_anti` — no usage requires more with more options
* `plainResolution_anti` — nor does the plain join find a broader level
* `more_options_never_broaden` — the answer with more options has the same status and no broader level
-/

namespace LeastAccess

/-- What may be suggested stays so, and more may be. The same constants are looked at. -/
structure Options.AllowsMore (o o' : Options) : Prop where
  packageForTopLevelTypes : o.packageForTopLevelTypes = true → o'.packageForTopLevelTypes = true
  packageForMembers : o.packageForMembers = true → o'.packageForMembers = true
  privateForInners : o.privateForInners = true → o'.privateForInners = true
  constants : o'.constants = o.constants

@[simp] theorem Resolution.reason?_verdict (r : Resolution) : r.verdict.reason? = r.reason? := by
  cases r <;> rfl

section

variable {g : Graph} {o o' : Options} {d : Declaration} {container : Option Declaration} {site : UsageSite}

/-! ## What is required -/

theorem packageLocal_anti (h : o.AllowsMore o') (d : Declaration) :
    o'.packageLocal d ≤ o.packageLocal d := by
  have allowed {before after : Bool} (hon : before = true → after = true) :
      (if after then Level.pkg else .pub) ≤ (if before then Level.pkg else .pub) := by
    cases before with
    | false => exact Level.le_pub _
    | true =>
      rw [hon rfl]
      exact Level.le_refl _
  unfold Options.packageLocal
  cases d.isTopLevelType with
  | true => exact allowed h.packageForTopLevelTypes
  | false => exact allowed h.packageForMembers

theorem localLevel_anti (h : o.AllowsMore o') {type : Declaration} :
    localLevel g o' site d type ≤ localLevel g o site d type := by
  unfold localLevel
  split
  · exact packageLocal_anti h d
  · split
    · exact packageLocal_anti h d
    · by_cases hinner : (!o.privateForInners && type.isInnerType) = true
      · rw [if_pos hinner]
        split
        · exact packageLocal_anti h d
        · exact Level.priv_le _
      · -- what allowed private access still does
        have hinner' : ¬ (!o'.privateForInners && type.isInnerType) = true := by
          simp only [Bool.and_eq_true, Bool.not_eq_true', not_and, Bool.not_eq_true] at hinner ⊢
          intro hoff
          refine hinner (Bool.eq_false_iff.mpr fun hon => ?_)
          rw [h.privateForInners hon] at hoff
          cases hoff
        rw [if_neg hinner, if_neg hinner']
        exact Level.le_refl _

theorem outsideLevel_anti (h : o.AllowsMore o') :
    outsideLevel g o' site d container ≤ outsideLevel g o site d container := by
  unfold outsideLevel
  split
  · exact packageLocal_anti h d
  · exact Level.le_refl _

theorem requiredLevel_anti (h : o.AllowsMore o') :
    requiredLevel g o' site d container ≤ requiredLevel g o site d container := by
  unfold requiredLevel
  split
  · exact Level.le_refl _
  · cases container with
    | none => exact outsideLevel_anti h
    | some type =>
      simp only []
      split
      · exact localLevel_anti h
      · exact outsideLevel_anti h

/-- No usage requires more with more options. -/
theorem siteLevel_anti (h : o.AllowsMore o') (site : UsageSite) :
    siteLevel g o' d container site ≤ siteLevel g o d container site := by
  unfold siteLevel
  split
  · exact Level.le_refl _
  · exact requiredLevel_anti h

/-! ## What takes effect -/

/-- With more options, the same join has no broader level that takes effect. -/
theorem effectiveLevel_anti (h : o.AllowsMore o') (joined : Level) :
    effectiveLevel o' d container joined ≤ effectiveLevel o d container joined := by
  unfold effectiveLevel
  split
  · exact packageLocal_anti h d
  · exact Level.le_refl _

theorem effectiveLevel_join_anti (h : o.AllowsMore o') (sites : List UsageSite) (seed : Level) :
    effectiveLevel o' d container (Level.join seed (sites.map (siteLevel g o' d container))) ≤
      effectiveLevel o d container (Level.join seed (sites.map (siteLevel g o d container))) := by
  refine Level.le_trans (effectiveLevel_mono ?_ ?_) (effectiveLevel_anti h _)
  · exact Level.join_map_mono (Level.le_refl seed) fun site _ => siteLevel_anti h site
  · rintro rfl
    cases sites with
    | nil => exact Or.inl rfl
    | cons site rest =>
      right
      calc o'.packageLocal d
        _ ≤ o.packageLocal d := packageLocal_anti h d
        _ ≤ siteLevel g o d none site := packageLocal_le_siteLevel g o d site
        _ ≤ Level.join seed ((site :: rest).map (siteLevel g o d none)) := Level.le_join (by simp)

end

/-! ## Answers -/

section

variable {c : Codebase} {p : Policy} {d : Declaration} {o o' : Options}

/-- Of the options, only the one for constants decides what is scanned. -/
theorem screen_of_constants_eq (g : Graph) (p : Policy) (d : Declaration)
    (h : o'.constants = o.constants) :
    screen g { p with options := o' } d = screen g { p with options := o } d := by
  unfold screen
  simp only [h]
  rfl

/-- With more options, the plain join finds no broader level. -/
theorem plainResolution_anti (h : o.AllowsMore o') (c : Codebase) (p : Policy) (d : Declaration) :
    let r := plainResolution c { p with options := o } d
    let r' := plainResolution c { p with options := o' } d
    r'.Widens r ∧ r'.reason? = r.reason? := by
  intro r r'
  have hsame := screen_of_constants_eq c.graph p d h.constants
  cases hscreen : screen c.graph { p with options := o } d with
  | settled resolution =>
    have heq : r' = r := by
      show plainResolution _ _ _ = plainResolution _ _ _
      rw [plainResolution, plainResolution, hsame, hscreen]
    rw [heq]
    exact ⟨.refl r, rfl⟩
  | scan access container floor =>
    have hscreen' := hsame.trans hscreen
    by_cases hused : (c.sitesOf d).isEmpty = false ∨ floor ≠ none
    · have hr : r = _ := plainResolution_of_used hscreen hused
      have hr' : r' = _ := plainResolution_of_used hscreen' hused
      rw [hr, hr']
      exact ⟨.of_le (effectiveLevel_join_anti h _ _) _ _, rfl⟩
    · have hr : r = _ := plainResolution_of_unused hscreen hused
      have hr' : r' = _ := plainResolution_of_unused hscreen' hused
      rw [hr, hr']
      exact ⟨.refl _, rfl⟩

end

/-- **Enabling options never broadens.** If what may be suggested stays so, and the same constants are looked
at, then the resolver's answer has the same status, for the same reason where it gives one, and no broader
level, in whatever order the scans move. A resolver that is neither failed by the index nor cancelled always
has such an answer. -/
theorem more_options_never_broaden (c : Codebase) (p : Policy) (d : Declaration) {o o' : Options}
    (h : o.AllowsMore o') :
    (∀ r r' : Resolution, Policy.Answers { p with options := o } c d r →
      Policy.Answers { p with options := o' } c d r' →
        r'.status = r.status ∧ r'.reason? = r.reason? ∧
          ∀ level level' : Level, r.level? = some level → r'.level? = some level' → level' ≤ level) ∧
      ∀ (q : Policy) (x : Disturbance) (feed : Feed), (∀ r, x.fails r = false) →
        (∀ r, x.cancels r = false) → feed.token.isCancelled = false →
          q.Answers c d (resolve c q x d feed).resolution := by
  constructor
  · intro r r' hr hr'
    obtain ⟨hplain, hreason⟩ := plainResolution_anti h c p d
    have hwidens : r'.Widens r := hplain.of_verdict hr'.verdict_eq hr.verdict_eq
    refine ⟨hwidens.status.symm, ?_, fun level level' hl hl' => ?_⟩
    · rw [← Resolution.reason?_verdict r, ← Resolution.reason?_verdict r', hr.verdict_eq, hr'.verdict_eq,
        Resolution.reason?_verdict, Resolution.reason?_verdict, hreason]
    · obtain ⟨found, hfound, hle⟩ := hwidens.level level' hl'
      rw [hl] at hfound
      cases hfound
      exact hle
  · exact fun q x feed hf hx hlive => answers_of_undisturbed hf hx hlive

/-- A functional type that its own package uses, first with no option and then with all of them. -/
theorem functional_type_is_not_broadened :
    let off : Options :=
      { packageForTopLevelTypes := false, packageForMembers := false, privateForInners := false }
    let on : Options :=
      { packageForTopLevelTypes := true, packageForMembers := true, privateForInners := true }
    let answer (o : Options) : Resolution :=
      (resolve Sample.codebase { options := o } .none Sample.functionalType {}).resolution
    off.AllowsMore on ∧ answer off = .resolved .pub 1 ∧ answer on = .resolved .pkg 2 ∧
      (answer on).status = (answer off).status ∧ (answer on).reason? = (answer off).reason? ∧
      Level.pkg ≤ Level.pub := by
  intro off on answer
  have hmore : off.AllowsMore on := ⟨fun _ => rfl, fun _ => rfl, fun _ => rfl, rfl⟩
  obtain ⟨hall, hanswers⟩ := more_options_never_broaden Sample.codebase {} Sample.functionalType hmore
  have hoff := hanswers { options := off } .none {} (fun _ => rfl) (fun _ => rfl) rfl
  have hon := hanswers { options := on } .none {} (fun _ => rfl) (fun _ => rfl) rfl
  obtain ⟨hstatus, hreason, hle⟩ := hall _ _ hoff hon
  have hpub : answer off = .resolved .pub 1 := by decide +kernel
  have hpkg : answer on = .resolved .pkg 2 := by decide +kernel
  exact ⟨hmore, hpub, hpkg, hstatus, hreason,
    hle .pub .pkg (congrArg Resolution.level? hpub) (congrArg Resolution.level? hpkg)⟩

end LeastAccess
