import LeastAccess.Proofs.EntryPoint.Marks
import LeastAccess.Proofs.Resolver.MoreUsages

/-!
# More rules never tighten

A further rule can mark a declaration as an entry point, or say that a framework overrides it. Either way
the declaration may keep its level where it was scanned before. If it is scanned all the same, then with the
further rule no mark is without a floor, so there was none before, and the floors that there were before are
still among the marks. The scan therefore started from no broader level without the rule.

All this is about a declaration that is used. One that is not used keeps its level until a rule makes it an
entry point with a floor, and then that floor may be a first suggestion.

* `IsFloor.mono` — the floor of fewer marks
* `screen_of_rulesMore` — what is scanned with further rules is scanned without them, from no broader level
* `more_rules_never_tighten` — what is suggested with further rules is not narrower than without them
-/

namespace LeastAccess

/-- The same options and all the rules, with others among them, wherever these stand. -/
structure Policy.RulesMore (p p' : Policy) : Prop where
  entryPoints : p.entryPoints ⊆ p'.entryPoints
  subclassing : p.subclassing ⊆ p'.subclassing
  options : p'.options = p.options

/-- If there is a floor with further marks, there is one without them, and it is no broader. -/
theorem IsFloor.mono {marks marks' : Option Level → Prop} {floor : Option Level} {level' : Level}
    (h : IsFloor marks floor) (h' : IsFloor marks' (some level')) (hsub : ∀ f, marks f → marks' f) :
    ∃ level, floor = some level ∧ level ≤ level' := by
  cases floor with
  | none => exact absurd (hsub none h) h'.1
  | some level => exact ⟨level, rfl, h'.le (hsub _ h.2.1)⟩

namespace Policy.RulesMore

variable {g : Graph} {p p' : Policy} {d container : Declaration}

theorem marks (h : p.RulesMore p') {floor : Option Level} (hmark : p.entryPoint.Marks g d floor) :
    p'.entryPoint.Marks g d floor := by
  obtain ⟨rule, hmem, hmark⟩ := EntryPointRule.marks_anyOf_iff.mp hmark
  exact EntryPointRule.marks_anyOf_iff.mpr ⟨rule, h.entryPoints hmem, hmark⟩

theorem covers (h : p.RulesMore p') (hcovers : p.entryPoint.covers g d = true) :
    p'.entryPoint.covers g d = true := by
  obtain ⟨floor, hmark⟩ := (EntryPointRule.covers_iff _).mp hcovers
  exact (EntryPointRule.covers_iff _).mpr ⟨floor, h.marks hmark⟩

/-- An entry point that has a floor with further rules has no broader one without them. -/
theorem floor? (h : p.RulesMore p') (hcovers : p.entryPoint.covers g d = true) {level' : Level}
    (hfloor : p'.entryPoint.floor? g d = some level') :
    ∃ level, p.entryPoint.floor? g d = some level ∧ level ≤ level' := by
  have hmarks := EntryPointRule.isFloor_floor? p.entryPoint hcovers
  have hmarks' := EntryPointRule.isFloor_floor? p'.entryPoint (h.covers hcovers)
  rw [hfloor] at hmarks'
  exact hmarks.mono hmarks' fun _ => h.marks

theorem forcingRule?_eq_none (h : p.RulesMore p') (hforced : p'.forcingRule? g d container = none) :
    p.forcingRule? g d container = none := by
  unfold Policy.forcingRule? at hforced ⊢
  rw [List.find?_eq_none] at hforced ⊢
  exact fun rule hrule => hforced rule (h.subclassing hrule)

theorem containerKeepReason?_eq_none (h : p.RulesMore p')
    (hkeep : containerKeepReason? g p' d container = none) : containerKeepReason? g p d container = none := by
  unfold containerKeepReason? at hkeep ⊢
  split at hkeep
  · cases hkeep
  · next hfixes =>
    rw [if_neg hfixes]
    split at hkeep
    · cases hkeep
    · next hforced =>
      refine if_neg fun hforced' => hforced ?_
      rw [Bool.and_eq_true] at hforced' ⊢
      refine ⟨hforced'.1, ?_⟩
      by_contra hsome
      rw [Option.not_isSome_iff_eq_none] at hsome
      rw [h.forcingRule?_eq_none hsome] at hforced'
      exact absurd hforced'.2 nofun

/-- What no reason keeps with further rules, none keeps without them. -/
theorem keepReason?_eq_none {m : Modifiers} {container : Option Declaration} (h : p.RulesMore p')
    (hkeep : keepReason? g p' d m container = none) : keepReason? g p d m container = none := by
  unfold keepReason? at hkeep ⊢
  rw [Option.or_eq_none_iff] at hkeep ⊢
  refine ⟨hkeep.1, ?_⟩
  cases container with
  | none => rfl
  | some type => exact h.containerKeepReason?_eq_none hkeep.2

end Policy.RulesMore

section

variable {g : Graph} {c : Codebase} {p p' : Policy} {d : Declaration} {access level' : Level}
  {container : Option Declaration} {floor' : Option Level}

theorem screenIn_of_rulesMore (hmore : p.RulesMore p') {m : Modifiers} {container' : Option Declaration}
    (h : screenIn g p' d m container = .scan access container' floor') :
    ∃ floor, screenIn g p d m container = .scan access container' floor ∧
      floor.getD .priv ≤ floor'.getD .priv := by
  obtain ⟨haccess, hcontainer, hkeep, hstart'⟩ := screenIn_eq_scan_iff.mp h
  have hscan (floor : Option Level) (hstart : p.StartsFrom g d floor) :
      screenIn g p d m container = .scan access container' floor :=
    screenIn_eq_scan_iff.mpr ⟨haccess, hcontainer, hmore.keepReason?_eq_none hkeep, hstart⟩
  by_cases hcovers : p.entryPoint.covers g d = true
  · -- an entry point before, and so it is with further rules
    cases floor' with
    | none => exact absurd (hmore.covers hcovers) (Bool.eq_false_iff.mp hstart')
    | some level' =>
      obtain ⟨level, hfloor, hle⟩ := hmore.floor? hcovers hstart'.2
      exact ⟨some level, hscan (some level) ⟨hcovers, hfloor⟩, hle⟩
  · exact ⟨none, hscan none (Bool.eq_false_iff.mpr hcovers), Level.priv_le _⟩

/-- What is scanned with further rules is scanned without them, and from no broader level. -/
theorem screen_of_rulesMore (hmore : p.RulesMore p') (h : screen g p' d = .scan access container floor') :
    ∃ floor, screen g p d = .scan access container floor ∧ floor.getD .priv ≤ floor'.getD .priv := by
  obtain ⟨m, hm, hconstant, hknown, hin⟩ := screen_eq_scan_iff.mp h
  obtain ⟨floor, hscan, hle⟩ := screenIn_of_rulesMore hmore hin
  rw [hmore.options] at hconstant
  exact ⟨floor, screen_eq_scan_iff.mpr ⟨m, hm, hconstant, hknown, hscan⟩, hle⟩

/-- Of a used declaration, a broader seed has a broader level that takes effect. -/
theorem effectiveLevel_seed_mono {o : Options} {sites : List UsageSite} (hused : sites ≠ [])
    {seed seed' : Level} (hle : seed ≤ seed') :
    let required := siteLevel g o d container
    effectiveLevel o d container (Level.join seed (sites.map required)) ≤
      effectiveLevel o d container (Level.join seed' (sites.map required)) := by
  intro required
  refine effectiveLevel_mono (Level.join_map_mono hle fun _ _ => Level.le_refl _) ?_
  rintro rfl
  obtain ⟨site, hsite⟩ := List.exists_mem_of_ne_nil sites hused
  have hjoin : required site ≤ Level.join seed' (sites.map required) :=
    Level.le_join (List.mem_map_of_mem hsite)
  exact Or.inr (Level.le_trans (packageLocal_le_siteLevel g o d site) hjoin)

/-- What the plain join suggests for a used declaration with further rules is not narrower than without. -/
theorem plainResolution_of_rulesMore (hmore : p.RulesMore p') (hused : c.sitesOf d ≠ [])
    (haccess : d.access? = some access) (hl : (plainResolution c p' d).level? = some level')
    (hlt : level' < access) : ∃ level, (plainResolution c p d).level? = some level ∧ level ≤ level' := by
  obtain ⟨floor', hscreen', -, rfl⟩ := exists_scan_of_level?_lt hl haccess hlt
  obtain ⟨floor, hscreen, hfloor⟩ := screen_of_rulesMore hmore hscreen'
  rw [plainResolution_of_used hscreen (Or.inl (List.isEmpty_eq_false_iff.mpr hused)), hmore.options]
  exact ⟨_, rfl, effectiveLevel_seed_mono hused hfloor⟩

end

/-- **Adding rules never tightens what is used.** The rules may say what is an entry point or what a framework
overrides, and they may stand anywhere among the others. If with them the resolver answers a level below the
current one for a declaration that is used, then without them it answers a level that is at most as broad,
in whatever order the scans move. A resolver that is neither failed by the index nor cancelled always has
such an answer. -/
theorem more_rules_never_tighten {p p' : Policy} (c : Codebase) {d : Declaration} (hmore : p.RulesMore p')
    (hused : c.sitesOf d ≠ []) {access : Level} (haccess : d.access? = some access) :
    (∀ r r' : Resolution, p.Answers c d r → p'.Answers c d r' →
      ∀ level' : Level, r'.level? = some level' → level' < access →
        ∃ level, r.level? = some level ∧ level ≤ level') ∧
      ∀ (q : Policy) (x : Disturbance) (feed : Feed), (∀ r, x.fails r = false) →
        (∀ r, x.cancels r = false) → feed.token.isCancelled = false →
          q.Answers c d (resolve c q x d feed).resolution := by
  constructor
  · intro r r' hr hr' level' hl hlt
    rw [← Resolution.level?_verdict, hr'.verdict_eq, Resolution.level?_verdict] at hl
    obtain ⟨level, hlevel, hle⟩ := plainResolution_of_rulesMore hmore hused haccess hl hlt
    rw [← Resolution.level?_verdict, hr.verdict_eq, Resolution.level?_verdict]
    exact ⟨level, hlevel, hle⟩
  · exact fun q x feed hf hx hlive => answers_of_undisturbed hf hx hlive

/-- A field that is used in its own type only. Between two rules that do not cover it comes one that makes it
an entry point with package access for a floor. -/
theorem used_field_is_not_tightened :
    let p : Policy := { entryPoints := [.mainMethods, .annotated [{ name := "Keep" }]] }
    let p' : Policy :=
      { p with
        entryPoints := [.mainMethods, .fixed true (some .pkg), .annotated [{ name := "Keep" }]]
        subclassing := [{ marker := "Entity" }] }
    let answer (q : Policy) : Resolution := (resolve Sample.codebase q .none Sample.field {}).resolution
    p.RulesMore p' ∧ Sample.codebase.sitesOf Sample.field ≠ [] ∧ Sample.field.access? = some .pub ∧
      answer p = .resolved .priv 1 ∧ answer p' = .resolved .pkg 1 ∧
      ∃ level, (answer p).level? = some level ∧ level ≤ .pkg := by
  intro p p' answer
  have hmore : p.RulesMore p' := by
    refine ⟨fun rule hrule => ?_, List.nil_subset _, rfl⟩
    rcases List.mem_cons.mp hrule with rfl | hrule
    · exact List.mem_cons_self
    · exact List.mem_cons_of_mem _ (List.mem_cons_of_mem _ hrule)
  have hused : Sample.codebase.sitesOf Sample.field ≠ [] := by decide
  obtain ⟨hle, hanswers⟩ := more_rules_never_tighten Sample.codebase hmore hused rfl
  have hanswer := hanswers p .none {} (fun _ => rfl) (fun _ => rfl) rfl
  have hanswer' := hanswers p' .none {} (fun _ => rfl) (fun _ => rfl) rfl
  have hpkg : answer p' = .resolved .pkg 1 := by decide +kernel
  exact ⟨hmore, hused, rfl, by decide +kernel, hpkg,
    hle _ _ hanswer hanswer' .pkg (congrArg Resolution.level? hpkg) (by decide)⟩

/-- Without a usage the same rule makes a first suggestion. -/
example :
    let unused : Codebase := { Sample.codebase with usages := {} }
    let answer (q : Policy) : Resolution := (resolve unused q .none Sample.field {}).resolution
    answer {} = .kept .pub .unused ∧
      answer { entryPoints := [.fixed true (some .pkg)] } = .resolved .pkg 0 := by
  decide +kernel

end LeastAccess
