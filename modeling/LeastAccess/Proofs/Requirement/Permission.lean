import LeastAccess.Resolver

/-!
# Levels that usages require

A usage never requires a level that a declaration cannot have or that the options forbid: outside every type
there is neither private nor protected access, an abstract member is not private, and where package access
or the private access of inner types is not wanted, a broader level is required in its place.

* `requirable_siteLevel` — what a usage can require
* `Requirable.expresses`, `Requirable.permits` — a declaration can have it, and the options permit it
-/

namespace LeastAccess

/-- A declaration can have a level: private and protected access are for members, and a private member has
a body. -/
def Declaration.Expresses (d : Declaration) : Level → Prop
  | .priv => d.containerId ≠ none ∧ d.isAbstract = false
  | .prot => d.containerId ≠ none
  | .pkg | .pub => True

/-- The options permit a level for a declaration in a type, or in none. -/
def Options.Permits (o : Options) (d : Declaration) (container : Option Declaration) : Level → Prop
  | .priv => ∀ type, container = some type → type.isInnerType = true → o.privateForInners = true
  | .pkg => if d.isTopLevelType then o.packageForTopLevelTypes = true else o.packageForMembers = true
  | .prot | .pub => True

/-- The levels that usages of a declaration can require. -/
inductive Requirable (o : Options) (d : Declaration) (container : Option Declaration) : Level → Prop
  | pub : Requirable o d container .pub
  | packageLocal : Requirable o d container (o.packageLocal d)
  | prot (hc : container ≠ none) : Requirable o d container .prot
  | priv {type : Declaration} (hc : container = some type) (habstract : d.isAbstract = false)
      (hinner : type.isInnerType = true → o.privateForInners = true) : Requirable o d container .priv

variable {g : Graph} {o : Options} {d : Declaration} {container : Option Declaration} {level : Level}
  {site : UsageSite}

/-! ## What is required -/

theorem requirable_localLevel {type : Declaration} :
    Requirable o d (some type) (localLevel g o site d type) := by
  unfold localLevel
  split
  · exact .packageLocal
  · split
    · exact .packageLocal
    · next habstract =>
      rw [Bool.or_eq_true, not_or, Bool.not_eq_true] at habstract
      split
      · exact .packageLocal
      · next hinner =>
        refine .priv rfl habstract.1 fun htype => ?_
        simpa [htype] using hinner

theorem requirable_outsideLevel : Requirable o d container (outsideLevel g o site d container) := by
  unfold outsideLevel
  split
  · exact .packageLocal
  · split
    · exact .pub
    · split
      · next hsubtype =>
        refine .prot ?_
        rintro rfl
        cases hsubtype
      · exact .pub

theorem requirable_siteLevel : Requirable o d container (siteLevel g o d container site) := by
  unfold siteLevel requiredLevel
  split
  · exact .pub
  · split
    · exact .pub
    · cases container with
      | none => exact requirable_outsideLevel
      | some type =>
        simp only []
        split
        · exact requirable_localLevel
        · exact requirable_outsideLevel

/-! ## What can be required is fit for a suggestion -/

theorem packageLocal_cases (o : Options) (d : Declaration) (container : Option Declaration) :
    o.packageLocal d = .pub ∨ o.packageLocal d = .pkg ∧ o.Permits d container .pkg := by
  rw [Options.packageLocal, Options.Permits]
  cases d.isTopLevelType
  · cases o.packageForMembers <;> simp
  · cases o.packageForTopLevelTypes <;> simp

/-- What a usage can require, a declaration can have. -/
theorem Requirable.expresses (h : Requirable o d container level)
    (hc : container = d.containerId.bind g.find?) : d.Expresses level := by
  have hmember (hsome : container ≠ none) : d.containerId ≠ none := by
    intro hnone
    rw [hnone] at hc
    exact hsome hc
  cases h with
  | pub => trivial
  | packageLocal =>
    rcases packageLocal_cases o d container with h | ⟨h, -⟩ <;>
    · rw [h]
      trivial
  | prot hsome => exact hmember hsome
  | priv hsome habstract => exact ⟨hmember (hsome ▸ nofun), habstract⟩

/-- What a usage can require, the options permit. -/
theorem Requirable.permits (h : Requirable o d container level) : o.Permits d container level := by
  cases h with
  | pub => trivial
  | packageLocal =>
    rcases packageLocal_cases o d container with h | ⟨h, hpermits⟩
    · rw [h]
      trivial
    · rwa [h]
  | prot => trivial
  | priv hc _ hinner =>
    intro type' hc'
    rw [hc] at hc'
    cases hc'
    exact hinner

end LeastAccess
