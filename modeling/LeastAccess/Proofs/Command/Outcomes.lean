import LeastAccess.Command.Analyze
import LeastAccess.Proofs.Config.Acceptance

/-!
# How an analysis of a file can end

A command runs in any monad that offers files, so what it ends with depends on what the files are. What can be
said of every end is said by `Always`: the command might as well compute ends of this sort only.

* `Config.always_load` — a configuration that is loaded has a number of workers that an analysis can use
* `Command.always_analyze` — so an analysis ends with a report, unless a file could not be loaded
-/

namespace LeastAccess

/-! ## What always holds -/

section

variable {m : Type → Type} [Monad m] {α β : Type} {p : α → Prop} {q : β → Prop}

/-- Everything that a computation can give has a property. -/
def Always (p : α → Prop) (x : m α) : Prop := ∃ y : m {a // p a}, Subtype.val <$> y = x

namespace Always

theorem ok {ε : Type} {a : α} (h : Always p (.ok a : Except ε α)) : p a := by
  obtain ⟨y, hy⟩ := h
  cases y with
  | error e => cases hy
  | ok b =>
    cases hy
    exact b.property

theorem error {ε : Type} (e : ε) : Always p (.error e : Except ε α) := ⟨.error e, rfl⟩

theorem state {σ : Type} {x : StateM σ α} (h : Always p x) (s : σ) : p (x.run s).1 := by
  obtain ⟨y, rfl⟩ := h
  exact (y.run s).1.property

variable [LawfulMonad m]

theorem of_forall (h : ∀ a, p a) (x : m α) : Always p x :=
  ⟨(fun a => ⟨a, h a⟩) <$> x, by simp⟩

theorem pure {a : α} (h : p a) : Always p (Pure.pure a : m α) :=
  ⟨Pure.pure ⟨a, h⟩, by simp⟩

theorem bind {x : m α} {f : α → m β} (hx : Always p x) (hf : ∀ a, p a → Always q (f a)) :
    Always q (x >>= f) := by
  obtain ⟨y, rfl⟩ := hx
  choose z hz using fun a : {a // p a} => hf a.val a.property
  exact ⟨y >>= z, by simp [hz]⟩

theorem imp {x : m α} {p' : α → Prop} (hx : Always p x) (h : ∀ a, p a → p' a) : Always p' x := by
  obtain ⟨y, rfl⟩ := hx
  exact ⟨(fun a => ⟨a.val, h _ a.property⟩) <$> y, by simp⟩

/-- What comes after a computation of which nothing is known. -/
theorem bind_of_forall (x : m α) {f : α → m β} (hf : ∀ a, Always q (f a)) : Always q (x >>= f) :=
  (of_forall (fun _ => trivial) x).bind fun a (_ : True) => hf a

end Always

end

/-! ## Loading files -/

section

variable {m : Type → Type} [Monad m] [LawfulMonad m] (fs : FileSystem m)

namespace Config

/-- What loading a configuration gives: one whose number of workers an analysis can use, or a failure that
blames the configuration. -/
def Loaded : Except Failure Config → Prop
  | .ok c => Analysis.checkConcurrency c.concurrency = .ok ()
  | .error f => f.kind = .configuration

theorem loaded_parse (v : Option Json) (source : Option String) :
    Loaded ((parse v).mapError (·.toFailure source)) := by
  cases h : parse v with
  | error e => rfl
  | ok c => exact checkConcurrency_of_parse h

theorem always_loadFrom (file : String) : Always Loaded (loadFrom fs file) := by
  unfold loadFrom
  refine Always.bind_of_forall _ fun read => Always.pure ?_
  split
  · rfl
  · rfl
  · exact loaded_parse _ _

theorem always_load (file : Option String) : Always Loaded (load fs file) := by
  unfold load
  cases file with
  | none =>
    refine Always.bind_of_forall _ fun there => ?_
    cases there with
    | true => exact always_loadFrom fs _
    | false => exact Always.pure (checkConcurrency_of_parse parse_empty)
  | some file =>
    refine Always.bind_of_forall _ fun there => ?_
    cases there with
    | true => exact always_loadFrom fs file
    | false => exact Always.pure rfl

end Config

namespace Snapshot

/-- A failure to load a snapshot blames the snapshot. -/
def Loaded : Except Failure Codebase → Prop
  | .ok _ => True
  | .error f => f.kind = .snapshot

theorem always_load (file : String) : Always Loaded (load fs file) := by
  unfold load
  refine Always.bind_of_forall _ fun read => Always.pure ?_
  cases read with
  | error e => rfl
  | ok c => trivial

end Snapshot

/-! ## The command -/

namespace Command

/-- How an analysis of a file ends: it prints a report, or a file could not be loaded. -/
inductive Ends (json : Bool) : Transcript → Prop
  | reported (r : Report) (milliseconds : Nat) : Ends json (present json r milliseconds)
  | unloaded (f : Failure) (h : f.kind = .configuration ∨ f.kind = .snapshot) : Ends json (.failed f)

/-- The failure of an analysis that cannot be set up is none of these ends. -/
theorem Ends.ne_presentFailure {json : Bool} {t : Transcript} (h : Ends json t) (e : AnalysisError) :
    t ≠ presentFailure json e := by
  rintro rfl
  generalize ht : presentFailure json e = t at h
  have hproblem : t.problem? = some (.failure e.toFailure) := ht ▸ rfl
  cases h with
  | reported r milliseconds =>
    cases json <;> exact absurd hproblem nofun
  | unloaded f hkind =>
    cases hproblem
    exact absurd hkind (by simp [AnalysisError.toFailure])

/-- An analysis whose number of workers can be used if one is given ends with a report, unless a file could
not be loaded. -/
theorem always_analyze (clock : m Nat) (snapshot : String) (o : AnalyzeOptions) (token : Token)
    (h : ∀ n, o.concurrency = some n → Analysis.checkConcurrency n = .ok ()) :
    Always (Ends o.json) (analyze fs clock snapshot o token) := by
  unfold analyze
  refine (Config.always_load fs o.config).bind fun loaded hloaded => ?_
  cases loaded with
  | error f => exact Always.pure (.unloaded f (Or.inl hloaded))
  | ok config =>
    have hconcurrency : Analysis.checkConcurrency (o.concurrency.getD config.concurrency) = .ok () := by
      cases ho : o.concurrency with
      | none => exact hloaded
      | some n => exact h n ho
    refine (Snapshot.always_load fs _).bind fun loaded hloaded => ?_
    cases loaded with
    | error f => exact Always.pure (.unloaded f (Or.inr hloaded))
    | ok codebase =>
      refine Always.bind_of_forall _ fun started => ?_
      simp only [Config.analyze, hconcurrency]
      exact Always.bind_of_forall _ fun ended => Always.pure (.reported _ _)

end Command

end

end LeastAccess
