import Mathlib.Data.List.Chain
import LeastAccess.Proofs.Snapshot.Violations
import LeastAccess.Snapshot.Loading

/-!
# Where chains of containers end

From an id the chain of containers leads on from container to container. It comes to a type without a
container, or it leads around a cycle for ever. `RunsInto` says at which id a chain enters its cycle: the
first one on the chain that contains itself.

The check pursues every declaration outwards and remembers what it has met. It meets an id a second time only
if the chain leads around a cycle, and the first id that it meets a second time is the entry: from there on
the chain has been all around the cycle, so nothing that was met before the entry is on it.

* `cycleEntry?_eq_some_iff` — the check finds the entry, and nothing else
* `Pursuit.Step.steady`, `Pursuit.Steps.steady` — what holds between two steps of a pursuit
* `endless_chains_are_listed` — the check ends, and lists the declarations whose chain never ends
-/

namespace LeastAccess

namespace Graph

variable {g : Graph}

/-! ## The entry of a cycle -/

/-- The first id on a chain of containers, from a given id on, that contains itself. -/
inductive RunsInto (g : Graph) : String → String → Prop
  | onCycle {id : String} (hid : g.Contains id id) : RunsInto g id id
  | leads {id container entry : String} (hid : ¬ g.Contains id id)
      (hc : g.containerOf? id = some container) (rest : RunsInto g container entry) : RunsInto g id entry

namespace RunsInto

variable {id entry entry' : String}

theorem unique (h : g.RunsInto id entry) (h' : g.RunsInto id entry') : entry = entry' := by
  induction h with
  | onCycle hid =>
    cases h' with
    | onCycle => rfl
    | leads hid' => exact absurd hid hid'
  | leads hid hc _ ih =>
    cases h' with
    | onCycle hid' => exact absurd hid' hid
    | leads _ hc' rest =>
      rw [hc] at hc'
      cases hc'
      exact ih rest

theorem encloses (h : g.RunsInto id entry) : Encloses g entry id := by
  induction h with
  | onCycle => exact .refl _
  | leads _ hc _ ih => exact .step hc ih

theorem contains_self (h : g.RunsInto id entry) : g.Contains entry entry := by
  induction h with
  | onCycle hid => exact hid
  | leads _ _ _ ih => exact ih

/-- A chain that runs into a cycle does not come to an outermost type. -/
theorem not_isOutermost (h : g.RunsInto id entry) (root : String) : ¬ g.IsOutermost root id :=
  fun hroot => hroot.not_contains_self_of_encloses h.encloses h.contains_self

end RunsInto

/-- On a cycle what is around an id is also in it. -/
theorem Encloses.symm_of_contains_self {outer inner : String} (h : Encloses g outer inner)
    (hself : g.Contains inner inner) : Encloses g inner outer := by
  induction h with
  | refl => exact .refl _
  | step hc _ ih =>
    obtain ⟨container, hc', rest⟩ := hself
    rw [hc] at hc'
    cases hc'
    exact rest.trans (ih (Contains.of_container ⟨_, hc, rest⟩ hc))

/-! ## The first repetition -/

/-- The first item that is repeated splits a list behind items that are all different. -/
theorem exists_split_of_firstRepeat {seen l : List String} {x : String} (h : firstRepeat seen l = some x) :
    ∃ before after, l = before ++ x :: after ∧ before.Nodup ∧ (∀ y ∈ before, y ∉ seen) ∧
      (x ∈ before ∨ x ∈ seen) := by
  induction l generalizing seen with
  | nil => cases h
  | cons y rest ih =>
    rw [firstRepeat] at h
    split at h
    · next hy =>
      cases h
      have hseen := List.contains_iff_mem.mp hy
      exact ⟨[], rest, rfl, List.nodup_nil, fun _ hmem => absurd hmem List.not_mem_nil, Or.inr hseen⟩
    · next hy =>
      obtain ⟨before, after, rfl, hnodup, hfresh, hx⟩ := ih h
      refine ⟨y :: before, after, rfl, List.nodup_cons.mpr ⟨fun hmem => ?_, hnodup⟩, ?_, ?_⟩
      · exact hfresh y hmem List.mem_cons_self
      · intro z hz
        rcases List.mem_cons.mp hz with rfl | hz
        · exact fun hmem => hy (List.contains_iff_mem.mpr hmem)
        · exact fun hmem => hfresh z hz (List.mem_cons_of_mem _ hmem)
      · rcases hx with hx | hx
        · exact Or.inl (List.mem_cons_of_mem _ hx)
        · rcases List.mem_cons.mp hx with rfl | hx
          · exact Or.inl List.mem_cons_self
          · exact Or.inr hx

theorem head?_chainFrom (g : Graph) (n : Nat) (id : String) : (g.chainFrom n id).head? = some id := by
  cases n with
  | zero => rfl
  | succ n =>
    rw [chainFrom]
    cases g.containerOf? id <;> rfl

/-- Each id of a chain has the next one as its container. -/
theorem isChain_chainFrom (g : Graph) (n : Nat) (id : String) :
    (g.chainFrom n id).IsChain fun id container => g.containerOf? id = some container := by
  induction n generalizing id with
  | zero => exact .singleton id
  | succ n ih =>
    cases hc : g.containerOf? id with
    | none =>
      rw [chainFrom_of_containerOf?_eq_none hc]
      exact .singleton id
    | some container =>
      rw [chainFrom_succ_of_container hc, List.isChain_cons, head?_chainFrom]
      exact ⟨fun _ hcontainer => Option.some.inj hcontainer ▸ hc, ih container⟩

section Round

variable {entry : String} {round : List String}

/-- A chain that comes back to its first id has met the containers of all its ids. -/
theorem mem_of_containerOf? {id container : String}
    (hround : (entry :: round ++ [entry]).IsChain fun id container => g.containerOf? id = some container)
    (hid : id ∈ entry :: round) (hc : g.containerOf? id = some container) : container ∈ entry :: round := by
  rw [List.isChain_iff_forall_rel_of_append_cons_cons] at hround
  obtain ⟨before, after, hsplit⟩ := List.append_of_mem hid
  cases after with
  | nil =>
    have hentry : g.containerOf? id = some entry :=
      @hround id entry before [] (by rw [hsplit, List.append_assoc]; rfl)
    rw [hc] at hentry
    cases hentry
    exact List.mem_cons_self
  | cons next after =>
    have hnext : g.containerOf? id = some next :=
      @hround id next before (after ++ [entry]) (by rw [hsplit, List.append_assoc]; rfl)
    rw [hc] at hnext
    cases hnext
    rw [hsplit]
    simp

/-- So nothing but its ids encloses one of them. -/
theorem mem_of_encloses {outer inner : String}
    (hround : (entry :: round ++ [entry]).IsChain fun id container => g.containerOf? id = some container)
    (h : Encloses g outer inner) (hinner : inner ∈ entry :: round) : outer ∈ entry :: round := by
  induction h with
  | refl => exact hinner
  | step hc _ ih => exact ih (mem_of_containerOf? hround hinner hc)

/-- Where a chain leads around a cycle at its end, and has met nothing twice before, it has run into the cycle
at the id that it comes back to. -/
theorem runsInto_of_isChain {id : String} {before : List String}
    (hchain : (before ++ (entry :: round ++ [entry])).IsChain fun id container =>
      g.containerOf? id = some container)
    (hnodup : (before ++ entry :: round).Nodup) (hself : g.Contains entry entry)
    (hid : (before ++ (entry :: round ++ [entry])).head? = some id) : g.RunsInto id entry := by
  induction before generalizing id with
  | nil =>
    cases hid
    exact .onCycle hself
  | cons x before ih =>
    cases hid
    obtain ⟨hx, hchain⟩ := List.isChain_cons.mp hchain
    obtain ⟨hfresh, hnodup⟩ := List.nodup_cons.mp hnodup
    obtain ⟨container, hcontainer⟩ :
        ∃ container, (before ++ (entry :: round ++ [entry])).head? = some container := by
      cases before <;> exact ⟨_, rfl⟩
    have hc : g.containerOf? x = some container := hx container hcontainer
    have rest : g.RunsInto container entry := ih hchain hnodup hcontainer
    refine .leads (fun hself => hfresh (List.mem_append_right _ ?_)) hc rest
    -- on the cycle it would enclose the entry, and would be met a second time
    have hentry : Encloses g x entry :=
      Encloses.symm_of_contains_self (.step hc rest.encloses) hself
    exact mem_of_encloses (List.IsChain.right_of_append hchain) hentry List.mem_cons_self

end Round

/-- The check finds where a chain enters a cycle, and finds nothing on other chains. -/
theorem cycleEntry?_eq_some_iff {id entry : String} :
    g.cycleEntry? id = some entry ↔ g.RunsInto id entry := by
  have hruns {entry : String} (h : g.cycleEntry? id = some entry) : g.RunsInto id entry := by
    obtain ⟨-, hself⟩ := of_cycleEntry? h
    obtain ⟨met, after, hsplit, hnodup, -, hentry⟩ := exists_split_of_firstRepeat h
    obtain ⟨before, round, rfl⟩ := List.append_of_mem (hentry.resolve_right List.not_mem_nil)
    have heq : g.chain id = (before ++ (entry :: round ++ [entry])) ++ after := by
      simp [hsplit]
    have hchain := isChain_chainFrom g g.declarations.length id
    have hid := head?_chainFrom g g.declarations.length id
    rw [← chain, heq] at hchain hid
    refine runsInto_of_isChain (List.IsChain.left_of_append hchain) hnodup hself ?_
    rwa [List.head?_append_of_ne_nil] at hid
    simp
  refine ⟨hruns, fun h => ?_⟩
  cases he : g.cycleEntry? id with
  | none =>
    obtain ⟨root, hroot⟩ := cycleEntry?_eq_none_iff.mp he
    exact absurd hroot (h.not_isOutermost root)
  | some found => rw [h.unique (hruns he)]

/-- A chain enters a cycle, at one id, if and only if it does not come to an outermost type. -/
theorem existsUnique_runsInto_iff {id : String} :
    (∃! entry, g.RunsInto id entry) ↔ ∀ root, ¬ g.IsOutermost root id := by
  constructor
  · rintro ⟨entry, h, -⟩
    exact h.not_isOutermost
  · intro h
    obtain ⟨entry, he⟩ := Option.ne_none_iff_exists'.mp fun hnone =>
      (cycleEntry?_eq_none_iff.mp hnone).elim h
    have hruns := cycleEntry?_eq_some_iff.mp he
    exact ⟨entry, hruns, fun _ h' => h'.unique hruns⟩

/-! ## The pursuit -/

/-- What the check holds between two steps: the ids that it has met, and the container to look at next. -/
structure Pursuit where
  met : List String
  next : Option String

namespace Pursuit

/-- The check begins with a declaration. -/
def start (d : Declaration) : Pursuit := ⟨[d.id], d.containerId⟩

/-- A step that does not end the pursuit goes to a container that has not been met. -/
inductive Step (g : Graph) : Pursuit → Pursuit → Prop
  | outwards {met : List String} {id : String} (hid : id ∉ met) :
      Step g ⟨met, some id⟩ ⟨id :: met, g.containerOf? id⟩

/-- A number of steps, one after the other. -/
inductive Steps (g : Graph) : Nat → Pursuit → Pursuit → Prop
  | none {s : Pursuit} : Steps g 0 s s
  | more {n : Nat} {s s' last : Pursuit} (step : Step g s s') (rest : Steps g n s' last) :
      Steps g (n + 1) s last

/-- The pursuit ends here, on a cycle or not. -/
inductive Ends : Pursuit → Option String → Prop
  | outermost {met : List String} : Ends ⟨met, none⟩ none
  | cycle {met : List String} {id : String} (hid : id ∈ met) : Ends ⟨met, some id⟩ (some id)

/-- What is going to be found within some more steps. -/
def found? (g : Graph) (n : Nat) (s : Pursuit) : Option String :=
  s.next.bind fun id => firstRepeat s.met (g.chainFrom n id)

/-- What holds between two steps of the pursuit of an id: no id has been met twice, all ids are declared, and
what is going to be found is what the check finds. -/
structure Steady (g : Graph) (id : String) (s : Pursuit) : Prop where
  distinct : s.met.Nodup
  declared : ∀ x ∈ s.met, x ∈ g.ids
  next : ∀ x, s.next = some x → x ∈ g.ids
  found : ∀ n, s.met.length + n = g.declarations.length → s.found? g n = g.cycleEntry? id

variable {id : String} {s s' : Pursuit}

/-- An id that has not been met is put to those that have been met. -/
theorem firstRepeat_chainFrom_succ {met : List String} {x : String} (hx : x ∉ met) (n : Nat) :
    firstRepeat met (g.chainFrom (n + 1) x) = found? g n ⟨x :: met, g.containerOf? x⟩ := by
  cases hc : g.containerOf? x with
  | none => simp [chainFrom_of_containerOf?_eq_none hc, firstRepeat, hx, found?]
  | some container => simp [chainFrom_succ_of_container hc, firstRepeat, hx, found?]

/-- There are no more ids to meet than there are declarations. -/
theorem Steady.length_le (h : s.Steady g id) : s.met.length ≤ g.declarations.length := by
  have hle := h.distinct.length_le_of_subset h.declared
  rwa [ids, List.length_map] at hle

theorem steady_start {d : Declaration} (hu : g.UniqueIds) (hd : d ∈ g.declarations)
    (hcontainers : ∀ x container, g.containerOf? x = some container → container ∈ g.ids) :
    (start d).Steady g d.id where
  distinct := List.nodup_singleton d.id
  declared x hx := List.mem_singleton.mp hx ▸ List.mem_map_of_mem hd
  next x hx := hcontainers d.id x ((containerOf?_of_mem hu hd).trans hx)
  found n hn := by
    have hone : n + 1 = g.declarations.length := (Nat.add_comm n 1).trans hn
    show _ = firstRepeat [] (g.chainFrom g.declarations.length d.id)
    rw [← hone, firstRepeat_chainFrom_succ List.not_mem_nil, containerOf?_of_mem hu hd]
    rfl

/-- A step keeps what holds. -/
theorem Step.steady (hcontainers : ∀ x container, g.containerOf? x = some container → container ∈ g.ids)
    (h : s.Steady g id) (hstep : Step g s s') : s'.Steady g id := by
  cases hstep with
  | @outwards met x hx =>
    refine ⟨List.nodup_cons.mpr ⟨hx, h.distinct⟩, ?_, hcontainers x, fun n hn => ?_⟩
    · intro y hy
      rcases List.mem_cons.mp hy with rfl | hy
      · exact h.next y rfl
      · exact h.declared y hy
    · rw [← firstRepeat_chainFrom_succ hx n]
      refine h.found (n + 1) ?_
      rw [← hn, List.length_cons, Nat.add_right_comm, Nat.add_assoc]

theorem Steps.steady (hcontainers : ∀ x container, g.containerOf? x = some container → container ∈ g.ids)
    {n : Nat} (h : s.Steady g id) (hsteps : Steps g n s s') : s'.Steady g id := by
  induction hsteps with
  | none => exact h
  | more step rest ih => exact ih (step.steady hcontainers h)

theorem Step.length_met (h : Step g s s') : s'.met.length = s.met.length + 1 := by
  cases h with
  | outwards hid => rfl

/-- Every step has met one more id. -/
theorem Steps.length_met {n : Nat} (h : Steps g n s s') : s'.met.length = s.met.length + n := by
  induction h with
  | none => rfl
  | more step rest ih =>
    rw [ih, step.length_met]
    omega

/-- Where no step is possible, the pursuit ends with what the check finds. -/
theorem Steady.step_or_ends (h : s.Steady g id) :
    (∃ s', Step g s s') ∨ s.Ends (g.cycleEntry? id) := by
  obtain ⟨n, hn⟩ := Nat.exists_eq_add_of_le h.length_le
  rw [← h.found n hn.symm]
  obtain ⟨met, _ | x⟩ := s
  · exact Or.inr .outermost
  · by_cases hx : x ∈ met
    · right
      have hfound : firstRepeat met (g.chainFrom n x) = some x := by
        obtain ⟨rest, hrest⟩ := List.head?_eq_some_iff.mp (head?_chainFrom g n x)
        rw [hrest, firstRepeat, if_pos (List.contains_iff_mem.mpr hx)]
      show Ends _ (firstRepeat met (g.chainFrom n x))
      rw [hfound]
      exact .cycle hx
    · exact Or.inl ⟨_, .outwards hx⟩

end Pursuit

end Graph

namespace Codebase

variable {c : Codebase}

/-- The chain of containers of a declaration enters a cycle. -/
inductive RunsIntoCycle (c : Codebase) : List Nat → CycleIssue → Prop where
  | intro {i : Nat} {d : Declaration} {entry : String} (hd : c.graph.declarations[i]? = some d)
      (hentry : c.graph.RunsInto d.id entry) : RunsIntoCycle c [i] ⟨d.id, entry⟩

/-- The check of containment lists every declaration whose chain enters a cycle once, in document order. -/
theorem enumerates_runsIntoCycle (c : Codebase) : Enumerates c.RunsIntoCycle c.containmentIssues := by
  refine (Enumerates.filterMap _ _).congr fun place issue => ?_
  simp only [Option.map_eq_some_iff, Graph.cycleEntry?_eq_some_iff]
  constructor
  · rintro ⟨hd, hentry⟩
    exact ⟨_, _, rfl, hd, _, hentry, rfl⟩
  · rintro ⟨i, d, rfl, hd, entry, hentry, rfl⟩
    exact .intro hd hentry

/-- All containers are declared where references resolve. -/
theorem ReferencesResolve.container_mem_ids (h : c.ReferencesResolve) (id container : String)
    (hc : c.graph.containerOf? id = some container) : container ∈ c.graph.ids := by
  obtain ⟨d, hf, hd⟩ := Option.bind_eq_some_iff.mp hc
  obtain ⟨e, he, -⟩ := h.containers d (Graph.mem_of_find? hf) container hd
  exact List.mem_map.mpr ⟨e, Graph.mem_of_find? he, Graph.find?_id he⟩

end Codebase

/-- **The check of containment ends, and lists the declarations whose chain of containers never ends.** It is
made once all references are known to resolve. The pursuit of a declaration takes fewer steps than there are
declarations, and finds where the chain enters a cycle: the first id on the chain that is on the cycle. There
is one issue with it, in document order, for each declaration whose chain enters a cycle. These are the
declarations without an outermost type. -/
theorem endless_chains_are_listed {c : Codebase} (h : c.referenceIssues = []) :
    (∀ d ∈ c.graph.declarations, ∀ (n : Nat) (s : Graph.Pursuit),
      Graph.Pursuit.Steps c.graph n (.start d) s →
        n < c.graph.declarations.length ∧
          ((∃ s', Graph.Pursuit.Step c.graph s s') ∨ s.Ends (c.graph.cycleEntry? d.id))) ∧
    (∀ id entry : String, c.graph.cycleEntry? id = some entry ↔ c.graph.RunsInto id entry) ∧
    Enumerates c.RunsIntoCycle c.containmentIssues ∧
    (∀ d ∈ c.graph.declarations,
      (∃! entry, c.graph.RunsInto d.id entry) ↔ ∀ root, ¬ c.graph.IsOutermost root d.id) ∧
    Snapshot.checkIntegrity c =
      if c.containmentIssues = [] then .ok c else .error (.cyclic c.containmentIssues) := by
  have hresolve := Codebase.referenceIssues_eq_nil_iff.mp h
  refine ⟨?_, fun _ _ => Graph.cycleEntry?_eq_some_iff, c.enumerates_runsIntoCycle,
    fun _ _ => Graph.existsUnique_runsInto_iff, ?_⟩
  · intro d hd n s hsteps
    have hstart := Graph.Pursuit.steady_start hresolve.uniqueIds hd hresolve.container_mem_ids
    have hsteady := hsteps.steady hresolve.container_mem_ids hstart
    refine ⟨?_, hsteady.step_or_ends⟩
    calc n < 1 + n := Nat.lt_one_add_iff.mpr (Nat.le_refl n)
      _ = s.met.length := hsteps.length_met.symm
      _ ≤ c.graph.declarations.length := hsteady.length_le
  · rw [Snapshot.checkIntegrity, if_neg (not_not.mpr h), ite_not]

/-- A class, in another one or in none. -/
def Sample.classIn (id : String) (container : Option String) : Declaration :=
  { id, name := id, kind := .type, typeKind := some .cls, containerId := container }

/-- Two classes in each other, a field in a class that is in one of them, a class in itself, and a field in a
class that is in none. -/
def Sample.tangle : Codebase where
  graph.declarations :=
    [{ id := "f", name := "f", kind := .field, containerId := some "C" },
      Sample.classIn "A" (some "B"), Sample.classIn "T" none, Sample.classIn "B" (some "A"),
      { id := "t", name := "t", kind := .field, containerId := some "T" },
      Sample.classIn "C" (some "A"), Sample.classIn "S" (some "S")]

theorem field_leads_into_cycle :
    let c := Sample.tangle
    c.referenceIssues = [] ∧
      c.containmentIssues = [⟨"f", "A"⟩, ⟨"A", "A"⟩, ⟨"B", "B"⟩, ⟨"C", "A"⟩, ⟨"S", "S"⟩] ∧
      (∃ s, Graph.Pursuit.Steps c.graph 3 ⟨["f"], some "C"⟩ s ∧ 3 < c.graph.declarations.length ∧
        s.Ends (some "A")) ∧
      (∀ root, ¬ c.graph.IsOutermost root "f") ∧ (∀ place, ¬ c.RunsIntoCycle place ⟨"t", "T"⟩) ∧
      Snapshot.checkIntegrity c = .error (.cyclic c.containmentIssues) := by
  intro c
  have h : c.referenceIssues = [] := by decide
  have hissues : c.containmentIssues =
      [⟨"f", "A"⟩, ⟨"A", "A"⟩, ⟨"B", "B"⟩, ⟨"C", "A"⟩, ⟨"S", "S"⟩] := by decide
  obtain ⟨hpursuit, hentry, ⟨placed, hplaced, -, hfound⟩, hendless, hcheck⟩ := endless_chains_are_listed h
  have hf : c.graph.RunsInto "f" "A" := (hentry "f" "A").mp (by decide)
  have hsteps : Graph.Pursuit.Steps c.graph 3 ⟨["f"], some "C"⟩ ⟨["B", "A", "C", "f"], some "A"⟩ :=
    .more (.outwards (by decide)) <| .more (.outwards (by decide)) <|
      .more (.outwards (by decide)) .none
  refine ⟨h, hissues, ⟨_, hsteps, ?_⟩, ?_, ?_, ?_⟩
  · obtain ⟨hlt, ⟨_, hstep⟩ | hends⟩ := hpursuit _ List.mem_cons_self 3 _ hsteps
    · cases hstep
      contradiction
    · exact ⟨hlt, hends⟩
  · exact (hendless _ List.mem_cons_self).mp ⟨"A", hf, fun _ h' => h'.unique hf⟩
  · intro place ht
    have hmem : (⟨"t", "T"⟩ : CycleIssue) ∈ c.containmentIssues :=
      hplaced ▸ List.mem_map_of_mem ((hfound place _).mp ht)
    rw [hissues] at hmem
    contradiction
  · rw [hcheck, if_neg (by rw [hissues]; exact List.cons_ne_nil _ _)]

end LeastAccess
