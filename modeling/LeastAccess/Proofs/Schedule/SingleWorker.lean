import LeastAccess.Proofs.Report.Findings
import LeastAccess.Proofs.Schedule.Findings
import LeastAccess.Proofs.Schedule.Roster

/-!
# A single worker

A single worker has one task at most, so it records the declarations in document order. What it takes after
a cancellation is cancelled without a look, so the declarations it has resolved are the first ones.

* `InOrder.act`, `InOrder.play` — the acts of a single worker keep the order
* `resolveFirst_of_isComplete` — the declarations that are not cancelled are the first ones
-/

namespace LeastAccess

/-! ## A beginning of a list -/

/-- Where no item with a property comes after one without it, the items with the property come first. -/
theorem filter_prefix_of_pairwise {α : Type} {p : α → Bool} {l : List α}
    (h : l.Pairwise fun a b => p a = false → p b = false) : l.filter p <+: l := by
  induction l with
  | nil => exact List.prefix_rfl
  | cons a l ih =>
    obtain ⟨hhead, htail⟩ := List.pairwise_cons.mp h
    cases ha : p a with
    | true =>
      rw [List.filter_cons_of_pos ha]
      exact List.cons_prefix_cons.mpr ⟨rfl, ih htail⟩
    | false =>
      have hnone : (a :: l).filter p = [] := by
        rw [List.filter_eq_nil_iff]
        intro b hb
        rcases List.mem_cons.mp hb with rfl | hb
        · simp [ha]
        · simp [hhead b hb ha]
      rw [hnone]
      exact List.nil_prefix

/-- The declarations without a cancelled finding are the first ones of the document. -/
def Findings.ResolveFirst (g : Graph) (fs : Findings) : Prop :=
  (g.declarations.filter fun d => fs.resolutionOf? d.id ≠ some .cancelled) <+: g.declarations

/-- Findings in document order of which none follows a cancelled one without being cancelled. -/
theorem Findings.resolveFirst_of_pairwise {g : Graph} {fs : Findings} (hu : g.UniqueIds)
    (h : fs.map (·.declaration) = g.declarations)
    (hp : fs.Pairwise fun f f' => f.resolution = .cancelled → f'.resolution = .cancelled) :
    fs.ResolveFirst g := by
  have hmatch : fs.Match g := .of_eq h
  have hfilter : (fs.filter fun f => f.resolution ≠ .cancelled).map (·.declaration) =
      g.declarations.filter fun d => fs.resolutionOf? d.id ≠ some .cancelled := by
    rw [← h, List.filter_map]
    refine congrArg _ (List.filter_congr fun f hf => ?_)
    simp [hmatch.resolutionOf?_of_mem hu hf]
  have hfirst : (fs.filter fun f => f.resolution ≠ .cancelled) <+: fs :=
    filter_prefix_of_pairwise (hp.imp fun h => by simpa using h)
  rw [ResolveFirst, ← hfilter, ← h]
  exact hfirst.map _

namespace Schedule

variable {e : Setting} {s : Schedule}

/-! ## After a cancellation -/

/-- The run is cancelled, and the tasks are recorded as cancelled without another look. -/
def IsOver (s : Schedule) : Prop :=
  s.feed.token.isCancelled = true ∧ ∀ task ∈ s.tasks, ∃ d, task = .concluded ⟨d, .cancelled⟩

theorem IsOver.set (h : s.IsOver) {i : Nat} {task : Task} (htask : ∃ d, task = .concluded ⟨d, .cancelled⟩) :
    ∀ task' ∈ s.tasks.set i task, ∃ d, task' = .concluded ⟨d, .cancelled⟩ := by
  intro task' htask'
  rcases List.mem_or_eq_of_mem_set htask' with hmem | rfl
  · exact h.2 task' hmem
  · exact htask

/-- A run that is over stays so. -/
theorem IsOver.act (h : s.IsOver) (e : Setting) (a : Act) : (s.act e a).IsOver := by
  cases a with
  | take =>
    simp only [Schedule.act]
    split
    · exact h
    · next d queue _ =>
      split
      · refine ⟨h.1, fun task htask => ?_⟩
        rcases List.mem_append.mp htask with htask | htask
        · exact h.2 task htask
        · refine ⟨d, ?_⟩
          rw [List.mem_singleton.mp htask, Task.start, if_pos h.1]
      · exact h
  | move i m =>
    simp only [Schedule.act]
    split
    · next task hi =>
      obtain ⟨d, rfl⟩ := h.2 task (List.mem_of_getElem? hi)
      exact ⟨h.1, h.set ⟨d, rfl⟩⟩
    · exact h
  | conclude i =>
    simp only [Schedule.act]
    split
    · next task hi =>
      obtain ⟨d, rfl⟩ := h.2 task (List.mem_of_getElem? hi)
      exact ⟨h.1, h.set ⟨d, rfl⟩⟩
    · exact h
  | record i =>
    simp only [Schedule.act]
    split
    · exact ⟨h.1, fun task htask => h.2 task (List.mem_of_mem_eraseIdx htask)⟩
    · exact h
  | cancel reason => exact ⟨Token.isCancelled_cancel reason h.1, h.2⟩

/-! ## What a single worker keeps -/

/-- One task at most, the declarations in document order, and nothing but cancellations after the first
one. -/
structure InOrder (e : Setting) (s : Schedule) : Prop where
  length_tasks : s.tasks.length ≤ 1
  declarations : s.declarations = e.codebase.graph.declarations
  findings : s.findings.Pairwise fun f f' => f.resolution = .cancelled → f'.resolution = .cancelled
  isOver : ∀ f ∈ s.findings, f.resolution = .cancelled → s.IsOver

theorem inOrder_start (e : Setting) (feed : Feed) : (start e feed).InOrder e where
  length_tasks := Nat.zero_le 1
  declarations := rfl
  findings := .nil
  isOver _ hf := absurd hf List.not_mem_nil

theorem findings_act (e : Setting) (s : Schedule) {a : Act} (ha : ∀ i, a ≠ .record i) :
    (s.act e a).findings = s.findings := by
  cases a with
  | take =>
    simp only [act]
    split
    · rfl
    · split <;> rfl
  | move =>
    simp only [act]
    split <;> rfl
  | conclude =>
    simp only [act]
    split <;> rfl
  | record i => exact absurd rfl (ha i)
  | cancel => rfl

/-- The only task is recorded. -/
theorem InOrder.record (hs : s.Holds e (IsExplained e)) (h : s.InOrder e) (i : Nat) :
    (s.act e (.record i)).InOrder e := by
  simp only [Schedule.act]
  split
  · next finding hf =>
    obtain ⟨task, hi, hfinding⟩ := Option.bind_eq_some_iff.mp hf
    obtain rfl := Task.eq_concluded_of_finding? hfinding
    have hmem := List.mem_of_getElem? hi
    obtain ⟨hlt, -⟩ := List.getElem?_eq_some_iff.mp hi
    have hone := h.length_tasks
    obtain rfl : i = 0 := by omega
    have hsingle : s.tasks = [.concluded finding] := by
      obtain ⟨task, htask⟩ := List.length_eq_one_iff.mp (by omega : s.tasks.length = 1)
      rw [htask, List.mem_singleton] at hmem
      rw [htask, ← hmem]
    have hnone : s.tasks.eraseIdx 0 = [] := by rw [hsingle]; rfl
    rw [hnone]
    refine ⟨Nat.zero_le 1, ?_, ?_, ?_⟩
    · have hdeclarations := h.declarations
      rw [Schedule.declarations, hsingle] at hdeclarations
      simpa [Schedule.declarations, Task.declaration] using hdeclarations
    · rw [List.pairwise_append]
      refine ⟨h.findings, List.pairwise_singleton _ _, fun f hf f' hf' hr => ?_⟩
      -- after a cancelled finding the task was a cancelled one
      obtain ⟨d, hd⟩ := (h.isOver f hf hr).2 _ hmem
      rw [List.mem_singleton.mp hf', Task.concluded.inj hd]
    · intro f hf hr
      refine ⟨?_, fun task htask => absurd htask List.not_mem_nil⟩
      rcases List.mem_append.mp hf with hf | hf
      · exact (h.isOver f hf hr).1
      · have hexplained : Explains _ _ _ s.feed.token.isCancelled finding := hs.tasks _ hmem
        rw [List.mem_singleton.mp hf] at hr
        exact hexplained.isCancelled hr
  · exact h

/-- What an act of a single worker keeps. -/
theorem InOrder.act (hw : e.workers = 1) (hs : s.Holds e (IsExplained e)) (h : s.InOrder e) (a : Act) :
    (s.act e a).InOrder e := by
  by_cases ha : ∀ i, a ≠ .record i
  · -- only records add to the findings or take a task away
    have hfindings := findings_act e s ha
    refine ⟨hw ▸ length_tasks_act_le (hw.symm ▸ h.length_tasks) a,
      (declarations_act e s ha).trans h.declarations, hfindings ▸ h.findings, ?_⟩
    rw [hfindings]
    exact fun f hf hr => (h.isOver f hf hr).act e a
  · obtain ⟨i, hi⟩ := not_forall.mp ha
    obtain rfl := not_not.mp hi
    exact h.record hs i

/-- What a single worker keeps. -/
theorem InOrder.play (hw : e.workers = 1) (hs : s.Holds e (IsExplained e)) (h : s.InOrder e)
    (acts : List Act) : (s.play e acts).InOrder e := by
  induction acts generalizing s with
  | nil => exact h
  | cons a acts ih =>
    have hadmits : s.Admits (fun _ _ => True) a :=
      (follows_of_forall (e := e) (s := s) (fun _ _ => trivial) [a]).1
    exact ih ((keeps_isExplained e _).act hs hadmits) (h.act hw hs a)

/-- **The declarations that a single worker has resolved are the first ones,** whenever the run was
cancelled. -/
theorem resolveFirst_of_isComplete (hw : e.workers = 1) (hu : e.codebase.graph.UniqueIds) {feed : Feed}
    {acts : List Act} (h : ((start e feed).play e acts).isComplete = true) :
    ((start e feed).play e acts).findings.ResolveFirst e.codebase.graph := by
  have horder := (inOrder_start e feed).play hw (holds_start e _ feed) acts
  obtain ⟨hqueue, htasks⟩ := Bool.and_eq_true_iff.mp h
  have hdeclarations := horder.declarations
  rw [declarations, List.isEmpty_iff.mp hqueue, List.isEmpty_iff.mp htasks, List.map_nil,
    List.append_nil, List.append_nil] at hdeclarations
  exact Findings.resolveFirst_of_pairwise hu hdeclarations horder.findings

end Schedule

end LeastAccess
