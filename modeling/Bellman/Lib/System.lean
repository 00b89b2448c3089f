/-
Bellman/Lib/System.lean

Labelled transition systems and their finite runs.

A `System` is an initial condition and a labelled step relation.  A run
keeps its *trace*: the list of steps taken, each with its label and the two
states it connects, oldest first.  Properties of a run are properties of
its trace, so that "every step of the run meets `G`" is just

    ∀ e ∈ tr, G e

and a bound that holds only while no step goes wrong is stated about the
runs whose traces meet the condition.

Main results: an invariant kept by every step that meets `G` holds at both
ends of every step of a run that meets `G` (`Run.invariant`,
`Run.invariant_steps`), and a predicate of the trace itself is proved by
adding one step at a time (`Run.trace_induction`).
-/
import Mathlib.Data.List.Basic

namespace ProgramLogic

universe u v w

/-- A transition system: where it may start, and its labelled steps. -/
structure System (σ : Type u) (ι : Type v) where
  init : σ → Prop
  step : σ → ι → σ → Prop

namespace System

variable {σ : Type u} {ι : Type v} {S : System σ ι}

/-- One step of a run: the state before, the label, the state after. -/
structure Event (σ : Type u) (ι : Type v) where
  pre : σ
  label : ι
  post : σ

/-- `S.Run s₀ tr s`: from `s₀` the steps `tr` lead to `s`. -/
inductive Run (S : System σ ι) (s₀ : σ) : List (Event σ ι) → σ → Prop
  | nil : Run S s₀ [] s₀
  | snoc {tr s i t} : Run S s₀ tr s → S.step s i t → Run S s₀ (tr ++ [⟨s, i, t⟩]) t

/-- A state some run from an initial state reaches. -/
def Reachable (S : System σ ι) (s : σ) : Prop :=
  ∃ s₀ tr, S.init s₀ ∧ S.Run s₀ tr s

variable {s₀ s t : σ} {i : ι} {tr : List (Event σ ι)}

theorem Run.single (h : S.step s i t) : S.Run s [⟨s, i, t⟩] t := by
  simpa using Run.snoc (Run.nil (S := S)) h

theorem Run.append {tr' : List (Event σ ι)} (h : S.Run s₀ tr s) (h' : S.Run s tr' t) :
    S.Run s₀ (tr ++ tr') t := by
  induction h' with
  | nil => simpa using h
  | snoc _ hstep ih =>
    rw [← List.append_assoc]
    exact ih.snoc hstep

theorem Run.cons (h : S.step s i t) {u : σ} (h' : S.Run t tr u) :
    S.Run s (⟨s, i, t⟩ :: tr) u := by
  simpa using (Run.single h).append h'

/-- Each event of a run is a step of the system, taken from a state that
the run had reached. -/
theorem Run.mem (h : S.Run s₀ tr s) {e : Event σ ι} (he : e ∈ tr) :
    S.step e.pre e.label e.post ∧ ∃ tr', S.Run s₀ tr' e.pre ∧ ∀ d ∈ tr', d ∈ tr := by
  induction h with
  | nil => simp at he
  | @snoc tr s i t hrun hstep ih =>
    rcases List.mem_append.mp he with he | he
    · obtain ⟨hs, tr', hr, hsub⟩ := ih he
      exact ⟨hs, tr', hr, fun d hd => List.mem_append_left _ (hsub d hd)⟩
    · obtain rfl := List.mem_singleton.mp he
      exact ⟨hstep, tr, hrun, fun d hd => List.mem_append_left _ hd⟩

/-- A run goes through each of its events. -/
theorem Run.split {tr' : List (Event σ ι)} {e : Event σ ι} (h : S.Run s₀ (tr ++ e :: tr') s) :
    S.Run s₀ tr e.pre ∧ S.step e.pre e.label e.post ∧ S.Run e.post tr' s := by
  generalize hl : tr ++ e :: tr' = l at h
  induction h generalizing tr' with
  | nil => simp at hl
  | @snoc l s i t hrun hstep ih =>
    rcases List.eq_nil_or_concat tr' with rfl | ⟨l', d, rfl⟩
    · obtain ⟨rfl, he⟩ := List.append_inj' hl rfl
      obtain rfl := List.head_eq_of_cons_eq he
      exact ⟨hrun, hstep, .nil⟩
    · rw [List.concat_eq_append, ← List.cons_append, ← List.append_assoc] at hl
      obtain ⟨hinit, hd⟩ := List.append_inj' hl rfl
      obtain rfl := List.head_eq_of_cons_eq hd
      obtain ⟨hpre, he, hpost⟩ := ih hinit
      rw [List.concat_eq_append]
      exact ⟨hpre, he, hpost.snoc hstep⟩

theorem run_nil_iff : S.Run s₀ [] s ↔ s = s₀ := by
  constructor
  · intro h
    generalize hl : ([] : List (Event σ ι)) = l at h
    cases h with
    | nil => rfl
    | snoc hrun hstep => simp at hl
  · rintro rfl
    exact .nil

/-- A run, taken apart at its first step. -/
theorem run_cons_iff {e : Event σ ι} : S.Run s₀ (e :: tr) s ↔
    e.pre = s₀ ∧ S.step s₀ e.label e.post ∧ S.Run e.post tr s := by
  constructor
  · intro h
    rw [← List.nil_append (e :: tr)] at h
    obtain ⟨hfirst, hstep, hrest⟩ := h.split
    rw [run_nil_iff] at hfirst
    exact ⟨hfirst, hfirst ▸ hstep, hrest⟩
  · rintro ⟨rfl, hstep, hrest⟩
    exact hrest.cons hstep

theorem Run.reachable (h : S.Run s₀ tr s) (h0 : S.init s₀) : S.Reachable s :=
  ⟨s₀, tr, h0, h⟩

/-- **Trace induction**: what holds of the empty trace and is kept by every
step taken holds of the whole run. -/
theorem Run.trace_induction {J : List (Event σ ι) → σ → Prop} (h : S.Run s₀ tr s)
    (h0 : J [] s₀)
    (hstep : ∀ tr s i t, S.Run s₀ tr s → S.step s i t → J tr s → J (tr ++ [⟨s, i, t⟩]) t) :
    J tr s := by
  induction h with
  | nil => exact h0
  | snoc hrun hs ih => exact hstep _ _ _ _ hrun hs ih

/-- **Guarded invariant rule**: an invariant that every step meeting `G`
keeps holds at the end of every run whose steps all meet `G`. -/
theorem Run.invariant {G : Event σ ι → Prop} {I : σ → Prop} (h : S.Run s₀ tr s)
    (hG : ∀ e ∈ tr, G e) (h0 : I s₀)
    (hstep : ∀ s i t, S.step s i t → G ⟨s, i, t⟩ → I s → I t) : I s := by
  induction h with
  | nil => exact h0
  | snoc _ hs ih =>
    refine hstep _ _ _ hs (hG _ (by simp)) (ih fun e he => hG e ?_)
    exact List.mem_append_left _ he

/-- The guarded invariant rule, read off at every step of the run. -/
theorem Run.invariant_steps {G : Event σ ι → Prop} {I : σ → Prop} (h : S.Run s₀ tr s)
    (hG : ∀ e ∈ tr, G e) (h0 : I s₀)
    (hstep : ∀ s i t, S.step s i t → G ⟨s, i, t⟩ → I s → I t) :
    ∀ e ∈ tr, S.step e.pre e.label e.post ∧ I e.pre ∧ I e.post := by
  intro e he
  obtain ⟨hs, tr', hrun, hsub⟩ := h.mem he
  have hpre : I e.pre := hrun.invariant (fun d hd => hG d (hsub d hd)) h0 hstep
  exact ⟨hs, hpre, hstep _ _ _ hs (hG e he) hpre⟩

/-- **Exact guard rule**: where, from the states of an invariant, a step has
the property `P` exactly if it meets `G`, and a step that has `P` keeps the
invariant, the runs all of whose steps have `P` are those whose steps meet
`G`. -/
theorem Run.forall_iff {G P : Event σ ι → Prop} {I : σ → Prop} (h : S.Run s₀ tr s) (h0 : I s₀)
    (hiff : ∀ s i t, S.step s i t → I s → (P ⟨s, i, t⟩ ↔ G ⟨s, i, t⟩))
    (hstep : ∀ s i t, S.step s i t → I s → P ⟨s, i, t⟩ → I t) :
    (∀ e ∈ tr, P e) ↔ ∀ e ∈ tr, G e := by
  have hkept : ((∀ e ∈ tr, P e) ↔ ∀ e ∈ tr, G e) ∧ ((∀ e ∈ tr, P e) → I s) := by
    induction h with
    | nil => simp [h0]
    | @snoc tr s i t _ hs ih =>
      obtain ⟨ihiff, ihI⟩ := ih
      simp only [List.mem_append, List.mem_singleton, or_imp, forall_and, forall_eq]
      constructor
      · constructor
        · rintro ⟨hP, hlast⟩
          exact ⟨ihiff.mp hP, (hiff s i t hs (ihI hP)).mp hlast⟩
        · rintro ⟨hG, hlast⟩
          have hP := ihiff.mpr hG
          exact ⟨hP, (hiff s i t hs (ihI hP)).mpr hlast⟩
      · rintro ⟨hP, hlast⟩
        exact hstep s i t hs (ihI hP) hlast
  exact hkept.1

/-- A run that ends outside of a property it started in has left it by one
of its steps. -/
theorem Run.leaves {I : σ → Prop} (h : S.Run s₀ tr s) (h0 : I s₀) (hs : ¬I s) :
    ∃ e ∈ tr, I e.pre ∧ ¬I e.post := by
  induction h with
  | nil => exact absurd h0 hs
  | @snoc tr s i t hrun _ ih =>
    by_cases hpre : I s
    · exact ⟨⟨s, i, t⟩, by simp, hpre, hs⟩
    · obtain ⟨e, he, hleave⟩ := ih hpre
      exact ⟨e, List.mem_append_left _ he, hleave⟩

/-- A relation that every step implies relates the two ends of a run. -/
theorem Run.within {R : σ → σ → Prop} (h : S.Run s₀ tr s) (hrefl : R s₀ s₀)
    (htrans : ∀ {a b c}, R a b → R b c → R a c)
    (hstep : ∀ s i t, S.step s i t → R s t) : R s₀ s := by
  induction h with
  | nil => exact hrefl
  | snoc _ hs ih => exact htrans ih (hstep _ _ _ hs)

/-- The trace of the given labels under a step function. -/
def trace (next : σ → ι → σ) : σ → List ι → List (Event σ ι)
  | _, [] => []
  | s, i :: is => ⟨s, i, next s i⟩ :: trace next (next s i) is

theorem trace_append (next : σ → ι → σ) (s : σ) (is js : List ι) :
    trace next s (is ++ js) = trace next s is ++ trace next (is.foldl next s) js := by
  induction is generalizing s with
  | nil => rfl
  | cons i is ih => exact congrArg (⟨s, i, next s i⟩ :: ·) (ih (next s i))

/-- A step function that the step relation allows runs through any list of
labels. -/
theorem run_trace {next : σ → ι → σ} (h : ∀ s i, S.step s i (next s i)) (s : σ) (is : List ι) :
    S.Run s (trace next s is) (is.foldl next s) := by
  induction is generalizing s with
  | nil => exact .nil
  | cons i is ih => exact (ih (next s i)).cons (h s i)

/-- The trace of the given labels when not every step is enabled: a label
that is not is passed over. -/
def traceEnabled (next : σ → ι → Option σ) : σ → List ι → List (Event σ ι)
  | _, [] => []
  | s, i :: is =>
    match next s i with
    | some t => ⟨s, i, t⟩ :: traceEnabled next t is
    | none => traceEnabled next s is

theorem run_traceEnabled {next : σ → ι → Option σ}
    (h : ∀ s i t, next s i = some t → S.step s i t) (s : σ) (is : List ι) :
    S.Run s (traceEnabled next s is) (is.foldl (fun s i => (next s i).getD s) s) := by
  induction is generalizing s with
  | nil => exact .nil
  | cons i is ih =>
    rw [traceEnabled, List.foldl_cons]
    cases hnext : next s i with
    | none => exact ih s
    | some t => exact (ih t).cons (h s i t hnext)

/-- An invariant of the initial states that every step keeps holds of all
reachable states. -/
theorem Reachable.invariant {I : σ → Prop} (h : S.Reachable s) (h0 : ∀ s, S.init s → I s)
    (hstep : ∀ s i t, S.step s i t → I s → I t) : I s := by
  obtain ⟨s₀, tr, hi, hr⟩ := h
  exact hr.invariant (G := fun _ => True) (fun _ _ => trivial) (h0 _ hi)
    fun s i t hs _ hI => hstep s i t hs hI

end System

end ProgramLogic
