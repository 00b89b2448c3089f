/-
Bellman/Lib/Script.lean

Scripts of steps, taken again from the start after a crash.

Each step of a script commits or fails by itself.  A run that is cut off
leaves what its first steps have done, and the next run begins with the first
step again.  That is harmless when each step settles something which

  - makes the step do nothing when it is taken once more, and
  - is kept by every step of the script.

Of such a script a run ends as it would have ended without the runs before it
that were cut off (`Resumable.runSteps_cutOff`).

Steps may be looked at through a map of the states that they commute with:
then so do runs (`runSteps_map`).
-/
import Mathlib.Data.List.Basic

namespace ProgramLogic

universe u v w

variable {α : Type u} {σ : Type v} {ε : Type w}

/-- The steps one after the other, up to the first that fails; it changes
nothing. -/
def runSteps (exec : α → σ → Except ε σ) : List α → σ → Except ε Unit × σ
  | [], s => (.ok (), s)
  | a :: as, s =>
    match exec a s with
    | .error e => (.error e, s)
    | .ok s' => runSteps exec as s'

/-- What is left after runs of which each was cut off after some of its steps. -/
def cutOff (exec : α → σ → Except ε σ) (steps : List α) (ks : List Nat) (s : σ) : σ :=
  ks.foldl (fun s k => (runSteps exec (steps.take k) s).2) s

variable {exec : α → σ → Except ε σ} {as bs steps : List α} {s s' t : σ}

@[simp] theorem runSteps_nil : runSteps exec [] s = (.ok (), s) := rfl

theorem runSteps_cons {a : α} (h : exec a s = .ok s') :
    runSteps exec (a :: as) s = runSteps exec as s' := by
  simp only [runSteps, h]

theorem runSteps_cons_eq_ok {a : α} :
    runSteps exec (a :: as) s = (.ok (), t) ↔
      ∃ s', exec a s = .ok s' ∧ runSteps exec as s' = (.ok (), t) := by
  cases h : exec a s with
  | error e => simp [runSteps, h]
  | ok s' => simp [runSteps, h]

theorem runSteps_append (h : runSteps exec as s = (.ok (), s')) :
    runSteps exec (as ++ bs) s = runSteps exec bs s' := by
  induction as generalizing s with
  | nil =>
    obtain rfl : s = s' := (Prod.mk.inj h).2
    rfl
  | cons a as ih =>
    obtain ⟨r, hr, hrest⟩ := runSteps_cons_eq_ok.mp h
    rw [List.cons_append, runSteps_cons hr, ih hrest]

theorem runSteps_append_eq_ok :
    runSteps exec (as ++ bs) s = (.ok (), t) ↔
      ∃ s', runSteps exec as s = (.ok (), s') ∧ runSteps exec bs s' = (.ok (), t) := by
  induction as generalizing s with
  | nil => simp
  | cons a as ih =>
    rw [List.cons_append, runSteps_cons_eq_ok]
    constructor
    · rintro ⟨r, hr, hrest⟩
      obtain ⟨s', hs', ht⟩ := ih.mp hrest
      exact ⟨s', runSteps_cons_eq_ok.mpr ⟨r, hr, hs'⟩, ht⟩
    · rintro ⟨s', hs', ht⟩
      obtain ⟨r, hr, hrest⟩ := runSteps_cons_eq_ok.mp hs'
      exact ⟨r, hr, ih.mpr ⟨s', hrest, ht⟩⟩

/-- The first steps of a run that succeeds succeed. -/
theorem runSteps_take (h : runSteps exec steps s = (.ok (), t)) (k : Nat) :
    ∃ s', runSteps exec (steps.take k) s = (.ok (), s') ∧
      runSteps exec (steps.drop k) s' = (.ok (), t) := by
  rw [← List.take_append_drop k steps] at h
  exact runSteps_append_eq_ok.mp h

/-- A property that every step keeps. -/
theorem runSteps_keeps {P : σ → Prop}
    (hkeep : ∀ a ∈ as, ∀ s s', P s → exec a s = .ok s' → P s')
    (hs : P s) (h : runSteps exec as s = (.ok (), t)) : P t := by
  induction as generalizing s with
  | nil =>
    obtain rfl : s = t := (Prod.mk.inj h).2
    exact hs
  | cons a as ih =>
    obtain ⟨r, hr, hrest⟩ := runSteps_cons_eq_ok.mp h
    refine ih (fun b hb => hkeep b (List.mem_cons_of_mem a hb)) ?_ hrest
    exact hkeep a List.mem_cons_self s r hs hr

/-! ### Steps seen through a map -/

/-- **Runs commute with a map** that their steps commute with. -/
theorem runSteps_map {τ : Type v} {exec' : α → τ → Except ε τ} (f : σ → τ)
    (hf : ∀ a s, (exec a s).map f = exec' a (f s)) (as : List α) (s : σ) :
    (runSteps exec as s).map id f = runSteps exec' as (f s) := by
  induction as generalizing s with
  | nil => rfl
  | cons a as ih =>
    have hstep := hf a s
    cases h : exec a s with
    | error e =>
      rw [h] at hstep
      have hstep' : exec' a (f s) = .error e := hstep.symm
      simp [runSteps, h, hstep']
    | ok s' =>
      rw [h] at hstep
      have hstep' : exec' a (f s) = .ok (f s') := hstep.symm
      rw [runSteps_cons h, runSteps_cons hstep', ih]

/-! ### Scripts that can be taken again -/

/-- What each step settles stays settled, and the step does nothing then. -/
structure Resumable (exec : α → σ → Except ε σ) (Settled : α → σ → Prop) (steps : List α) :
    Prop where
  settles : ∀ a ∈ steps, ∀ s s', exec a s = .ok s' → Settled a s'
  idle : ∀ a ∈ steps, ∀ s, Settled a s → exec a s = .ok s
  kept : ∀ a ∈ steps, ∀ b ∈ steps, ∀ s s', Settled a s → exec b s = .ok s' → Settled a s'

namespace Resumable

variable {Settled : α → σ → Prop}

theorem subset (h : Resumable exec Settled steps) (hsub : as ⊆ steps) :
    Resumable exec Settled as where
  settles a ha := h.settles a (hsub ha)
  idle a ha := h.idle a (hsub ha)
  kept a ha b hb := h.kept a (hsub ha) b (hsub hb)

/-- After a run every step of it is settled. -/
theorem settled_run (h : Resumable exec Settled steps)
    (hrun : runSteps exec steps s = (.ok (), t)) : ∀ a ∈ steps, Settled a t := by
  intro a ha
  obtain ⟨before, after, rfl⟩ := List.append_of_mem ha
  obtain ⟨r, -, hrest⟩ := runSteps_append_eq_ok.mp hrun
  obtain ⟨r', hstep, hafter⟩ := runSteps_cons_eq_ok.mp hrest
  refine runSteps_keeps (fun b hb => ?_) (h.settles a ha r r' hstep) hafter
  exact h.kept a ha b (by simp [hb])

theorem idle_run (h : Resumable exec Settled steps) (hs : ∀ a ∈ steps, Settled a s) :
    runSteps exec steps s = (.ok (), s) := by
  induction steps with
  | nil => rfl
  | cons a as ih =>
    rw [runSteps_cons (h.idle a List.mem_cons_self s (hs a List.mem_cons_self))]
    apply ih (h.subset (List.subset_cons_self a as))
    exact fun b hb => hs b (List.mem_cons_of_mem a hb)

/-- **After a run that was cut off** the script ends as it would have. -/
theorem runSteps_again (h : Resumable exec Settled steps)
    (hrun : runSteps exec steps s = (.ok (), t)) (k : Nat) :
    runSteps exec steps (runSteps exec (steps.take k) s).2 = (.ok (), t) := by
  obtain ⟨r, hr, hrest⟩ := runSteps_take hrun k
  have hfirst := h.subset (List.take_subset k steps)
  have hidle := hfirst.idle_run (hfirst.settled_run hr)
  rw [hr]
  show runSteps exec steps r = _
  rw [← List.take_append_drop k steps, runSteps_append hidle]
  exact hrest

/-- **After any number of them**. -/
theorem runSteps_cutOff (h : Resumable exec Settled steps)
    (hrun : runSteps exec steps s = (.ok (), t)) (ks : List Nat) :
    runSteps exec steps (cutOff exec steps ks s) = (.ok (), t) := by
  induction ks generalizing s with
  | nil => exact hrun
  | cons k ks ih => exact ih (h.runSteps_again hrun k)

end Resumable

end ProgramLogic
