/-
Bellman/Lib/Simulation.lean

Programs that go the way of a system.

A program is seen by a system if what it does to the state is what some
steps of the system do, looked at up to a relation `E` that leaves out what
the system is not told:

    Simulates S E s s'    from every `t` with `E s t`
                          the system has a run to some `t'` with `E s' t'`

The relation is reflexive and transitive, so it is established step by step
with the rules of `Within`, and what holds of all states the system reaches
holds of the states that the program comes through (`Simulates.reachable`).
-/
import Bellman.Lib.Alike
import Bellman.Lib.System

namespace ProgramLogic

open Prog

namespace System

variable {σ τ : Type} {ι : Type} {S : System τ ι} {E : σ → τ → Prop}

/-- The system has a run that leads from `s` to `s'`, up to `E`. -/
def Simulates (S : System τ ι) (E : σ → τ → Prop) (s s' : σ) : Prop :=
  ∀ t, E s t → ∃ tr t', S.Run t tr t' ∧ E s' t'

instance : Std.Refl (S.Simulates E) := ⟨fun _ t h => ⟨[], t, .nil, h⟩⟩

instance : IsTrans σ (S.Simulates E) := by
  refine ⟨fun s s' s'' h h' t ht => ?_⟩
  obtain ⟨tr, t', hrun, ht'⟩ := h t ht
  obtain ⟨tr', t'', hrun', ht''⟩ := h' t' ht'
  exact ⟨tr ++ tr', t'', hrun.append hrun', ht''⟩

/-- The system is not told. -/
theorem simulates_stutter {s s' : σ} (h : ∀ t, E s t → E s' t) : S.Simulates E s s' :=
  fun t ht => ⟨[], t, .nil, h t ht⟩

theorem simulates_step {s s' : σ} (h : ∀ t, E s t → ∃ i t', S.step t i t' ∧ E s' t') :
    S.Simulates E s s' := by
  intro t ht
  obtain ⟨i, t', hstep, ht'⟩ := h t ht
  exact ⟨_, t', .single hstep, ht'⟩

/-- A step that is a program, told of both sides. -/
theorem simulates_of_alike {ε α : Type} {m : Prog σ ε α} {m' : Prog τ ε α}
    (hm : Alike E m m') {i : ι} (hstep : ∀ t, S.step t i (m'.run t).2) (s : σ) :
    S.Simulates E s (m.run s).2 :=
  simulates_step fun t ht => ⟨i, _, hstep t, (hm s t ht).2⟩

/-- The state is one that the system reaches, up to `E`. -/
def ReachableUpTo (S : System τ ι) (E : σ → τ → Prop) (s : σ) : Prop :=
  ∃ t, S.Reachable t ∧ E s t

/-- **Transfer**: where the system has a run, what is reached stays reached. -/
theorem Simulates.reachable {s s' : σ} (h : S.Simulates E s s') (hs : S.ReachableUpTo E s) :
    S.ReachableUpTo E s' := by
  obtain ⟨t, ⟨s₀, tr, hinit, hrun⟩, ht⟩ := hs
  obtain ⟨tr', t', hrun', ht'⟩ := h t ht
  exact ⟨t', ⟨s₀, tr ++ tr', hinit, hrun.append hrun'⟩, ht'⟩

end System

theorem within_of_run {σ ε α : Type} {m : Prog σ ε α} {R : σ → σ → Prop}
    (h : ∀ s, R s (m.run s).2) : Within R m := by
  intro s
  rw [wp_iff]
  constructor
  · intro a s' hrun
    have hs := h s
    rwa [hrun] at hs
  · intro e s' hrun
    have hs := h s
    rwa [hrun] at hs

end ProgramLogic
