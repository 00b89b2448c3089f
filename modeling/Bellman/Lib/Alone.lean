/-
Bellman/Lib/Alone.lean

Threads that run alone.

Where nobody else makes a call, a thread goes from call to call, and how it
goes depends on the luck of each call only.  With `A` for the luck that is
to be expected,

    t.Runs M A Q w

says that `t`, started in the world `w`, comes to its end whatever this luck
is, never blocked, and that its result and the world it leaves are as `Q`
says.  The rules take a thread apart along its sequencing; a loop is
verified by an invariant on the elements that are done and those to come.
-/
import Bellman.Lib.Thread

namespace ProgramLogic

namespace Thread

universe u v

variable {E : Type → Type u} {W : Type v} {L α β : Type} {M : Machine E W L} {A : L → Prop}

/-- The thread, alone, comes to its end in `Q`. -/
def Runs (M : Machine E W L) (A : L → Prop) : Thread E α → (α → W → Prop) → W → Prop
  | ret a, Q, w => Q a w
  | call e k, Q, w =>
    ∀ l, A l → ∃ b w', M.answer e l w = some (b, w') ∧ (k b).Runs M A Q w'

variable {Q Q' : α → W → Prop} {w : W} {t : Thread E α}

@[simp] theorem runs_ret (a : α) : (ret a : Thread E α).Runs M A Q w ↔ Q a w := Iff.rfl

@[simp] theorem runs_pure (a : α) : (pure a : Thread E α).Runs M A Q w ↔ Q a w := Iff.rfl

theorem runs_perform {e : E α} : (perform e).Runs M A Q w ↔
    ∀ l, A l → ∃ b w', M.answer e l w = some (b, w') ∧ Q b w' := Iff.rfl

theorem Runs.mono (h : t.Runs M A Q w) (hQ : ∀ a w', Q a w' → Q' a w') :
    t.Runs M A Q' w := by
  induction t generalizing w with
  | ret a => exact hQ a w h
  | call e k ih =>
    intro l hl
    obtain ⟨b, w', hb, hrest⟩ := h l hl
    exact ⟨b, w', hb, ih b hrest⟩

/-- The end of a run satisfies whatever it is known to satisfy. -/
theorem Runs.and (h : t.Runs M A Q w) (h' : t.Runs M A Q' w) :
    t.Runs M A (fun a w' => Q a w' ∧ Q' a w') w := by
  induction t generalizing w with
  | ret a => exact ⟨h, h'⟩
  | call e k ih =>
    intro l hl
    obtain ⟨b, w', hb, hrest⟩ := h l hl
    obtain ⟨b', w'', hb', hrest'⟩ := h' l hl
    rw [hb] at hb'
    obtain ⟨rfl, rfl⟩ := Prod.mk.inj (Option.some.inj hb')
    exact ⟨b, w', hb, ih b hrest hrest'⟩

/-- Runs have an end, if there is any luck at all. -/
theorem Runs.exists (hA : ∃ l, A l) (h : t.Runs M A Q w) : ∃ a w', Q a w' := by
  induction t generalizing w with
  | ret a => exact ⟨a, w, h⟩
  | call e k ih =>
    obtain ⟨l, hl⟩ := hA
    obtain ⟨b, w', -, hrest⟩ := h l hl
    exact ih b hrest

theorem runs_bind {m : Thread E β} {f : β → Thread E α} :
    (m >>= f).Runs M A Q w ↔ m.Runs M A (fun b w' => (f b).Runs M A Q w') w := by
  induction m generalizing w with
  | ret b => exact Iff.rfl
  | call e k ih =>
    refine forall₂_congr fun l hl => exists₂_congr fun b w' => and_congr_right fun _ => ?_
    exact ih b

theorem runs_ite {c : Prop} [Decidable c] {t' : Thread E α} (h : c → t.Runs M A Q w)
    (h' : ¬c → t'.Runs M A Q w) : (if c then t else t').Runs M A Q w := by
  split
  · next hc => exact h hc
  · next hc => exact h' hc

/-- A loop: `I` tells what holds when certain elements are still to come. -/
theorem runs_forEach {γ : Type} {f : γ → Thread E Unit} {cs : List γ} (I : List γ → W → Prop)
    (hstep : ∀ c rest w, (∃ pre, cs = pre ++ c :: rest) → I (c :: rest) w →
      (f c).Runs M A (fun _ w' => I rest w') w)
    (h : I cs w) : (forEach f cs).Runs M A (fun _ w' => I [] w') w := by
  suffices hall : ∀ rest, (∃ pre, cs = pre ++ rest) → ∀ w, I rest w →
      (forEach f rest).Runs M A (fun _ w' => I [] w') w from hall cs ⟨[], rfl⟩ w h
  intro rest
  induction rest with
  | nil => exact fun _ w h => h
  | cons c rest ih =>
    rintro ⟨pre, rfl⟩ w h
    refine runs_bind.mpr ((hstep c rest w ⟨pre, rfl⟩ h).mono fun _ w' h' => ?_)
    exact ih ⟨pre ++ [c], by simp⟩ w' h'

end Thread

end ProgramLogic
