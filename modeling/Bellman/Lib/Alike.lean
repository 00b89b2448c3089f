/-
Bellman/Lib/Alike.lean

Two programs that run alike.

A program that is run in two states, or two programs that are run in one,
may do the same up to something that does not matter.  With `R` for what the
states are to have in common,

    Alike R m m'

says that from states that are related `m` and `m'` come to the same result,
and leave states that are related.  This is closed under the combinators, so
two programs of the same shape are compared step by step.
-/
import Bellman.Lib.Prog

namespace ProgramLogic

namespace Prog

variable {σ σ' τ τ' ε α β : Type} {R : σ → σ' → Prop}

/-- The two runs come to the same, and leave related states. -/
def AlikeAt (R : σ → σ' → Prop) (m : Prog σ ε α) (m' : Prog σ' ε α) (s : σ) (s' : σ') : Prop :=
  (m.run s).1 = (m'.run s').1 ∧ R (m.run s).2 (m'.run s').2

/-- They do from all states that are related. -/
def Alike (R : σ → σ' → Prop) (m : Prog σ ε α) (m' : Prog σ' ε α) : Prop :=
  ∀ s s', R s s' → AlikeAt R m m' s s'

theorem Alike.alikeAt {m : Prog σ ε α} {m' : Prog σ' ε α} {s : σ} {s' : σ'} (h : Alike R m m')
    (hs : R s s') : AlikeAt R m m' s s' := h s s' hs

theorem alike_pure (a : α) : Alike R (pure a : Prog σ ε α) (pure a) := fun _ _ h => ⟨rfl, h⟩

theorem alike_throw (e : ε) : Alike R (throw e : Prog σ ε α) (throw e) := fun _ _ h => ⟨rfl, h⟩

theorem run_bind (m : Prog σ ε β) (f : β → Prog σ ε α) (s : σ) :
    (m >>= f).run s = match m.run s with
      | (.ok b, s') => (f b).run s'
      | (.error e, s') => (.error e, s') := rfl

theorem run_get_bind (f : σ → Prog σ ε α) (s : σ) : (get >>= f).run s = (f s).run s := rfl

/-- **Step by step**: what comes first is alike, and what follows is, whatever
comes of the first. -/
theorem alike_bind {m : Prog σ ε β} {m' : Prog σ' ε β} {f : β → Prog σ ε α}
    {f' : β → Prog σ' ε α} (hm : Alike R m m') (hf : ∀ b, Alike R (f b) (f' b)) :
    Alike R (m >>= f) (m' >>= f') := by
  intro s s' h
  obtain ⟨hresult, hstate⟩ := hm s s' h
  unfold AlikeAt
  rw [run_bind, run_bind]
  rcases hrun : m.run s with ⟨e | b, s₁⟩ <;> rcases hrun' : m'.run s' with ⟨e' | b', s₁'⟩ <;>
    rw [hrun, hrun'] at hresult hstate
  · exact ⟨congrArg Except.error (Except.error.inj hresult), hstate⟩
  · cases hresult
  · cases hresult
  · obtain rfl := Except.ok.inj hresult
    exact hf b s₁ s₁' hstate

/-- A program that goes by what it reads of the state. -/
theorem alike_get_bind {f : σ → Prog σ ε α} {f' : σ' → Prog σ' ε α}
    (h : ∀ s s', R s s' → AlikeAt R (f s) (f' s') s s') : Alike R (get >>= f) (get >>= f') := h

theorem alike_modifyGet {f : σ → α × σ} {f' : σ' → α × σ'}
    (h : ∀ s s', R s s' → (f s).1 = (f' s').1 ∧ R (f s).2 (f' s').2) :
    Alike R (modifyGet f : Prog σ ε α) (modifyGet f') := by
  intro s s' hs
  obtain ⟨hvalue, hstate⟩ := h s s' hs
  exact ⟨congrArg Except.ok hvalue, hstate⟩

theorem alike_modify {f : σ → σ} {f' : σ' → σ'} (h : ∀ s s', R s s' → R (f s) (f' s')) :
    Alike R (modify f : Prog σ ε PUnit) (modify f') :=
  fun s s' hs => ⟨rfl, h s s' hs⟩

theorem alike_ite {c : Prop} [Decidable c] {m n : Prog σ ε α} {m' n' : Prog σ' ε α}
    (hm : c → Alike R m m') (hn : ¬c → Alike R n n') :
    Alike R (if c then m else n) (if c then m' else n') := by
  split
  · next h => exact hm h
  · next h => exact hn h

/-- A part of the state is related by itself. -/
theorem alike_zoom {S : τ → τ' → Prop} {view : σ → τ} {view' : σ' → τ'} {put : τ → σ → σ}
    {put' : τ' → σ' → σ'} {m : Prog τ ε α} {m' : Prog τ' ε α} (hm : Alike S m m')
    (hview : ∀ s s', R s s' → S (view s) (view' s'))
    (hput : ∀ s s' t t', R s s' → S t t' → R (put t s) (put' t' s')) :
    Alike R (zoom view put m) (zoom view' put' m') := by
  intro s s' h
  obtain ⟨hresult, hstate⟩ := hm _ _ (hview s s' h)
  exact ⟨hresult, hput s s' _ _ h hstate⟩

theorem alike_transact {m : Prog σ ε α} {m' : Prog σ' ε α} {restore : σ → σ → σ}
    {restore' : σ' → σ' → σ'} (hm : Alike R m m')
    (hrestore : ∀ s s' t t', R s s' → R t t' → R (restore s t) (restore' s' t')) :
    Alike R (transact restore m) (transact restore' m') := by
  intro s s' h
  have hat := hm s s' h
  unfold AlikeAt run transact at *
  rcases hrun : m s with ⟨e | a, t⟩ <;> rcases hrun' : m' s' with ⟨e' | a', t'⟩ <;>
    rw [hrun, hrun'] at hat <;> obtain ⟨hresult, hstate⟩ := hat
  · exact ⟨hresult, hrestore s s' t t' h hstate⟩
  · cases hresult
  · cases hresult
  · exact ⟨hresult, hstate⟩

end Prog

end ProgramLogic
