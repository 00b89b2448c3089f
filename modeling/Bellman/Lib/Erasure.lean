/-
Bellman/Lib/Erasure.lean

Programs that carry more than they need.

A program over a large state may do, on a part of that state, what a smaller
program does on the part alone: everything else it keeps is for later, and
does not decide anything.  `Erases proj bad m m'` says that a run of `m`,
looked at through `proj`, is a run of `m'`, unless `m` fails badly.  The
combinators keep this, so the smaller program is found by leaving out the
steps that are `Silent`.
-/
import Bellman.Lib.Prog

namespace ProgramLogic

namespace Prog

variable {σ τ ε α β : Type} {proj : τ → σ} {bad : ε → Prop}

/-- Every run of `m` that does not fail badly is, on the part `proj` of its
state, the run of `m'`. -/
def Erases (proj : τ → σ) (bad : ε → Prop) (m : Prog τ ε α) (m' : Prog σ ε α) : Prop :=
  ∀ t, (∃ e, (m.run t).1 = .error e ∧ bad e) ∨
    m'.run (proj t) = ((m.run t).1, proj (m.run t).2)

/-- `m` leaves the part `proj` as it is, and fails only badly. -/
def Silent (proj : τ → σ) (bad : ε → Prop) (m : Prog τ ε α) : Prop :=
  ∀ t, proj (m.run t).2 = proj t ∧ ∀ e, (m.run t).1 = .error e → bad e

variable {m : Prog τ ε α} {m' : Prog σ ε α}

theorem erases_pure (a : α) : Erases proj bad (pure a) (pure a) := fun _ => .inr rfl

theorem erases_throw (e : ε) : Erases proj bad (throw e : Prog τ ε α) (throw e) :=
  fun _ => .inr rfl

theorem erases_zoom {put : σ → τ → τ} (hput : ∀ s t, proj (put s t) = s) (m' : Prog σ ε α) :
    Erases proj bad (zoom proj put m') m' := by
  intro t
  right
  show _ = ((zoom proj put m' t).1, proj (zoom proj put m' t).2)
  unfold zoom
  rw [hput]
  rfl

theorem Erases.bind {f : α → Prog τ ε β} {f' : α → Prog σ ε β} (h : Erases proj bad m m')
    (hf : ∀ a, Erases proj bad (f a) (f' a)) : Erases proj bad (m >>= f) (m' >>= f') := by
  intro t
  rcases hm : m.run t with ⟨e | a, t'⟩
  · have hrun : (m >>= f).run t = (.error e, t') := by
      show (m >>= f) t = _
      simp only [Bind.bind, show m t = _ from hm]
    rcases h t with ⟨e', he, hbad⟩ | h
    · refine .inl ⟨e', ?_, hbad⟩
      rw [hm] at he
      rw [hrun]
      exact congrArg _ (Except.error.inj he)
    · right
      rw [hm] at h
      rw [hrun]
      show (m' >>= f') (proj t) = _
      simp only [Bind.bind, show m' (proj t) = _ from h]
  · have hrun : (m >>= f).run t = (f a).run t' := by
      show (m >>= f) t = _
      simp only [Bind.bind, show m t = _ from hm]
      rfl
    rcases h t with ⟨e', he, -⟩ | h
    · rw [hm] at he
      cases he
    · rw [hm] at h
      rw [hrun]
      refine (hf a t').imp_right fun hf => ?_
      rw [← hf]
      show (m' >>= f') (proj t) = _
      simp only [Bind.bind, show m' (proj t) = _ from h]
      rfl

/-- A silent step before the rest. -/
theorem Erases.after {g : Prog τ ε β} {f : β → Prog τ ε α} (hg : Silent proj bad g)
    (hf : ∀ b, Erases proj bad (f b) m') : Erases proj bad (g >>= f) m' := by
  intro t
  obtain ⟨hsame, hbad⟩ := hg t
  rcases hrun : g.run t with ⟨e | b, t'⟩
  · refine .inl ⟨e, ?_, hbad e (by rw [hrun])⟩
    show ((g >>= f) t).1 = _
    simp only [Bind.bind, show g t = _ from hrun]
  · rw [hrun] at hsame
    have hbind : (g >>= f).run t = (f b).run t' := by
      show (g >>= f) t = _
      simp only [Bind.bind, show g t = _ from hrun]
      rfl
    rw [hbind, ← hsame]
    exact hf b t'

theorem erases_ite {c : Prop} [Decidable c] {n : Prog τ ε α} {n' : Prog σ ε α}
    (hm : c → Erases proj bad m m') (hn : ¬c → Erases proj bad n n') :
    Erases proj bad (if c then m else n) (if c then m' else n') := by
  split
  · next hc => exact hm hc
  · next hc => exact hn hc

/-- A fact of every run of the smaller program holds of the larger one. -/
theorem Erases.wp {Q : α → σ → Prop} {E : ε → σ → Prop} {t : τ} (h : Erases proj bad m m')
    (hwp : Prog.wp m' Q E (proj t)) :
    Prog.wp m (fun a t' => Q a (proj t')) (fun e t' => bad e ∨ E e (proj t')) t := by
  rw [wp_iff]
  refine ⟨fun a t' hrun => ?_, fun e t' hrun => ?_⟩
  · rcases h t with ⟨e, he, -⟩ | h
    · rw [hrun] at he
      cases he
    · rw [hrun] at h
      exact wp_ok hwp h
  · rcases h t with ⟨e', he, hbad⟩ | h
    · rw [hrun] at he
      cases he
      exact .inl hbad
    · rw [hrun] at h
      exact .inr (wp_error hwp h)

/-- What comes to a result does so in the smaller program. -/
theorem Erases.wp_ok (h : Erases proj bad m m') (t : τ) :
    Prog.wp m (fun a t' => m'.run (proj t) = (.ok a, proj t')) (fun _ _ => True) t := by
  rw [wp_iff]
  refine ⟨fun a t' hrun => ?_, fun _ _ _ => trivial⟩
  rcases h t with ⟨e, he, -⟩ | h
  · rw [hrun] at he
    cases he
  · rwa [hrun] at h

/-! ### Silent steps -/

theorem silent_pure (a : α) : Silent proj bad (pure a : Prog τ ε α) :=
  fun _ => ⟨rfl, by intro e he; cases he⟩

theorem silent_throw {e : ε} (h : bad e) : Silent proj bad (throw e : Prog τ ε α) := by
  refine fun _ => ⟨rfl, fun e' he => ?_⟩
  cases he
  exact h

theorem silent_get : Silent proj bad (get : Prog τ ε τ) :=
  fun _ => ⟨rfl, by intro e he; cases he⟩

theorem silent_modifyGet {f : τ → α × τ} (h : ∀ t, proj (f t).2 = proj t) :
    Silent proj bad (modifyGet f : Prog τ ε α) :=
  fun t => ⟨h t, by intro e he; cases he⟩

theorem silent_modify {f : τ → τ} (h : ∀ t, proj (f t) = proj t) :
    Silent proj bad (modify f : Prog τ ε PUnit) :=
  fun t => ⟨h t, by intro e he; cases he⟩

theorem silent_bind {g : Prog τ ε β} {f : β → Prog τ ε α} (hg : Silent proj bad g)
    (hf : ∀ b, Silent proj bad (f b)) : Silent proj bad (g >>= f) := by
  intro t
  obtain ⟨hsame, hbad⟩ := hg t
  rcases hrun : g.run t with ⟨e | b, t'⟩
  · have hbind : (g >>= f).run t = (.error e, t') := by
      show (g >>= f) t = _
      simp only [Bind.bind, show g t = _ from hrun]
    rw [hbind]
    rw [hrun] at hsame
    refine ⟨hsame, fun e' he => hbad e' ?_⟩
    rw [hrun]
    exact congrArg _ (Except.error.inj he)
  · have hbind : (g >>= f).run t = (f b).run t' := by
      show (g >>= f) t = _
      simp only [Bind.bind, show g t = _ from hrun]
      rfl
    rw [hrun] at hsame
    rw [hbind, ← hsame]
    exact hf b t'

theorem silent_ite {c : Prop} [Decidable c] {n : Prog τ ε α} (hm : Silent proj bad m)
    (hn : Silent proj bad n) : Silent proj bad (if c then m else n) := by
  split
  · exact hm
  · exact hn

theorem Silent.erases {m : Prog τ ε PUnit} (h : Silent proj bad m) :
    Erases proj bad m (pure ⟨⟩) := by
  intro t
  obtain ⟨hsame, hbad⟩ := h t
  rcases hrun : m.run t with ⟨e | a, t'⟩
  · exact .inl ⟨e, rfl, hbad e (by rw [hrun])⟩
  · rw [hrun] at hsame
    right
    show (Except.ok PUnit.unit, proj t) = _
    rw [← hsame]

/-- A silent step after the rest. -/
theorem Erases.before {m : Prog τ ε PUnit} {m' : Prog σ ε PUnit} {g : Prog τ ε PUnit}
    (h : Erases proj bad m m') (hg : Silent proj bad g) :
    Erases proj bad (m >>= fun _ => g) m' := by
  intro t
  rcases hm : m.run t with ⟨e | a, t'⟩
  · have hrun : (m >>= fun _ => g).run t = (.error e, t') := by
      show (m >>= fun _ => g) t = _
      simp only [Bind.bind, show m t = _ from hm]
    rw [hrun, ← hm]
    exact h t
  · have hrun : (m >>= fun _ => g).run t = g.run t' := by
      show (m >>= fun _ => g) t = _
      simp only [Bind.bind, show m t = _ from hm]
      rfl
    rw [hrun]
    obtain ⟨hsame, hbad⟩ := hg t'
    rcases hgr : g.run t' with ⟨e | a', t''⟩
    · exact .inl ⟨e, rfl, hbad e (by rw [hgr])⟩
    · rw [hgr] at hsame
      rcases h t with ⟨e, he, -⟩ | h
      · rw [hm] at he
        cases he
      · right
        rw [h, hm, ← hsame]

end Prog

end ProgramLogic
