/-
Bellman/Lib/Prog.lean

Programs that carry a state and may fail.  A program of type
`Prog σ ε α` maps a state to a result and a state:

    Prog σ ε α = σ → Except ε α × σ

so the state *survives* a failure.  A caller that wants the all-or-nothing
reading of a database transaction wraps the program in `atomically`, which
puts the old state back on failure; `transact` puts back a part of it, for
programs that also touch memory which no database rolls back.

The logic is one predicate transformer: `wp m Q E s` says that the run of
`m` from `s` ends in `Q a s'` when it returns `a`, and in `E e s'` when it
fails with `e`.  Every combinator has one rewriting rule, so a program is
verified by rewriting its `wp` down to the rules of its primitive steps.

For facts that hold of every run whatever its result, `Within R m` says
that each run of `m` relates its first state to its last by `R`.  When `R`
is a preorder this is closed under all the combinators, which is how frame
conditions and invariants are proved here.  `Yields I P m` speaks of the
result as well, for the runs from the states of an invariant.
-/
import Mathlib.Order.Defs.Unbundled

namespace ProgramLogic

/-- Programs over states `σ` that return an `α` or fail with an `ε`; the
state reached is there in both cases. -/
def Prog (σ ε α : Type) : Type := σ → Except ε α × σ

namespace Prog

variable {σ τ ε α β : Type}

instance : Monad (Prog σ ε) where
  pure a := fun s => (.ok a, s)
  bind m f := fun s =>
    match m s with
    | (.ok a, s') => f a s'
    | (.error e, s') => (.error e, s')

instance : MonadStateOf σ (Prog σ ε) where
  get := fun s => (.ok s, s)
  set s' := fun _ => (.ok ⟨⟩, s')
  modifyGet f := fun s => (.ok (f s).1, (f s).2)

instance : MonadExceptOf ε (Prog σ ε) where
  throw e := fun s => (.error e, s)
  tryCatch m h := fun s =>
    match m s with
    | (.ok a, s') => (.ok a, s')
    | (.error e, s') => h e s'

/-- The outcome of a run from `s`: its result and the state it leaves. -/
def run (m : Prog σ ε α) (s : σ) : Except ε α × σ := m s

/-- Run `m`; when it fails, leave `restore s s'`, where `s` is the state
before and `s'` the state at the failure. -/
def transact (restore : σ → σ → σ) (m : Prog σ ε α) : Prog σ ε α := fun s =>
  match m s with
  | (.ok a, s') => (.ok a, s')
  | (.error e, s') => (.error e, restore s s')

/-- Run `m`; when it fails, put the state back to what it was before. -/
def atomically (m : Prog σ ε α) : Prog σ ε α := transact (fun s _ => s) m

/-- Run a program over a component `σ` of a larger state `τ`. -/
def zoom (get : τ → σ) (put : σ → τ → τ) (m : Prog σ ε α) : Prog τ ε α := fun t =>
  ((m (get t)).1, put (m (get t)).2 t)

/-- The result of a run as a value: a failure is handed back, not raised. -/
def attempt (m : Prog σ ε α) : Prog σ ε (Except ε α) := fun s => (.ok (m s).1, (m s).2)

/-- Run `m` as a part of a program with other failures. -/
def mapError {ε' : Type} (f : ε → ε') (m : Prog σ ε α) : Prog σ ε' α := fun s =>
  match m s with
  | (.ok a, s') => (.ok a, s')
  | (.error e, s') => (.error (f e), s')

/-- Raise the failure held in a value, or return what it holds. -/
def ofExcept : Except ε α → Prog σ ε α
  | .ok a => pure a
  | .error e => throw e

/-! ### The predicate transformer -/

/-- The run of `m` from `s` returns in `Q` or fails in `E`. -/
def wp (m : Prog σ ε α) (Q : α → σ → Prop) (E : ε → σ → Prop) (s : σ) : Prop :=
  match m s with
  | (.ok a, s') => Q a s'
  | (.error e, s') => E e s'

variable {Q Q' : α → σ → Prop} {E E' : ε → σ → Prop} {s s' : σ} {m : Prog σ ε α}

theorem wp_iff : wp m Q E s ↔
    (∀ a s', m.run s = (.ok a, s') → Q a s') ∧ (∀ e s', m.run s = (.error e, s') → E e s') := by
  unfold wp run
  rcases m s with ⟨_ | _, s'⟩ <;> simp

theorem wp_ok (h : wp m Q E s) {a : α} (hr : m.run s = (.ok a, s')) : Q a s' :=
  (wp_iff.mp h).1 a s' hr

theorem wp_error (h : wp m Q E s) {e : ε} (hr : m.run s = (.error e, s')) : E e s' :=
  (wp_iff.mp h).2 e s' hr

theorem wp_mono (h : wp m Q E s) (hQ : ∀ a s', Q a s' → Q' a s')
    (hE : ∀ e s', E e s' → E' e s') : wp m Q' E' s := by
  rw [wp_iff] at h ⊢
  exact ⟨fun a s' hr => hQ a s' (h.1 a s' hr), fun e s' hr => hE e s' (h.2 e s' hr)⟩

theorem wp_imp {P P' : σ → Prop} (h : wp m (fun _ => P) (fun _ => P) s)
    (hP : ∀ s', P s' → P' s') : wp m (fun _ => P') (fun _ => P') s :=
  wp_mono h (fun _ => hP) (fun _ => hP)

theorem wp_and (h : wp m Q E s) (h' : wp m Q' E' s) :
    wp m (fun a s' => Q a s' ∧ Q' a s') (fun e s' => E e s' ∧ E' e s') s := by
  rw [wp_iff] at h h' ⊢
  exact ⟨fun a s' hr => ⟨h.1 a s' hr, h'.1 a s' hr⟩, fun e s' hr => ⟨h.2 e s' hr, h'.2 e s' hr⟩⟩

@[simp] theorem wp_pure (a : α) : wp (pure a : Prog σ ε α) Q E s = Q a s := rfl

@[simp] theorem wp_bind (m : Prog σ ε β) (f : β → Prog σ ε α) :
    wp (m >>= f) Q E s = wp m (fun b s' => wp (f b) Q E s') E s := by
  simp only [wp, bind]
  rcases m s with ⟨_ | _, s'⟩ <;> rfl

@[simp] theorem wp_map (g : β → α) (m : Prog σ ε β) :
    wp (g <$> m) Q E s = wp m (fun b s' => Q (g b) s') E s := by
  change wp (m >>= fun b => pure (g b)) Q E s = _
  simp only [wp_bind, wp_pure]

@[simp] theorem wp_throw (e : ε) : wp (throw e : Prog σ ε α) Q E s = E e s := rfl

@[simp] theorem wp_get {Q : σ → σ → Prop} :
    wp (get : Prog σ ε σ) Q E s = Q s s := rfl

@[simp] theorem wp_set {Q : PUnit → σ → Prop} :
    wp (set s' : Prog σ ε PUnit) Q E s = Q ⟨⟩ s' := rfl

@[simp] theorem wp_modify {Q : PUnit → σ → Prop} (f : σ → σ) :
    wp (modify f : Prog σ ε PUnit) Q E s = Q ⟨⟩ (f s) := rfl

@[simp] theorem wp_modifyGet (f : σ → α × σ) :
    wp (modifyGet f : Prog σ ε α) Q E s = Q (f s).1 (f s).2 := rfl

@[simp] theorem wp_tryCatch (h : ε → Prog σ ε α) :
    wp (tryCatch m h) Q E s = wp m Q (fun e s' => wp (h e) Q E s') s := by
  simp only [wp, tryCatch, tryCatchThe, MonadExceptOf.tryCatch]
  rcases m s with ⟨_ | _, s'⟩ <;> rfl

@[simp] theorem wp_transact (restore : σ → σ → σ) :
    wp (transact restore m) Q E s = wp m Q (fun e s' => E e (restore s s')) s := by
  simp only [wp, transact]
  rcases m s with ⟨_ | _, s'⟩ <;> rfl

@[simp] theorem wp_atomically :
    wp (atomically m) Q E s = wp m Q (fun e _ => E e s) s :=
  wp_transact _

@[simp] theorem wp_attempt {Q : Except ε α → σ → Prop} :
    wp (attempt m) Q E s = wp m (fun a s' => Q (.ok a) s') (fun e s' => Q (.error e) s') s := by
  simp only [wp, attempt]
  rcases m s with ⟨_ | _, s'⟩ <;> rfl

@[simp] theorem wp_mapError {ε' : Type} {f : ε → ε'} {E : ε' → σ → Prop} :
    wp (mapError f m) Q E s = wp m Q (fun e s' => E (f e) s') s := by
  simp only [wp, mapError]
  rcases m s with ⟨_ | _, s'⟩ <;> rfl

@[simp] theorem wp_zoom {Q : α → τ → Prop} {E : ε → τ → Prop} {get : τ → σ}
    {put : σ → τ → τ} {t : τ} :
    wp (zoom get put m) Q E t =
      wp m (fun a s' => Q a (put s' t)) (fun e s' => E e (put s' t)) (get t) := by
  simp only [wp, zoom]
  rcases m (get t) with ⟨_ | _, s'⟩ <;> rfl

/-- The state that a run leaves, whatever its result. -/
theorem run_snd {P : σ → Prop} (h : wp m (fun _ => P) (fun _ => P) s) : P (m.run s).2 := by
  rcases hm : m.run s with ⟨_ | _, s'⟩
  · exact wp_error h hm
  · exact wp_ok h hm

/-- A program that never fails returns. -/
theorem run_of_wp (h : wp m Q (fun _ _ => False) s) : ∃ a s', m.run s = (.ok a, s') ∧ Q a s' := by
  rcases hm : m.run s with ⟨e | a, s'⟩
  · exact (wp_error h hm).elim
  · exact ⟨a, s', rfl, wp_ok h hm⟩

/-- A run whose result is known by evaluation. -/
theorem run_of_map {f : α → β} {b : β} (h : (m.run s).1.toOption.map f = some b) :
    ∃ a, m.run s = (.ok a, (m.run s).2) ∧ f a = b := by
  obtain ⟨a, ha, hb⟩ := Option.map_eq_some_iff.mp h
  refine ⟨a, ?_, hb⟩
  rcases hm : m.run s with ⟨_ | a', s'⟩
  · rw [hm] at ha
    cases ha
  · rw [hm] at ha
    rw [Option.some.inj ha]

/-! ### Facts of every run: `Within` -/

/-- Every run of `m`, returned or failed, relates its first state to its
last by `R`. -/
def Within (R : σ → σ → Prop) (m : Prog σ ε α) : Prop :=
  ∀ s, wp m (fun _ s' => R s s') (fun _ s' => R s s') s

variable {R : σ → σ → Prop}

theorem Within.run (h : Within R m) (s : σ) : R s (m.run s).2 := by
  have hs := h s
  unfold wp at hs
  unfold Prog.run
  rcases hm : m s with ⟨_ | _, s'⟩ <;> simpa only [hm] using hs

theorem Within.mono {R' : σ → σ → Prop} (h : Within R m) (hR : ∀ s s', R s s' → R' s s') :
    Within R' m :=
  fun s => wp_mono (h s) (fun _ => hR s) (fun _ => hR s)

theorem Within.wp (h : Within R m) {Q : α → σ → Prop} {E : ε → σ → Prop} {s : σ}
    (hQ : ∀ a s', R s s' → Q a s') (hE : ∀ e s', R s s' → E e s') : wp m Q E s :=
  wp_mono (h s) hQ hE

theorem within_pure [Std.Refl R] (a : α) : Within R (pure a : Prog σ ε α) :=
  fun s => Std.Refl.refl s

theorem within_throw [Std.Refl R] (e : ε) : Within R (throw e : Prog σ ε α) :=
  fun s => Std.Refl.refl s

theorem within_get [Std.Refl R] : Within R (get : Prog σ ε σ) :=
  fun s => Std.Refl.refl s

theorem within_modifyGet {f : σ → α × σ} (h : ∀ s, R s (f s).2) :
    Within R (modifyGet f : Prog σ ε α) := h

theorem within_modify {f : σ → σ} (h : ∀ s, R s (f s)) :
    Within R (modify f : Prog σ ε PUnit) := h

theorem within_bind [IsTrans σ R] {m : Prog σ ε β} {f : β → Prog σ ε α}
    (hm : Within R m) (hf : ∀ b, Within R (f b)) : Within R (m >>= f) := by
  intro s
  rw [wp_bind]
  refine hm.wp (fun b s' hs => ?_) (fun e s' hs => hs)
  exact (hf b).wp (fun _ _ h => IsTrans.trans _ _ _ hs h) (fun _ _ h => IsTrans.trans _ _ _ hs h)

theorem within_tryCatch [IsTrans σ R] {h : ε → Prog σ ε α} (hm : Within R m)
    (hh : ∀ e, Within R (h e)) : Within R (tryCatch m h) := by
  intro s
  rw [wp_tryCatch]
  refine hm.wp (fun b s' hs => hs) (fun e s' hs => ?_)
  exact (hh e).wp (fun _ _ h => IsTrans.trans _ _ _ hs h) (fun _ _ h => IsTrans.trans _ _ _ hs h)

theorem within_zoom {R : τ → τ → Prop} {get : τ → σ} {put : σ → τ → τ}
    (hm : Within (fun s s' => ∀ t, get t = s → R t (put s' t)) m) :
    Within R (zoom get put m) := by
  intro t
  rw [wp_zoom]
  exact wp_imp (hm (get t)) fun s' hs => hs t rfl

theorem within_ite {c : Prop} [Decidable c] {m' : Prog σ ε α} (hm : c → Within R m)
    (hm' : ¬c → Within R m') : Within R (if c then m else m') := by
  split
  · next hc => exact hm hc
  · next hc => exact hm' hc

theorem within_transact {restore : σ → σ → σ} (hm : Within R m)
    (hr : ∀ s s', R s s' → R s (restore s s')) : Within R (transact restore m) := by
  intro s
  rw [wp_transact]
  exact hm.wp (fun _ _ hs => hs) (fun _ _ hs => hr _ _ hs)

theorem within_atomically [Std.Refl R] (hm : Within R m) : Within R (atomically m) :=
  within_transact hm fun s _ _ => Std.Refl.refl s

theorem within_attempt (hm : Within R m) : Within R (attempt m) := by
  intro s
  rw [wp_attempt]
  exact hm s

theorem within_mapError {ε' : Type} {f : ε → ε'} (hm : Within R m) :
    Within R (mapError f m) := by
  intro s
  rw [wp_mapError]
  exact hm s

/-! ### Invariants -/

/-- `I` holds afterwards if it held before. -/
def Preserves (I : σ → Prop) (s s' : σ) : Prop := I s → I s'

instance {I : σ → Prop} : Std.Refl (Preserves I) := ⟨fun _ h => h⟩

instance {I : σ → Prop} : IsTrans σ (Preserves I) := ⟨fun _ _ _ h h' hs => h' (h hs)⟩

/-- An invariant is preserved if it is wherever it holds at the start. -/
theorem within_preserves {I : σ → Prop} (h : ∀ s, I s → wp m (fun _ => I) (fun _ => I) s) :
    Within (Preserves I) m := by
  intro s
  by_cases hs : I s
  · exact wp_imp (h s hs) fun _ h _ => h
  · rw [wp_iff]
    exact ⟨fun _ _ _ h => absurd h hs, fun _ _ _ h => absurd h hs⟩

/-! ### Frames -/

/-- The part `proj` of the state is the same before and after. -/
def Same {γ : Type} (proj : σ → γ) (s s' : σ) : Prop := proj s' = proj s

variable {γ δ : Type} {proj : σ → γ}

instance : Std.Refl (Same proj) := ⟨fun _ => rfl⟩

instance : IsTrans σ (Same proj) := ⟨fun _ _ _ h h' => Eq.trans h' h⟩

/-- What keeps a part of the state keeps every part of that part. -/
theorem Within.same_of {m : Prog σ ε α} (h : Within (Same proj) m) {proj' : σ → δ} (g : γ → δ)
    (hg : ∀ s, proj' s = g (proj s)) : Within (Same proj') m :=
  h.mono fun s s' hs => by
    unfold Same at hs ⊢
    rw [hg, hg, hs]

/-! ### Failures that do not occur -/

section Avoids

variable {bad : ε → Prop} {f : β → Prog σ ε α} {C : Prop}

/-- No run of `m` fails badly. -/
def Avoids (bad : ε → Prop) (m : Prog σ ε α) : Prop :=
  ∀ s, wp m (fun _ _ => True) (fun e _ => ¬bad e) s

theorem Avoids.wp (h : Avoids bad m) {Q : α → σ → Prop} {E : ε → σ → Prop}
    (hQ : ∀ a s', Q a s') (hE : ∀ e s', ¬bad e → E e s') : wp m Q E s :=
  wp_mono (h s) (fun a s' _ => hQ a s') fun e s' he => hE e s' he

theorem avoids_of_wp (h : ∀ s, Prog.wp m (fun _ _ => True) (fun _ _ => False) s) :
    Avoids bad m :=
  fun s => wp_mono (h s) (fun _ _ ha => ha) fun _ _ hf => hf.elim

theorem avoids_pure (a : α) : Avoids bad (pure a : Prog σ ε α) := fun _ => trivial

theorem avoids_throw {e : ε} (h : ¬bad e) : Avoids bad (throw e : Prog σ ε α) := fun _ => h

theorem avoids_get : Avoids bad (get : Prog σ ε σ) := fun _ => trivial

theorem avoids_modify (g : σ → σ) : Avoids bad (modify g : Prog σ ε PUnit) := fun _ => trivial

theorem avoids_modifyGet (g : σ → α × σ) : Avoids bad (modifyGet g : Prog σ ε α) :=
  fun _ => trivial

theorem avoids_bind {m : Prog σ ε β} (hm : Avoids bad m) (hf : ∀ b, Avoids bad (f b)) :
    Avoids bad (m >>= f) := by
  intro s
  rw [wp_bind]
  exact hm.wp (fun b s' => hf b s') fun _ _ he => he

/-- A handler sees every failure. -/
theorem avoids_tryCatch {h : ε → Prog σ ε α} (hm : Avoids bad m)
    (hh : ∀ e, ¬bad e → Avoids bad (h e)) : Avoids bad (tryCatch m h) := by
  intro s
  rw [wp_tryCatch]
  exact hm.wp (fun _ _ => trivial) fun e s' he => hh e he s'

theorem avoids_zoom {get : τ → σ} {put : σ → τ → τ} (hm : Avoids bad m) :
    Avoids bad (zoom get put m) := by
  intro t
  rw [wp_zoom]
  exact hm (get t)

theorem avoids_transact {restore : σ → σ → σ} (hm : Avoids bad m) :
    Avoids bad (transact restore m) := by
  intro s
  rw [wp_transact]
  exact hm s

/-- `m` fails badly from `s` exactly when `C` does not hold. -/
def AvoidsIff (bad : ε → Prop) (C : Prop) (m : Prog σ ε α) (s : σ) : Prop :=
  wp m (fun _ _ => C) (fun e _ => bad e ↔ ¬C) s

theorem AvoidsIff.iff (h : AvoidsIff bad C m s) :
    (∀ e s', m.run s = (.error e, s') → ¬bad e) ↔ C := by
  constructor
  · intro hall
    rcases hrun : m.run s with ⟨e | a, s'⟩
    · exact Classical.byContradiction fun hC => hall e s' hrun ((wp_error h hrun).mpr hC)
    · exact wp_ok h hrun
  · intro hC e s' hrun hbad
    exact (wp_error h hrun).mp hbad hC

theorem Avoids.iff (h : Avoids bad m) (hC : C) : AvoidsIff bad C m s :=
  h.wp (fun _ _ => hC) fun _ _ he => iff_of_false he fun hn => hn hC

theorem AvoidsIff.congr {C' : Prop} (h : AvoidsIff bad C m s) (hC : C ↔ C') :
    AvoidsIff bad C' m s := by
  rw [← propext hC]
  exact h

/-- What comes after the step that decides avoids the failure. -/
theorem AvoidsIff.bind_avoids {m : Prog σ ε β} (h : AvoidsIff bad C m s)
    (hf : ∀ b, Avoids bad (f b)) : AvoidsIff bad C (m >>= f) s := by
  unfold AvoidsIff
  rw [wp_bind]
  exact wp_mono h (fun b s' hC => (hf b).iff hC) fun _ _ he => he

end Avoids

/-! ### Results -/

section Yields

/-- From the states of `I` the program comes, if it does not fail, to a result
with `P`, and to a state of `I`. -/
def Yields (I : σ → Prop) (P : α → Prop) (m : Prog σ ε α) : Prop :=
  ∀ s, I s → wp m (fun a s' => I s' ∧ P a) (fun _ _ => True) s

variable {I : σ → Prop} {P : α → Prop} {Q : β → Prop} {m : Prog σ ε β} {f : β → Prog σ ε α}

theorem yields_pure {a : α} (h : P a) : Yields I P (pure a : Prog σ ε α) :=
  fun _ hs => ⟨hs, h⟩

theorem yields_throw (e : ε) : Yields I P (throw e : Prog σ ε α) := fun _ _ => trivial

theorem yields_bind (hm : Yields I Q m) (hf : ∀ b, Q b → Yields I P (f b)) :
    Yields I P (m >>= f) := by
  intro s hs
  rw [wp_bind]
  exact wp_mono (hm s hs) (fun b s' h => hf b h.2 s' h.1) fun _ _ _ => trivial

theorem yields_of_within (h : Within (Preserves I) m) : Yields I (fun _ => True) m := by
  intro s hs
  exact wp_mono (h s) (fun _ s' hs' => ⟨hs' hs, trivial⟩) fun _ _ _ => trivial

/-- A step of which only the state counts. -/
theorem yields_after (hm : Within (Preserves I) m) (hf : ∀ b, Yields I P (f b)) :
    Yields I P (m >>= f) :=
  yields_bind (yields_of_within hm) fun b _ => hf b

theorem yields_ite {c : Prop} [Decidable c] {m m' : Prog σ ε α} (h : c → Yields I P m)
    (h' : ¬c → Yields I P m') : Yields I P (if c then m else m') := by
  split
  · next hc => exact h hc
  · next hc => exact h' hc

end Yields

end Prog

end ProgramLogic
