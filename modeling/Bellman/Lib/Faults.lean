/-
Bellman/Lib/Faults.lean

Computations that return a value or an error, and may abort instead.

An error is an answer: the caller reads it.  An abort is none.  A computation
of `ExceptT ε (Except π)` has both, the errors within and the aborts without:

    .ok (.ok a)      it returns `a`
    .ok (.error e)   it returns the error `e`
    .error p         it aborts

`Returns x a` is the first, and `Faultless x` is that it does not abort.  Both
are given by a rule for each way of putting computations together.
-/
import Mathlib.Logic.Basic

namespace ProgramLogic

universe u

variable {ε π α β : Type u}

/-- The computation returns the value. -/
def Returns (x : ExceptT ε (Except π) α) (a : α) : Prop := x.run = .ok (.ok a)

/-- The computation returns a value or an error. -/
def Faultless (x : ExceptT ε (Except π) α) : Prop := ∃ r, x.run = .ok r

variable {x : ExceptT ε (Except π) α} {f : α → ExceptT ε (Except π) β} {y : Except π α} {a b : α}

theorem Returns.faultless (h : Returns x a) : Faultless x := ⟨_, h⟩

theorem Returns.unique (h : Returns x a) (h' : Returns x b) : a = b :=
  Except.ok.inj (Except.ok.inj (h.symm.trans h'))

/-- What a computation does: it returns, it fails or it aborts. -/
theorem run_cases (x : ExceptT ε (Except π) α) :
    (∃ a, Returns x a) ∨ (∃ e, x.run = .ok (.error e)) ∨ ∃ p, x.run = .error p := by
  cases h : x.run with
  | error p => exact .inr (.inr ⟨p, rfl⟩)
  | ok r =>
    cases r with
    | error e => exact .inr (.inl ⟨e, rfl⟩)
    | ok a => exact .inl ⟨a, h⟩

theorem returns_pure_iff : Returns (pure a : ExceptT ε (Except π) α) b ↔ a = b := by
  constructor
  · intro h
    exact Except.ok.inj (Except.ok.inj h)
  · rintro rfl
    rfl

theorem faultless_pure (a : α) : Faultless (pure a : ExceptT ε (Except π) α) := ⟨_, rfl⟩

theorem not_returns_throw (e : ε) : ¬Returns (throw e : ExceptT ε (Except π) α) a := nofun

theorem faultless_throw (e : ε) : Faultless (throw e : ExceptT ε (Except π) α) := ⟨_, rfl⟩

theorem returns_lift_iff : Returns (liftM y : ExceptT ε (Except π) α) a ↔ y = .ok a := by
  cases y with
  | error p => exact ⟨nofun, nofun⟩
  | ok b =>
    constructor
    · intro h
      exact congrArg Except.ok (Except.ok.inj (Except.ok.inj h))
    · rintro ⟨⟩
      rfl

theorem faultless_lift_iff : Faultless (liftM y : ExceptT ε (Except π) α) ↔ ∃ a, y = .ok a := by
  cases y with
  | error p =>
    constructor
    · rintro ⟨r, h⟩
      cases h
    · rintro ⟨a, h⟩
      cases h
  | ok b => exact iff_of_true ⟨_, rfl⟩ ⟨b, rfl⟩

theorem returns_bind_iff {c : β} :
    Returns (x >>= f) c ↔ ∃ a, Returns x a ∧ Returns (f a) c := by
  constructor
  · intro h
    rcases run_cases x with ⟨a, ha⟩ | ⟨e, he⟩ | ⟨p, hp⟩
    · refine ⟨a, ha, ?_⟩
      unfold Returns at *
      rwa [ExceptT.run_bind, ha] at h
    · unfold Returns at h
      rw [ExceptT.run_bind, he] at h
      cases h
    · unfold Returns at h
      rw [ExceptT.run_bind, hp] at h
      cases h
  · rintro ⟨a, ha, hc⟩
    unfold Returns at *
    rw [ExceptT.run_bind, ha]
    exact hc

theorem faultless_bind_iff :
    Faultless (x >>= f) ↔ Faultless x ∧ ∀ a, Returns x a → Faultless (f a) := by
  unfold Faultless
  rcases run_cases x with ⟨a, ha⟩ | ⟨e, he⟩ | ⟨p, hp⟩
  · have hrun : (x >>= f).run = (f a).run := by
      rw [ExceptT.run_bind, show x.run = _ from ha]
      rfl
    rw [hrun]
    constructor
    · intro h
      refine ⟨⟨_, ha⟩, fun b hb => ?_⟩
      rw [← ha.unique hb]
      exact h
    · exact fun h => h.2 a ha
  · have hnone : ∀ a, ¬Returns x a := fun a ha => nomatch he.symm.trans ha
    rw [ExceptT.run_bind, he]
    exact iff_of_true ⟨_, rfl⟩ ⟨⟨_, rfl⟩, fun a ha => absurd ha (hnone a)⟩
  · rw [ExceptT.run_bind, hp]
    exact iff_of_false (fun ⟨_, h⟩ => nomatch h) fun ⟨⟨_, h⟩, _⟩ => nomatch h

theorem faultless_lift_bind_iff :
    Faultless ((liftM y : ExceptT ε (Except π) α) >>= f) ↔ ∃ a, y = .ok a ∧ Faultless (f a) := by
  rw [faultless_bind_iff, faultless_lift_iff]
  simp only [returns_lift_iff]
  constructor
  · rintro ⟨⟨a, ha⟩, h⟩
    exact ⟨a, ha, h a ha⟩
  · rintro ⟨a, ha, h⟩
    refine ⟨⟨a, ha⟩, fun b hb => ?_⟩
    rw [← Except.ok.inj (ha.symm.trans hb)]
    exact h

theorem faultless_ite_iff {c : Prop} [Decidable c] {x' : ExceptT ε (Except π) α} :
    Faultless (if c then x else x') ↔ (c → Faultless x) ∧ (¬c → Faultless x') := by
  by_cases h : c
  · rw [if_pos h]
    exact ⟨fun hx => ⟨fun _ => hx, fun hc => absurd h hc⟩, fun hx => hx.1 h⟩
  · rw [if_neg h]
    exact ⟨fun hx => ⟨fun hc => absurd hc h, fun _ => hx⟩, fun hx => hx.2 h⟩

theorem exists_bind_iff {g : α → Except π β} :
    (∃ b, y >>= g = .ok b) ↔ ∃ a, y = .ok a ∧ ∃ b, g a = .ok b := by
  cases y with
  | error p => exact iff_of_false (fun ⟨_, h⟩ => nomatch h) fun ⟨_, h, _⟩ => nomatch h
  | ok a =>
    constructor
    · exact fun h => ⟨a, rfl, h⟩
    · rintro ⟨_, ⟨⟩, h⟩
      exact h

/-- A list is gone through when each of its elements is. -/
theorem exists_mapM_iff {g : α → Except π β} {l : List α} :
    (∃ bs, l.mapM g = .ok bs) ↔ ∀ a ∈ l, ∃ b, g a = .ok b := by
  induction l with
  | nil => exact iff_of_true ⟨[], rfl⟩ (fun _ h => absurd h List.not_mem_nil)
  | cons a l ih =>
    rw [List.mapM_cons, List.forall_mem_cons, ← ih]
    cases ha : g a with
    | error p => exact iff_of_false (fun ⟨_, h⟩ => nomatch h) fun ⟨⟨_, h⟩, _⟩ => nomatch h
    | ok b =>
      cases hl : l.mapM g with
      | error p => exact iff_of_false (fun ⟨_, h⟩ => nomatch h) fun ⟨_, ⟨_, h⟩⟩ => nomatch h
      | ok bs => exact iff_of_true ⟨_, rfl⟩ ⟨⟨b, rfl⟩, bs, rfl⟩

theorem exists_of_mem_mapM {g : α → Except π β} {l : List α} {bs : List β}
    (h : l.mapM g = .ok bs) {b : β} (hb : b ∈ bs) : ∃ a ∈ l, g a = .ok b := by
  induction l generalizing bs with
  | nil =>
    cases h
    exact absurd hb List.not_mem_nil
  | cons a l ih =>
    rw [List.mapM_cons] at h
    cases ha : g a with
    | error p =>
      rw [ha] at h
      cases h
    | ok c =>
      cases hl : l.mapM g with
      | error p =>
        rw [ha, hl] at h
        cases h
      | ok cs =>
        rw [ha, hl] at h
        cases h
        rcases List.mem_cons.mp hb with rfl | hb
        · exact ⟨a, List.mem_cons_self, ha⟩
        · obtain ⟨a', ha', hg⟩ := ih hl hb
          exact ⟨a', List.mem_cons_of_mem _ ha', hg⟩

/-- **Loop rule**: a step that never aborts and keeps an invariant can be
taken over a list. -/
theorem foldlM_rule {P : β → Prop} {g : β → α → Except π β}
    (hstep : ∀ b a, P b → ∃ b', g b a = .ok b' ∧ P b') (l : List α) {b : β} (hb : P b) :
    ∃ b', l.foldlM g b = .ok b' ∧ P b' := by
  induction l generalizing b with
  | nil => exact ⟨b, rfl, hb⟩
  | cons a l ih =>
    obtain ⟨b', hg, hb'⟩ := hstep b a hb
    rw [List.foldlM_cons, hg]
    exact ih hb'

end ProgramLogic
