/-
Bellman/Lib/Walk.lean

Walks up an order, as far as a bound.

A partial function that only goes up is followed from a start, one step
after another, until it ends or steps beyond the bound:

    c  →  next c  →  next (next c)  →  …        all of them ≤ bound

`upTo` is the loop that makes at most so many steps, and `backlog` is all
there is to walk.  Between a start and a bound there is only a finite number
of places, so the walk comes to its end.

A loop with a cap is the beginning of the whole walk (`upTo_eq_take`), and
where it stops, the rest of the walk is ahead (`backlog_last`).
-/
import Mathlib.Order.Interval.Finset.Defs

namespace ProgramLogic

namespace Walk

variable {α : Type} [LinearOrder α]

/-- Every step goes up. -/
def Climbs (next : α → Option α) : Prop := ∀ ⦃c t⦄, next c = some t → c < t

/-- The next place, unless it is beyond the bound. -/
def step (next : α → Option α) (bound c : α) : Option α := (next c).filter (· ≤ bound)

/-- At most `fuel` steps of the walk. -/
def upTo (next : α → Option α) (bound : α) : Nat → α → List α
  | 0, _ => []
  | fuel + 1, c =>
    match step next bound c with
    | none => []
    | some t => t :: upTo next bound fuel t

/-- The whole walk: no longer than there are places. -/
def backlog [LocallyFiniteOrder α] (next : α → Option α) (bound c : α) : List α :=
  upTo next bound (Finset.Ioc c bound).card c

variable {next : α → Option α} {bound c t : α}

theorem step_eq_some : step next bound c = some t ↔ next c = some t ∧ t ≤ bound := by
  simp [step, Option.filter_eq_some_iff]

theorem step_eq_none : step next bound c = none ↔ ∀ t, next c = some t → bound < t := by
  simp [step, Option.filter_eq_none_iff]

variable [LocallyFiniteOrder α]

/-- A step leaves fewer places ahead. -/
theorem card_lt (hnext : Climbs next) (h : step next bound c = some t) :
    (Finset.Ioc t bound).card < (Finset.Ioc c bound).card := by
  obtain ⟨ht, hle⟩ := step_eq_some.mp h
  have hlt := hnext ht
  apply Finset.card_lt_card
  rw [Finset.ssubset_iff_of_subset]
  · exact ⟨t, Finset.mem_Ioc.mpr ⟨hlt, hle⟩, fun hm => lt_irrefl t (Finset.mem_Ioc.mp hm).1⟩
  · intro x hx
    obtain ⟨hx, hxb⟩ := Finset.mem_Ioc.mp hx
    exact Finset.mem_Ioc.mpr ⟨hlt.trans hx, hxb⟩

omit [LocallyFiniteOrder α] in
theorem upTo_nil (h : step next bound c = none) (n : Nat) : upTo next bound n c = [] := by
  cases n with
  | zero => rfl
  | succ n => simp [upTo, h]

omit [LocallyFiniteOrder α] in
theorem upTo_cons (h : step next bound c = some t) (n : Nat) :
    upTo next bound (n + 1) c = t :: upTo next bound n t := by
  simp [upTo, h]

/-- Steps beyond the number of places make no difference. -/
theorem upTo_congr (hnext : Climbs next) {n m : Nat} (hn : (Finset.Ioc c bound).card ≤ n)
    (hm : (Finset.Ioc c bound).card ≤ m) : upTo next bound n c = upTo next bound m c := by
  induction n generalizing m c with
  | zero =>
    have hnone : step next bound c = none := by
      cases hs : step next bound c with
      | none => rfl
      | some t =>
        have hlt := card_lt hnext hs
        omega
    rw [upTo_nil hnone, upTo_nil hnone]
  | succ n ih =>
    cases hs : step next bound c with
    | none => rw [upTo_nil hs, upTo_nil hs]
    | some t =>
      have hlt := card_lt hnext hs
      cases m with
      | zero => omega
      | succ m =>
        rw [upTo_cons hs, upTo_cons hs]
        exact congrArg (t :: ·) (ih (by omega) (by omega))

theorem backlog_nil (h : step next bound c = none) : backlog next bound c = [] := upTo_nil h _

theorem backlog_cons (hnext : Climbs next) (h : step next bound c = some t) :
    backlog next bound c = t :: backlog next bound t := by
  have hlt := card_lt hnext h
  unfold backlog
  obtain ⟨n, hn⟩ := Nat.exists_eq_succ_of_ne_zero (Nat.ne_zero_of_lt hlt)
  rw [hn, upTo_cons h]
  exact congrArg (t :: ·) (upTo_congr hnext (by omega) (Nat.le_refl _))

theorem backlog_eq_nil (hnext : Climbs next) :
    backlog next bound c = [] ↔ step next bound c = none := by
  constructor
  · intro h
    cases hs : step next bound c with
    | none => rfl
    | some t =>
      rw [backlog_cons hnext hs] at h
      cases h
  · exact backlog_nil

/-- Induction along the walk. -/
theorem climb_induction (hnext : Climbs next) {P : α → Prop} (bound : α)
    (stop : ∀ c, step next bound c = none → P c)
    (climb : ∀ c t, step next bound c = some t → P t → P c) (c : α) : P c := by
  generalize hn : (Finset.Ioc c bound).card = n
  induction n using Nat.strong_induction_on generalizing c with
  | h n ih =>
    cases hs : step next bound c with
    | none => exact stop c hs
    | some t => exact climb c t hs (ih _ (hn ▸ card_lt hnext hs) t rfl)

/-! ### Where the walk goes -/

theorem mem_backlog (hnext : Climbs next) (h : t ∈ backlog next bound c) : c < t ∧ t ≤ bound := by
  induction c using climb_induction hnext bound with
  | stop c hs =>
    rw [backlog_nil hs] at h
    cases h
  | climb c u hs ih =>
    obtain ⟨hu, hle⟩ := step_eq_some.mp hs
    rw [backlog_cons hnext hs] at h
    rcases List.mem_cons.mp h with rfl | h
    · exact ⟨hnext hu, hle⟩
    · exact ⟨(hnext hu).trans (ih h).1, (ih h).2⟩

theorem backlog_sorted (hnext : Climbs next) (bound c : α) :
    (backlog next bound c).Pairwise (· < ·) := by
  induction c using climb_induction hnext bound with
  | stop c hs =>
    rw [backlog_nil hs]
    exact .nil
  | climb c t hs ih =>
    rw [backlog_cons hnext hs]
    exact List.pairwise_cons.mpr ⟨fun u hu => (mem_backlog hnext hu).1, ih⟩

/-- From the bound on there is nothing to walk. -/
theorem backlog_of_le (hnext : Climbs next) (h : bound ≤ c) : backlog next bound c = [] := by
  apply backlog_nil
  rw [step_eq_none]
  exact fun t ht => h.trans_lt (hnext ht)

/-- A loop with a cap walks the beginning. -/
theorem upTo_eq_take (hnext : Climbs next) (bound : α) (n : Nat) (c : α) :
    upTo next bound n c = (backlog next bound c).take n := by
  induction n generalizing c with
  | zero => rw [List.take_zero, upTo]
  | succ n ih =>
    cases hs : step next bound c with
    | none => rw [upTo_nil hs, backlog_nil hs, List.take_nil]
    | some t => rw [upTo_cons hs, backlog_cons hnext hs, List.take_succ_cons, ih]

/-- **Where a walk stops** after `n` steps at most, the walk to any bound has
as many places behind it. -/
theorem backlog_last (hnext : Climbs next) (bound bound' : α) (n : Nat) (c : α) :
    backlog next bound (((backlog next bound' c).take n).getLastD c) =
      (backlog next bound c).drop ((backlog next bound' c).take n).length := by
  induction n generalizing c with
  | zero => rfl
  | succ n ih =>
    cases hs : step next bound' c with
    | none => rw [backlog_nil hs, List.take_nil]; rfl
    | some t =>
      rw [backlog_cons hnext hs, List.take_succ_cons, List.getLastD_cons, List.length_cons, ih]
      by_cases ht : t ≤ bound
      · have hs' := step_eq_some.mpr ⟨(step_eq_some.mp hs).1, ht⟩
        rw [backlog_cons hnext hs', List.drop_succ_cons]
      · -- The walk to the bound has ended already.
        have hlt := not_le.mp ht
        have hs' : step next bound c = none := by
          rw [step_eq_none]
          intro u hu
          rw [(step_eq_some.mp hs).1] at hu
          exact Option.some.inj hu ▸ hlt
        rw [backlog_nil hs', backlog_of_le hnext hlt.le, List.drop_nil, List.drop_nil]

theorem backlog_end (hnext : Climbs next) (bound c : α) :
    backlog next bound ((backlog next bound c).getLastD c) = [] := by
  have h := backlog_last hnext bound bound (backlog next bound c).length c
  rwa [List.take_length, List.drop_length] at h

/-- The beginning of a walk ends at the greatest of its places. -/
theorem take_isGreatest (hnext : Climbs next) (bound : α) (n : Nat) (c : α) :
    IsGreatest {u | u ∈ c :: (backlog next bound c).take n}
      (((backlog next bound c).take n).getLastD c) := by
  induction n generalizing c with
  | zero => exact ⟨List.mem_singleton_self c, fun u hu => (List.mem_singleton.mp hu).le⟩
  | succ n ih =>
    cases hs : step next bound c with
    | none =>
      rw [backlog_nil hs, List.take_nil]
      exact ⟨List.mem_singleton_self c, fun u hu => (List.mem_singleton.mp hu).le⟩
    | some t =>
      rw [backlog_cons hnext hs, List.take_succ_cons, List.getLastD_cons]
      refine ⟨List.mem_cons_of_mem c (ih t).1, fun u hu => ?_⟩
      rcases List.mem_cons.mp hu with rfl | hu
      · exact (hnext (step_eq_some.mp hs).1).le.trans ((ih t).2 (List.mem_cons_self ..))
      · exact (ih t).2 hu

theorem backlog_isGreatest (hnext : Climbs next) (bound c : α) :
    IsGreatest {u | u ∈ c :: backlog next bound c} ((backlog next bound c).getLastD c) := by
  have h := take_isGreatest hnext bound (backlog next bound c).length c
  rwa [List.take_length] at h

omit [LocallyFiniteOrder α] in
/-- The last place of a list that passes a test which later places pass too. -/
theorem getLast?_filter {l : List α} {x : α} (hx : IsGreatest {u | u ∈ l} x)
    (hsorted : l.Pairwise (· < ·)) {p : α → Bool} (hp : ∀ u, u ≤ x → p u = true → p x = true) :
    (l.filter p).getLast? = if p x then some x else none := by
  obtain ⟨l, rfl⟩ : ∃ l', l = l' ++ [x] := by
    cases hl : l.getLast? with
    | none =>
      rw [List.getLast?_eq_none_iff.mp hl] at hx
      exact (List.not_mem_nil hx.1).elim
    | some y =>
      obtain ⟨l', rfl⟩ := List.getLast?_eq_some_iff.mp hl
      refine ⟨l', ?_⟩
      have hle : y ≤ x := hx.2 (List.mem_append_right _ (List.mem_singleton_self y))
      rcases List.mem_append.mp hx.1 with hmem | hmem
      · have hlt := (List.pairwise_append.mp hsorted).2.2 x hmem y (List.mem_singleton_self y)
        exact absurd hle (not_le.mpr hlt)
      · rw [List.mem_singleton.mp hmem]
  rw [List.filter_append]
  split
  · next hpx =>
    rw [List.filter_singleton, hpx, cond_true, List.getLast?_concat]
  · next hpx =>
    have hnone : l.filter p = [] := by
      rw [List.filter_eq_nil_iff]
      exact fun u hu hpu => hpx (hp u (hx.2 (List.mem_append_left _ hu)) hpu)
    rw [hnone, List.filter_singleton, Bool.eq_false_iff.mpr hpx]
    rfl

omit [LocallyFiniteOrder α] in
/-- The places that pass a test which earlier places pass too are the first
ones. -/
theorem filter_append_filter_not {l : List α} (hsorted : l.Pairwise (· < ·)) {p : α → Bool}
    (hp : ∀ u v, u < v → p v = true → p u = true) :
    l.filter p ++ l.filter (fun x => !p x) = l := by
  induction l with
  | nil => rfl
  | cons x l ih =>
    obtain ⟨hx, hsorted⟩ := List.pairwise_cons.mp hsorted
    by_cases hpx : p x = true
    · rw [List.filter_cons_of_pos hpx, List.filter_cons_of_neg (by simp [hpx]), List.cons_append,
        ih hsorted]
    · have hnot : ∀ u ∈ l, ¬p u = true := fun u hu hpu => hpx (hp x u (hx u hu) hpu)
      rw [List.filter_cons_of_neg hpx, List.filter_cons_of_pos (by simp [hpx]),
        List.filter_eq_nil_iff.mpr hnot, List.nil_append]
      rw [List.filter_eq_self.mpr fun u hu => by simp [hnot u hu]]

end Walk

end ProgramLogic
