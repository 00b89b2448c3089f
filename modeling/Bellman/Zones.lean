/-
Bellman/Zones.lean

Clocks that are put forward and back, and the instants that wall-clock times
stand for.

A zone of the tz database changes its offset rarely, by less than two days,
and at whole seconds.  Such a clock may leave out a stretch of local times
(a gap) or go over one twice (a fold), but it does not do both at once:

    gap    … 1:59:59  3:00:00 …            2:30 is not read
    fold   … 2:59:59  2:00:00 … 2:59:59 …  2:30 is read twice

So there is an instant at which the clock first comes to a local time: until
then it is before it (`Reached`).  In a gap that is the end of the gap, and
`resolveLocal` finds it there unless the gap lasts for more than three hours.

Main result: `resolveLocal` returns the instant at which the clock first
comes to a whole second, or the second is lost (`resolveLocal_spec`).
-/
import Bellman.Occurrence
import Mathlib.Order.Bounds.Basic
import Mathlib.Data.List.Nodup
import Mathlib.Tactic.Ring

namespace Bellman

namespace Zone

variable {z : Zone} {l l' p x y t u a : Int}

/-! ### The times that a clock reads -/

theorem secs_eq (n : Int) : secs n = n * 1000000000 := rfl

theorem day_eq : DAY = 86400000000000 := rfl

/-- The clock never reads the local time. -/
def Unread (z : Zone) (l : Int) : Prop := ∀ t, z.toLocal t ≠ l

/-- Nor does it read any of the three hours that follow. -/
def Lost (z : Zone) (l : Int) : Prop := ∀ y, l ≤ y → y ≤ l + 10800 * NS → z.Unread y

/-- How the zones of the tz database behave. -/
structure Regular (z : Zone) : Prop where
  /-- An offset is less than a day. -/
  bound : ∀ t, -86400 < z.offsetAt t ∧ z.offsetAt t < 86400
  /-- It changes at whole seconds. -/
  whole : ∀ t, z.offsetAt (t / NS * NS) = z.offsetAt t
  /-- In three days it changes at most once. -/
  calm : ∀ a b, b - a ≤ 3 * DAY →
    ∃ c, ∀ t, a ≤ t → t ≤ b → z.offsetAt t = z.offsetAt (if t < c then a else b)
  /-- Gaps of more than three hours, by which days are left out, are years apart. -/
  rare : ∀ l l', z.Lost l → z.Lost l' → l + 2 * DAY < l' → l + 1200 * DAY < l'
  /-- There are none at the end of the calendar. -/
  settled : ∀ l, Date.at (Date.max - 2) 0 ≤ l → ¬z.Unread l

/-- The clock first comes to the local time at the instant. -/
def Reached (z : Zone) (l t : Int) : Prop := l ≤ z.toLocal t ∧ ∀ a, a < t → z.toLocal a < l

theorem Reached.le (h : z.Reached l t) (ha : l ≤ z.toLocal a) : t ≤ a := by
  by_contra hlt
  exact absurd (h.2 a (Int.not_le.mp hlt)) (Int.not_lt.mpr ha)

/-- A later time is not come to earlier. -/
theorem Reached.mono (h : z.Reached l t) (h' : z.Reached l' u) (hle : l ≤ l') : t ≤ u :=
  h.le (hle.trans h'.1)

theorem mem_instantsOf_iff : t ∈ z.instantsOf l ↔ z.toLocal t = l := by
  constructor
  · exact mem_instantsOf
  · rintro rfl
    exact z.instantsOf_toLocal t

theorem instantsOf_nodup (z : Zone) (l : Int) : (z.instantsOf l).Nodup := by
  apply List.Nodup.filter
  apply (List.nodup_dedup _).map
  intro o o' h
  have h : l - secs o = l - secs o' := h
  rw [secs_eq, secs_eq] at h
  omega

theorem fromLocal_eq_none : z.fromLocal l = .none ↔ z.Unread l := by
  constructor
  · rintro h t rfl
    exact z.fromLocal_toLocal t h
  · intro h
    unfold fromLocal
    cases hl : z.instantsOf l with
    | nil => rfl
    | cons t ts =>
      have ht : t ∈ z.instantsOf l := hl ▸ List.mem_cons_self ..
      exact absurd (mem_instantsOf ht) (h t)

theorem foldl_min_le (ts : List Int) (t : Int) :
    ts.foldl min t ≤ t ∧ ∀ u ∈ ts, ts.foldl min t ≤ u := by
  induction ts generalizing t with
  | nil => exact ⟨Int.le_refl t, fun u hu => absurd hu (List.not_mem_nil)⟩
  | cons v ts ih =>
    obtain ⟨hle, hall⟩ := ih (min t v)
    rw [List.foldl_cons]
    refine ⟨hle.trans (Int.min_le_left t v), fun u hu => ?_⟩
    rcases List.mem_cons.mp hu with rfl | hu
    · exact hle.trans (Int.min_le_right t u)
    · exact hall u hu

/-- The one reading is the first. -/
theorem isLeast_of_single (h : z.fromLocal l = .single t) :
    IsLeast {u | z.toLocal u = l} t := by
  refine ⟨fromLocal_single h, fun u hu => ?_⟩
  have hu := mem_instantsOf_iff.mpr hu
  unfold fromLocal at h
  split at h
  · cases h
  · next hl =>
    cases h
    rw [hl] at hu
    exact (List.mem_singleton.mp hu).ge
  · cases h

/-- The earlier one of two is the first, and there are two. -/
theorem isLeast_of_ambiguous (h : z.fromLocal l = .ambiguous t u) :
    IsLeast {v | z.toLocal v = l} t ∧ ∃ v w, v < w ∧ z.toLocal v = l ∧ z.toLocal w = l := by
  have hread := (fromLocal_ambiguous h).1
  unfold fromLocal at h
  split at h
  · cases h
  · cases h
  · next v w rest hl =>
    have hnodup := z.instantsOf_nodup l
    rw [hl] at hnodup
    obtain ⟨hle, hall⟩ := foldl_min_le (w :: rest) v
    cases h
    refine ⟨⟨hread, fun a ha => ?_⟩, ?_⟩
    · have ha := mem_instantsOf_iff.mpr ha
      rw [hl] at ha
      rcases List.mem_cons.mp ha with rfl | ha
      · exact hle
      · exact hall a ha
    · have hv : z.toLocal v = l := mem_instantsOf (hl ▸ List.mem_cons_self ..)
      have hw : z.toLocal w = l :=
        mem_instantsOf (hl ▸ List.mem_cons_of_mem _ (List.mem_cons_self ..))
      have hne : v ≠ w := fun he => (List.nodup_cons.mp hnodup).1 (he ▸ List.mem_cons_self ..)
      rcases lt_or_gt_of_ne hne with hlt | hlt
      · exact ⟨v, w, hlt, hv, hw⟩
      · exact ⟨w, v, hlt, hw, hv⟩

/-! ### Gaps and folds -/

section Regular

variable (hz : z.Regular)

include hz

/-- What the clock is past, it has read, if it ever reads it. -/
theorem exists_read_le (hle : l ≤ z.toLocal a) (ht : z.toLocal t = l) :
    ∃ u, u ≤ a ∧ z.toLocal u = l := by
  by_cases hta : t ≤ a
  · exact ⟨t, hta, ht⟩
  have hbound := hz.bound t
  have hbound' := hz.bound a
  -- The clock is put back between `a` and `t`; so it is not before `a`.
  have hu : l - secs (z.offsetAt a) ≤ a := by
    unfold toLocal at hle
    omega
  refine ⟨l - secs (z.offsetAt a), hu, ?_⟩
  have hnear : t - (l - secs (z.offsetAt a)) ≤ 3 * DAY := by
    rw [toLocal, secs_eq] at ht
    rw [secs_eq, day_eq]
    omega
  obtain ⟨c, hc⟩ := hz.calm _ _ hnear
  have hca := hc a hu (by omega)
  have hcu := hc (l - secs (z.offsetAt a)) (Int.le_refl _) (hu.trans (by omega))
  by_cases hac : a < c
  · rw [if_pos hac] at hca
    unfold toLocal
    rw [← hca]
    omega
  · rw [if_neg hac] at hca
    unfold toLocal at ht hle
    rw [hca] at hle
    omega

theorem reached_of_isLeast (ht : IsLeast {u | z.toLocal u = l} t) : z.Reached l t := by
  refine ⟨ht.1.ge, fun a ha => ?_⟩
  by_contra hle
  obtain ⟨u, hu, hread⟩ := exists_read_le hz (Int.not_lt.mp hle) ht.1
  exact absurd (ht.2 hread) (by omega)

/-- Between two times of a day that the clock does not read, it reads none. -/
theorem unread_between (hl : z.Unread l) (hl' : z.Unread l') (hday : l' - l ≤ DAY)
    (hly : l ≤ y) (hyl : y ≤ l') : z.Unread y := by
  intro t ht
  obtain ⟨c, hc⟩ := hz.calm (t - (y - l)) (t + (l' - y)) (by omega)
  have ht' := hc t (by omega) (by omega)
  unfold toLocal at ht
  split at ht'
  · refine hl (t - (y - l)) ?_
    unfold toLocal
    rw [← ht']
    omega
  · refine hl' (t + (l' - y)) ?_
    unfold toLocal
    rw [← ht']
    omega

/-- A day after a time that the clock does not read, it reads none twice. -/
theorem not_fold_of_unread (hp : z.Unread p) (hpx : p < x) (hday : x ≤ p + DAY) (hlt : t < u)
    (ht : z.toLocal t = x) (hu : z.toLocal u = x) : False := by
  have hbound := hz.bound t
  have hbound' := hz.bound u
  unfold toLocal at ht hu
  have hnear : u - (t - (x - p)) ≤ 3 * DAY := by
    rw [secs_eq] at ht hu
    rw [day_eq] at hday ⊢
    omega
  obtain ⟨c, hc⟩ := hz.calm _ _ hnear
  have ht' := hc t (by omega) (by omega)
  split at ht'
  · refine hp (t - (x - p)) ?_
    unfold toLocal
    rw [← ht']
    omega
  · rw [ht'] at ht
    omega

/-! ### Where a gap ends -/

/-- The first whole second after a gap that is read is where the gap ends. -/
theorem reached_of_marks (hl : NS ∣ l) {k : Nat}
    (ht : IsLeast {u | z.toLocal u = l + k * NS} t)
    (hmarks : ∀ j : Nat, j < k → z.Unread (l + j * NS)) : z.Reached l t := by
  have hread : z.toLocal t = l + k * NS := ht.1
  have hns : NS = 1000000000 := rfl
  refine ⟨by rw [hread, hns]; omega, fun a ha => ?_⟩
  have hlt := (reached_of_isLeast hz ht).2 a ha
  by_contra hle
  obtain ⟨q, rfl⟩ := hl
  -- The whole second that the clock shows at `a` is one of those not read.
  have hwhole := hz.whole a
  refine hmarks ((z.toLocal a - NS * q) / NS).toNat ?_ (a / NS * NS) ?_
  · rw [hns] at hlt hle ⊢
    omega
  · unfold toLocal at hle ⊢
    rw [hwhole, secs_eq] at *
    rw [hns] at hle ⊢
    omega

omit hz in
/-- The walk by seconds finds the first one that is read. -/
theorem firstSecondInWindow_spec {g : Int} {n : Nat}
    (hsome : ∃ k : Nat, 1 ≤ k ∧ k ≤ n ∧ ¬z.Unread (p + k * NS)) :
    ∃ k : Nat, 1 ≤ k ∧ IsLeast {u | z.toLocal u = p + k * NS} (firstSecondInWindow z g n p) ∧
      ∀ j : Nat, 1 ≤ j → j < k → z.Unread (p + j * NS) := by
  induction n generalizing p with
  | zero =>
    obtain ⟨k, hk, hk', -⟩ := hsome
    omega
  | succ n ih =>
    have hone : p + (1 : Nat) * NS = p + NS := by rw [Int.natCast_one, Int.one_mul]
    have hnone : ∀ j : Nat, 1 ≤ j → j < 1 → z.Unread (p + j * NS) := fun j h1 h2 => by omega
    unfold firstSecondInWindow
    split
    · next t h =>
      refine ⟨1, Nat.le_refl 1, ?_, hnone⟩
      rw [hone]
      exact isLeast_of_single h
    · next e u h =>
      refine ⟨1, Nat.le_refl 1, ?_, hnone⟩
      rw [hone]
      exact (isLeast_of_ambiguous h).1
    · next h =>
      have hunread := fromLocal_eq_none.mp h
      have hshift : ∀ j : Nat, p + (j + 1 : Nat) * NS = p + NS + j * NS := by
        intro j
        push_cast
        ring
      obtain ⟨k, hk, hkn, hread⟩ := hsome
      obtain ⟨k, rfl⟩ := Nat.exists_eq_add_of_le' hk
      obtain ⟨k', hk', hleast, hmarks⟩ := ih (p := p + NS) ⟨k, by
        by_contra hzero
        obtain rfl : k = 0 := by omega
        rw [hone] at hread
        exact hread hunread, by omega, by rwa [← hshift]⟩
      refine ⟨k' + 1, Nat.le_add_left 1 k', by rwa [hshift], fun j hj hjk => ?_⟩
      obtain ⟨j, rfl⟩ := Nat.exists_eq_add_of_le' hj
      rw [hshift]
      rcases Nat.eq_zero_or_pos j with rfl | hpos
      · rwa [Int.natCast_zero, Int.zero_mul, Int.add_zero]
      · exact hmarks j hpos (by omega)

/-- The walk by minutes finds the end of the gap, or there is none as far as
it goes. -/
theorem stepMinutes_spec (hl : NS ∣ l) {n m : Nat} (hday : (m + n) * 60 ≤ 86400)
    (hunread : ∀ y, l ≤ y → y ≤ l + m * 60 * NS → z.Unread y) :
    match stepMinutes z n (l + m * 60 * NS) with
    | some t => z.Reached l t
    | none => ∀ y, l ≤ y → y ≤ l + (m + n : Nat) * 60 * NS → z.Unread y := by
  induction n generalizing m with
  | zero => exact hunread
  | succ n ih =>
    have hns : NS = 1000000000 := rfl
    have hprobe : l + m * 60 * NS + 60 * NS = l + (m + 1 : Nat) * 60 * NS := by
      push_cast
      ring
    have hp : z.Unread (l + m * 60 * NS) := hunread _ (by rw [hns]; omega) (Int.le_refl _)
    have hstart : z.Unread l := hunread _ (Int.le_refl _) (by rw [hns]; omega)
    unfold stepMinutes
    cases hu : z.fromLocal (l + m * 60 * NS + 60 * NS) with
    | single u =>
      -- The minute is read, and one of its seconds is the first.
      have hread := fromLocal_single hu
      obtain ⟨k, hk, hleast, hmarks⟩ := firstSecondInWindow_spec (n := 62)
        (p := l + m * 60 * NS) ⟨60, by omega, by omega, fun hun => hun u hread⟩
      have hsum : ∀ k : Nat, l + m * 60 * NS + k * NS = l + (m * 60 + k : Nat) * NS := by
        intro k
        push_cast
        ring
      rw [hsum] at hleast
      refine reached_of_marks hz hl hleast fun j hj => ?_
      by_cases hjm : j ≤ m * 60
      · have hle : (j : Int) ≤ m * 60 := by exact_mod_cast hjm
        exact hunread _ (by rw [hns]; omega) (by rw [hns]; omega)
      · obtain ⟨i, rfl⟩ := Nat.exists_eq_add_of_lt (Nat.not_le.mp hjm)
        have hi := hmarks (i + 1) (by omega) (by omega)
        rwa [hsum] at hi
    | ambiguous e u =>
      -- After a gap no time is read twice.
      obtain ⟨-, v, w, hlt, hv, hw⟩ := isLeast_of_ambiguous hu
      have hbefore : l + m * 60 * NS < l + m * 60 * NS + 60 * NS := by
        rw [hns]
        omega
      have hafter : l + m * 60 * NS + 60 * NS ≤ l + m * 60 * NS + DAY := by
        rw [hns, day_eq]
        omega
      exact (not_fold_of_unread hz hp hbefore hafter hlt hv hw).elim
    | none =>
      have hend := fromLocal_eq_none.mp hu
      rw [hprobe] at hend ⊢
      have hmore := ih (m := m + 1) (by omega) fun y hly hyl =>
        unread_between hz hstart hend (by rw [hns, day_eq]; push_cast; omega) hly hyl
      have hsum : m + 1 + n = m + (n + 1) := by omega
      rwa [hsum] at hmore

omit hz in
/-- In a gap the walk by seconds finds nothing. -/
theorem stepSeconds_eq_none {n : Nat} (h : ∀ y, p ≤ y → y ≤ p + n * NS → z.Unread y) :
    stepSeconds z n p = none := by
  have hns : NS = 1000000000 := rfl
  induction n generalizing p with
  | zero => rfl
  | succ n ih =>
    have hnext := h (p + NS) (by rw [hns]; omega) (by rw [hns]; push_cast; omega)
    unfold stepSeconds
    rw [fromLocal_eq_none.mpr hnext]
    refine ih fun y hpy hyp => h y ?_ ?_
    · rw [hns] at hpy
      omega
    · rw [hns] at hyp ⊢
      push_cast
      omega

/-- **A whole second stands for the instant at which the clock first comes to
it**, unless it is lost. -/
theorem resolveLocal_spec (hl : NS ∣ l) (gap : DstGapPolicy) (fold : DstFoldPolicy) :
    match resolveLocal z l gap fold with
    | some t => z.Reached l t
    | none => z.Lost l := by
  have hns : NS = 1000000000 := rfl
  unfold resolveLocal
  cases h : z.fromLocal l with
  | single t => exact reached_of_isLeast hz (isLeast_of_single h)
  | ambiguous t u =>
    cases fold
    exact reached_of_isLeast hz (isLeast_of_ambiguous h).1
  | none =>
    cases gap
    have hunread := fromLocal_eq_none.mp h
    have hstart : l + (0 : Nat) * 60 * NS = l := by simp
    have hsteps := stepMinutes_spec hz hl (n := 180) (m := 0) (by omega) fun y hly hyl => by
      obtain rfl : y = l := by omega
      exact hunread
    rw [hstart] at hsteps
    show match firstValidAfterGap z l with
      | some t => z.Reached l t
      | none => z.Lost l
    unfold firstValidAfterGap
    cases hmin : stepMinutes z 180 l with
    | some t =>
      rw [hmin] at hsteps
      exact hsteps
    | none =>
      rw [hmin] at hsteps
      have hlost : z.Lost l := fun y hly hyl => hsteps y hly (by
        rw [hns] at hyl ⊢
        push_cast
        omega)
      rw [Option.none_or, stepSeconds_eq_none fun y hly hyl => hlost y hly (by exact_mod_cast hyl)]
      exact hlost

/-- A gap is less than two days long. -/
theorem Reached.lt (h : z.Reached l t) : z.toLocal t < l + 2 * DAY := by
  have hbefore := h.2 (t - 1) (by omega)
  have hbound := hz.bound t
  have hbound' := hz.bound (t - 1)
  rw [toLocal, secs_eq] at hbefore ⊢
  rw [day_eq]
  omega

/-- A time that is read at all is read when the clock comes to it. -/
theorem Reached.toLocal_eq (h : z.Reached l t) (hl : ¬z.Unread l) : z.toLocal t = l := by
  obtain ⟨u, hu⟩ : ∃ u, z.toLocal u = l := by
    by_contra hnone
    exact hl fun u hu => hnone ⟨u, hu⟩
  obtain ⟨v, hv, hread⟩ := exists_read_le hz h.1 hu
  rcases hv.lt_or_eq with hlt | rfl
  · exact absurd hread (h.2 v hlt).ne
  · exact hread

end Regular

theorem regular_utc : Zone.utc.Regular where
  bound t := by simp [offsetAt, utc]
  whole t := rfl
  calm a b _ := ⟨a, fun _ _ _ => rfl⟩
  rare l l' hl _ _ := (hl l (Int.le_refl l) (by rw [show NS = 1000000000 from rfl]; omega) l
    (toLocal_utc l)).elim
  settled l _ h := h l (toLocal_utc l)

end Zone

end Bellman
