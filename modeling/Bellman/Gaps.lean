/-
Bellman/Gaps.lean

What a local time stands for, over any table of offsets.

In ordinary time it is the instant at which the clock reads it, in a fold the
earlier one of two, and in a gap the instant at which the clock first reads a
whole second again.  In a gap the code looks for that second by minutes, and
then by seconds within the minute that it found:

    l                 l + k min       l + (k + 1) min
    | not read ...... | ..... first ...... | read

so it finds the first second that is read as long as no second before the
minute is read, and the minute itself is not read twice, for then it is taken
as it is.  All these times have the fraction of a second that `l` has.

Main result: which local times are resolved as they should be, and when
later times have later instants (`resolveLocal_iff`).
-/
import Bellman.Zones

namespace Bellman

namespace Zone

variable {z : Zone} {l l' p t u : Int}

/-! ### What a local time stands for -/

/-- The clock is changed at whole seconds. -/
def Whole (z : Zone) : Prop := ∀ tr ∈ z.transitions, NS ∣ tr.1

/-- No gap lasts for more than three hours. -/
def ShortGaps (z : Zone) : Prop := ∀ l, ∃ t, l ≤ z.toLocal t ∧ z.toLocal t ≤ l + 10800 * NS

/-- The instant that a local time stands for. -/
structure StandsFor (z : Zone) (l t : Int) : Prop where
  /-- The clock reads the time, and does so first at the instant. -/
  read : ¬z.Unread l → IsLeast {u | z.toLocal u = l} t
  /-- In a gap the first whole second that is read stands in for the time. -/
  gap : z.Unread l → ∃ s, IsLeast {s | l ≤ s ∧ NS ∣ s ∧ ¬z.Unread s} s ∧
    IsLeast {u | z.toLocal u = s} t

/-- The local time is resolved, and as it should be. -/
def Resolves (z : Zone) (l : Int) (gap : DstGapPolicy) (fold : DstFoldPolicy) : Prop :=
  ∃ t, resolveLocal z l gap fold = some t ∧ z.StandsFor l t

/-- The clock reads the local time twice. -/
def Twice (z : Zone) (l : Int) : Prop := ∃ t u, t < u ∧ z.toLocal t = l ∧ z.toLocal u = l

/-- The walk by minutes does not step over the first second that is read. -/
structure StepsRight (z : Zone) (l : Int) : Prop where
  whole : NS ∣ l
  minute : ∀ k : Nat, k < 180 → (∀ j : Nat, j ≤ k → z.Unread (l + j * 60 * NS)) →
    ¬z.Unread (l + (k + 1 : Nat) * 60 * NS) → ∀ i : Nat, i ≤ k * 60 → z.Unread (l + i * NS)
  twice : ∀ k : Nat, k < 180 → (∀ j : Nat, j ≤ k → z.Unread (l + j * 60 * NS)) →
    z.Twice (l + (k + 1 : Nat) * 60 * NS) →
    ∀ i : Nat, i < (k + 1) * 60 → z.Unread (l + i * NS)

/-- When the clock first reads a time, it has not been past it before. -/
def Orderly (z : Zone) : Prop :=
  ∀ t, (∀ a < t, z.toLocal a ≠ z.toLocal t) → ∀ a < t, z.toLocal a < z.toLocal t

/-! ### What the walks find -/

theorem eq_of_single (h : z.fromLocal l = .single t) (hu : z.toLocal u = l) : u = t := by
  have hu := mem_instantsOf_iff.mpr hu
  unfold fromLocal at h
  split at h
  · cases h
  · next hl =>
    cases h
    rw [hl] at hu
    exact List.mem_singleton.mp hu
  · cases h

theorem not_twice_of_single (h : z.fromLocal l = .single t) : ¬z.Twice l := by
  rintro ⟨u, v, hlt, hu, hv⟩
  rw [eq_of_single h hu, eq_of_single h hv] at hlt
  exact Int.lt_irrefl t hlt

/-- The first of the seconds after `p` that is read is read first at `t`. -/
structure FirstRead (z : Zone) (p : Int) (i : Nat) (t : Int) : Prop where
  least : IsLeast {u | z.toLocal u = p + i * NS} t
  before : ∀ j : Nat, 1 ≤ j → j < i → z.Unread (p + j * NS)

theorem FirstRead.not_unread {i : Nat} (h : z.FirstRead p i t) : ¬z.Unread (p + i * NS) :=
  fun hun => hun t h.least.1

theorem stepSeconds_spec (z : Zone) (n : Nat) (p : Int) :
    match stepSeconds z n p with
    | some t => ∃ i : Nat, 1 ≤ i ∧ i ≤ n ∧ z.FirstRead p i t
    | none => ∀ i : Nat, 1 ≤ i → i ≤ n → z.Unread (p + i * NS) := by
  induction n generalizing p with
  | zero => exact fun i h1 h0 => by omega
  | succ n ih =>
    have hone : p + (1 : Nat) * NS = p + NS := by rw [Int.natCast_one, Int.one_mul]
    have hfirst : ∀ t, IsLeast {u | z.toLocal u = p + NS} t →
        ∃ i : Nat, 1 ≤ i ∧ i ≤ n + 1 ∧ z.FirstRead p i t := by
      intro t ht
      rw [← hone] at ht
      exact ⟨1, Nat.le_refl 1, by omega, ht, fun j hj hj' => by omega⟩
    have hshift : ∀ j : Nat, p + NS + j * NS = p + (j + 1 : Nat) * NS := by
      intro j
      push_cast
      ring
    unfold stepSeconds
    cases h : z.fromLocal (p + NS) with
    | single t => exact hfirst t (isLeast_of_single h)
    | ambiguous t u => exact hfirst t (isLeast_of_ambiguous h).1
    | none =>
      have hunread := fromLocal_eq_none.mp h
      -- The first second is not read, so what is found is found from it on.
      have hmore : ∀ j : Nat, 1 ≤ j → (2 ≤ j → z.Unread (p + j * NS)) → z.Unread (p + j * NS) := by
        intro j hj hafter
        by_cases hfar : 2 ≤ j
        · exact hafter hfar
        · obtain rfl : j = 1 := by omega
          rwa [hone]
      have hrest := ih (p + NS)
      dsimp only
      cases hstep : stepSeconds z n (p + NS) with
      | some t =>
        rw [hstep] at hrest
        obtain ⟨i, hi, hin, hleast, hbefore⟩ := hrest
        rw [hshift] at hleast
        refine ⟨i + 1, by omega, by omega, hleast, fun j hj hji => hmore j hj fun hfar => ?_⟩
        obtain ⟨j, rfl⟩ := Nat.exists_eq_add_of_le' hj
        rw [← hshift]
        exact hbefore j (by omega) (by omega)
      | none =>
        rw [hstep] at hrest
        intro i hi hin
        refine hmore i hi fun hfar => ?_
        obtain ⟨i, rfl⟩ := Nat.exists_eq_add_of_le' hi
        rw [← hshift]
        exact hrest i (by omega) (by omega)

/-- The first of the minutes after `p` that is read. -/
structure FirstMinute (z : Zone) (p : Int) (k : Nat) : Prop where
  read : ¬z.Unread (p + (k + 1 : Nat) * 60 * NS)
  before : ∀ j : Nat, 1 ≤ j → j ≤ k → z.Unread (p + j * 60 * NS)

theorem FirstMinute.unique {k k' : Nat} (h : z.FirstMinute p k) (h' : z.FirstMinute p k') :
    k = k' := by
  rcases Nat.lt_trichotomy k k' with hlt | heq | hlt
  · exact absurd (h'.before (k + 1) (by omega) hlt) h.read
  · exact heq
  · exact absurd (h.before (k' + 1) (by omega) hlt) h'.read

/-- What a minute that is read is refined to. -/
structure Refined (z : Zone) (p : Int) (k : Nat) (t : Int) : Prop where
  twice : z.Twice (p + (k + 1 : Nat) * 60 * NS) →
    IsLeast {u | z.toLocal u = p + (k + 1 : Nat) * 60 * NS} t
  once : ¬z.Twice (p + (k + 1 : Nat) * 60 * NS) → ∃ i : Nat, 1 ≤ i ∧ i ≤ 60 ∧
    z.FirstRead (p + k * 60 * NS) i t

theorem stepMinutes_found (z : Zone) (n : Nat) (p : Int) :
    match stepMinutes z n p with
    | some t => ∃ k < n, z.FirstMinute p k ∧ z.Refined p k t
    | none => ∀ j : Nat, 1 ≤ j → j ≤ n → z.Unread (p + j * 60 * NS) := by
  induction n generalizing p with
  | zero => exact fun j h1 h0 => by omega
  | succ n ih =>
    have hone : p + (0 + 1 : Nat) * 60 * NS = p + 60 * NS := by simp
    have hzero : p + (0 : Nat) * 60 * NS = p := by simp
    have hshift : ∀ j : Nat, p + 60 * NS + j * 60 * NS = p + (j + 1 : Nat) * 60 * NS := by
      intro j
      push_cast
      ring
    have hnone : ∀ j : Nat, 1 ≤ j → j ≤ 0 → z.Unread (p + j * 60 * NS) := fun j h1 h0 => by omega
    unfold stepMinutes
    cases h : z.fromLocal (p + 60 * NS) with
    | single t =>
      have hread : ¬z.Unread (p + 60 * NS) := fun hun => hun t (fromLocal_single h)
      obtain ⟨i, hi, hleast, hbefore⟩ :=
        firstSecondInWindow_spec (g := t) (n := 62) ⟨60, by omega, by omega, hread⟩
      -- The minute itself is read, so nothing after it is the first.
      have hle : i ≤ 60 := by
        by_contra hfar
        exact hread (hbefore 60 (by omega) (by omega))
      refine ⟨0, Nat.zero_lt_succ n, ⟨by rwa [hone], hnone⟩, ⟨fun htwice => ?_, fun _ => ?_⟩⟩
      · rw [hone] at htwice
        exact absurd htwice (not_twice_of_single h)
      · rw [hzero]
        exact ⟨i, hi, hle, hleast, hbefore⟩
    | ambiguous t u =>
      obtain ⟨hleast, htwice⟩ := isLeast_of_ambiguous h
      have hread : ¬z.Unread (p + 60 * NS) := fun hun => hun t hleast.1
      refine ⟨0, Nat.zero_lt_succ n, ⟨by rwa [hone], hnone⟩, ⟨fun _ => ?_, fun honce => ?_⟩⟩
      · rwa [hone]
      · rw [hone] at honce
        exact absurd htwice honce
    | none =>
      have hunread := fromLocal_eq_none.mp h
      have hmore : ∀ j : Nat, 1 ≤ j → (2 ≤ j → z.Unread (p + j * 60 * NS)) →
          z.Unread (p + j * 60 * NS) := by
        intro j hj hafter
        by_cases hfar : 2 ≤ j
        · exact hafter hfar
        · obtain rfl : j = 0 + 1 := by omega
          rwa [hone]
      have hrest := ih (p + 60 * NS)
      dsimp only
      cases hstep : stepMinutes z n (p + 60 * NS) with
      | some t =>
        rw [hstep] at hrest
        obtain ⟨k, hk, ⟨hread, hbefore⟩, ⟨htwice, honce⟩⟩ := hrest
        rw [hshift] at hread htwice honce
        refine ⟨k + 1, by omega, ⟨hread, fun j hj hjk => hmore j hj fun hfar => ?_⟩, htwice, ?_⟩
        · obtain ⟨j, rfl⟩ := Nat.exists_eq_add_of_le' hj
          rw [← hshift]
          exact hbefore j (by omega) (by omega)
        · rwa [← hshift k]
      | none =>
        rw [hstep] at hrest
        intro j hj hjn
        refine hmore j hj fun hfar => ?_
        obtain ⟨j, rfl⟩ := Nat.exists_eq_add_of_le' hj
        rw [← hshift]
        exact hrest j (by omega) (by omega)

/-! ### Which times are resolved -/

section Gap

variable {gap : DstGapPolicy} {fold : DstFoldPolicy}

/-- In a gap the walk by minutes comes first. -/
theorem resolveLocal_gap (hl : z.Unread l) : resolveLocal z l gap fold =
    (stepMinutes z 180 l).or (stepSeconds z (3 * 3600) l) := by
  cases gap
  unfold resolveLocal
  rw [fromLocal_eq_none.mpr hl]
  rfl

/-- What is found in a gap is some seconds on, with the fraction of the time. -/
theorem exists_seconds (hl : z.Unread l) (h : resolveLocal z l gap fold = some t) :
    ∃ i : Nat, z.toLocal t = l + i * NS := by
  rw [resolveLocal_gap hl] at h
  have hmin := stepMinutes_found z 180 l
  cases hstep : stepMinutes z 180 l with
  | some u =>
    rw [hstep] at hmin h
    cases h
    obtain ⟨k, -, -, htwice, honce⟩ := hmin
    by_cases hread : z.Twice (l + (k + 1 : Nat) * 60 * NS)
    · refine ⟨(k + 1) * 60, ?_⟩
      push_cast
      exact (htwice hread).1
    · obtain ⟨i, -, -, hleast, -⟩ := honce hread
      refine ⟨k * 60 + i, ?_⟩
      have hread : z.toLocal t = _ := hleast.1
      rw [hread]
      push_cast
      ring
  | none =>
    rw [hstep, Option.none_or] at h
    have hsec := stepSeconds_spec z (3 * 3600) l
    rw [h] at hsec
    obtain ⟨i, -, -, hleast, -⟩ := hsec
    exact ⟨i, hleast.1⟩

/-- The first second that is read stands in for a whole second in a gap. -/
theorem standsFor_of_first (hl : z.Unread l) (hwhole : NS ∣ l) {i : Nat}
    (hleast : IsLeast {u | z.toLocal u = l + i * NS} t)
    (hbefore : ∀ j : Nat, j < i → z.Unread (l + j * NS)) : z.StandsFor l t := by
  have hns : NS = 1000000000 := rfl
  refine ⟨fun hread => absurd hl hread, fun _ => ⟨l + i * NS, ⟨⟨?_, ?_, ?_⟩, ?_⟩, hleast⟩⟩
  · rw [hns]
    omega
  · exact Int.dvd_add hwhole (Int.dvd_mul_left _ _)
  · exact fun hun => hun t hleast.1
  · rintro s ⟨hls, hs, hread⟩
    by_contra hlt
    obtain ⟨a, rfl⟩ := hwhole
    obtain ⟨b, rfl⟩ := hs
    obtain ⟨j, hj⟩ := Int.eq_ofNat_of_zero_le (show 0 ≤ b - a by rw [hns] at hls; omega)
    have hsum : NS * b = NS * a + j * NS := by
      rw [hns]
      omega
    rw [hsum] at hread hlt
    refine hread (hbefore j ?_)
    rw [hns] at hlt
    omega

/-- The clock shows the same fraction of a second all the time. -/
theorem offsetAt_whole (hw : z.Whole) (t : Int) : z.offsetAt (t / NS * NS) = z.offsetAt t := by
  have hns : NS = 1000000000 := rfl
  have hfold : ∀ (trs : List (Int × Int)) (o : Int), (∀ tr ∈ trs, NS ∣ tr.1) →
      trs.foldl (fun o tr => if tr.1 ≤ t / NS * NS then tr.2 else o) o =
        trs.foldl (fun o tr => if tr.1 ≤ t then tr.2 else o) o := by
    intro trs
    induction trs with
    | nil => exact fun _ _ => rfl
    | cons tr trs ih =>
      intro o hall
      have hiff : tr.1 ≤ t / NS * NS ↔ tr.1 ≤ t := by
        obtain ⟨q, hq⟩ := hall tr (List.mem_cons_self ..)
        rw [hq, hns]
        omega
      rw [List.foldl_cons, List.foldl_cons, ih _ fun tr htr => hall tr (List.mem_cons_of_mem _ htr)]
      simp only [hiff]
  exact hfold z.transitions z.initial hw

/-- The whole second of a time that is read is read. -/
theorem read_whole (hw : z.Whole) (hl : ¬z.Unread l) : ¬z.Unread (l / NS * NS) := by
  have hns : NS = 1000000000 := rfl
  intro hun
  refine hl fun t ht => hun (t / NS * NS) ?_
  unfold toLocal at ht ⊢
  rw [offsetAt_whole hw, ← ht, secs, hns]
  omega

/-- A whole second is followed by one that is read within three hours. -/
theorem exists_second (hw : z.Whole) (hs : z.ShortGaps) (hwhole : NS ∣ l) :
    ∃ i : Nat, i ≤ 10800 ∧ ¬z.Unread (l + i * NS) := by
  have hns : NS = 1000000000 := rfl
  obtain ⟨t, hle, hlt⟩ := hs l
  have hread := read_whole hw fun hun : z.Unread (z.toLocal t) => hun t rfl
  obtain ⟨a, rfl⟩ := hwhole
  obtain ⟨i, hi⟩ := Int.eq_ofNat_of_zero_le (show 0 ≤ z.toLocal t / NS - a by
    rw [hns] at hle ⊢
    omega)
  refine ⟨i, ?_, ?_⟩
  · rw [hns] at hi hlt
    omega
  · have hsum : NS * a + i * NS = z.toLocal t / NS * NS := by
      rw [hns] at hi ⊢
      omega
    rwa [hsum]

theorem resolves_of_stepsRight (hw : z.Whole) (hs : z.ShortGaps) (hl : z.Unread l)
    (h : z.StepsRight l) : z.Resolves l gap fold := by
  have hfirst : ∀ i t, IsLeast {u | z.toLocal u = l + (i : Nat) * NS} t →
      (∀ j : Nat, j < i → z.Unread (l + j * NS)) →
      resolveLocal z l gap fold = some t → z.Resolves l gap fold :=
    fun i t hleast hbefore hres => ⟨t, hres, standsFor_of_first hl h.whole hleast hbefore⟩
  have hzero : l + (0 : Nat) * NS = l := by simp
  have hres : resolveLocal z l gap fold = _ := resolveLocal_gap hl
  have hmin := stepMinutes_found z 180 l
  cases hstep : stepMinutes z 180 l with
  | some t =>
    rw [hstep] at hmin hres
    obtain ⟨k, hk, ⟨hread, hminutes⟩, ⟨htwice, honce⟩⟩ := hmin
    have hminutes : ∀ j : Nat, j ≤ k → z.Unread (l + j * 60 * NS) := by
      intro j hj
      rcases Nat.eq_zero_or_pos j with rfl | hpos
      · simpa using hl
      · exact hminutes j hpos hj
    by_cases hfold : z.Twice (l + (k + 1 : Nat) * 60 * NS)
    · refine hfirst ((k + 1) * 60) t ?_ (h.twice k hk hminutes hfold) hres
      have hleast := htwice hfold
      push_cast at hleast ⊢
      exact hleast
    · obtain ⟨i, hi, hi60, hleast, hbefore⟩ := honce hfold
      have hsum : ∀ j : Nat, l + k * 60 * NS + j * NS = l + (k * 60 + j : Nat) * NS := by
        intro j
        push_cast
        ring
      rw [hsum] at hleast
      refine hfirst (k * 60 + i) t hleast (fun j hj => ?_) hres
      by_cases hjk : j ≤ k * 60
      · exact h.minute k hk hminutes hread j hjk
      · obtain ⟨m, rfl⟩ := Nat.exists_eq_add_of_lt (Nat.not_le.mp hjk)
        rw [Nat.add_assoc, ← hsum]
        exact hbefore (m + 1) (by omega) (by omega)
  | none =>
    rw [hstep, Option.none_or] at hres
    have hsec := stepSeconds_spec z (3 * 3600) l
    have hbefore : ∀ i : Nat, (∀ j : Nat, 1 ≤ j → j < i → z.Unread (l + j * NS)) →
        ∀ j : Nat, j < i → z.Unread (l + j * NS) := by
      intro i hpos j hj
      rcases Nat.eq_zero_or_pos j with rfl | hj'
      · rwa [hzero]
      · exact hpos j hj' hj
    cases hfound : stepSeconds z (3 * 3600) l with
    | some t =>
      rw [hfound] at hsec hres
      obtain ⟨i, -, -, hleast, hpos⟩ := hsec
      exact hfirst i t hleast (hbefore i hpos) hres
    | none =>
      -- Some second of the three hours is read.
      rw [hfound] at hsec
      obtain ⟨i, hi, hread⟩ := exists_second hw hs h.whole
      rcases Nat.eq_zero_or_pos i with rfl | hpos
      · rw [hzero] at hread
        exact absurd hl hread
      · exact absurd (hsec i hpos hi) hread

theorem stepsRight_of_resolves (hl : z.Unread l) (h : z.Resolves l gap fold) :
    z.StepsRight l := by
  have hns : NS = 1000000000 := rfl
  obtain ⟨t, hres, hstands⟩ := h
  obtain ⟨s, ⟨⟨hls, hs, hread⟩, hmin⟩, hleast⟩ := hstands.gap hl
  obtain ⟨n, hn⟩ := exists_seconds hl hres
  have hst : z.toLocal t = s := hleast.1
  have hwhole : NS ∣ l := by
    have hsub := Int.dvd_sub hs (Int.dvd_mul_left (n : Int) NS)
    rwa [← hst, hn, Int.add_sub_cancel] at hsub
  -- The seconds before the one that stands in are not read.
  have hbefore : ∀ i : Nat, l + i * NS < z.toLocal t → z.Unread (l + i * NS) := by
    intro i hi
    by_contra hread
    have hle := hmin ⟨(by rw [hns]; omega : l ≤ l + i * NS),
      Int.dvd_add hwhole (Int.dvd_mul_left _ _), hread⟩
    omega
  have hminute : ∀ k : Nat, k < 180 → (∀ j : Nat, j ≤ k → z.Unread (l + j * 60 * NS)) →
      ¬z.Unread (l + (k + 1 : Nat) * 60 * NS) → z.Refined l k t := by
    intro k hk hminutes hread
    have hfound := stepMinutes_found z 180 l
    rw [resolveLocal_gap hl] at hres
    cases hstep : stepMinutes z 180 l with
    | some u =>
      rw [hstep] at hfound hres
      cases hres
      obtain ⟨k', -, hk', hrefined⟩ := hfound
      obtain rfl := hk'.unique ⟨hread, fun j _ hj => hminutes j hj⟩
      exact hrefined
    | none =>
      rw [hstep] at hfound
      exact absurd (hfound (k + 1) (by omega) (by omega)) hread
  refine ⟨hwhole, fun k hk hminutes hread i hi => ?_, fun k hk hminutes htwice i hi => ?_⟩
  · have hrefined := hminute k hk hminutes hread
    refine hbefore i ?_
    by_cases hfold : z.Twice (l + (k + 1 : Nat) * 60 * NS)
    · have hread : z.toLocal t = _ := (hrefined.twice hfold).1
      rw [hread, hns]
      push_cast
      omega
    · obtain ⟨m, hm, -, hfirst, -⟩ := hrefined.once hfold
      have hread : z.toLocal t = _ := hfirst.1
      rw [hread, hns]
      omega
  · have hread : ¬z.Unread (l + (k + 1 : Nat) * 60 * NS) := by
      obtain ⟨u, -, -, hu, -⟩ := htwice
      exact fun hun => hun u hu
    have hread : z.toLocal t = _ := ((hminute k hk hminutes hread).twice htwice).1
    refine hbefore i ?_
    rw [hread, hns]
    push_cast
    omega

/-- A time that is read is resolved to the first instant at which it is. -/
theorem resolves_of_read (hl : ¬z.Unread l) : z.Resolves l gap fold := by
  cases h : z.fromLocal l with
  | single t =>
    refine ⟨t, ?_, fun _ => isLeast_of_single h, fun hun => absurd hun hl⟩
    unfold resolveLocal
    rw [h]
  | ambiguous t u =>
    cases fold
    refine ⟨t, ?_, fun _ => (isLeast_of_ambiguous h).1, fun hun => absurd hun hl⟩
    unfold resolveLocal
    rw [h]
  | none => exact absurd (fromLocal_eq_none.mp h) hl

/-- Later times that are resolved as they should be have later instants. -/
def Climbs (z : Zone) (gap : DstGapPolicy) (fold : DstFoldPolicy) : Prop :=
  ∀ l l' t t', z.Resolves l gap fold → z.Resolves l' gap fold → l ≤ l' →
    resolveLocal z l gap fold = some t → resolveLocal z l' gap fold = some t' → t ≤ t'

/-- The time that is read when a local time is resolved. -/
theorem StandsFor.exists_read (h : z.StandsFor l t) : ∃ s, l ≤ s ∧
    IsLeast {u | z.toLocal u = s} t ∧ (¬z.Unread l → s = l) ∧
    (z.Unread l → ∀ s', l ≤ s' → NS ∣ s' → ¬z.Unread s' → s ≤ s') := by
  by_cases hl : z.Unread l
  · obtain ⟨s, ⟨⟨hls, -, -⟩, hmin⟩, hleast⟩ := h.gap hl
    exact ⟨s, hls, hleast, fun hread => absurd hl hread,
      fun _ s' hls' hs' hread => hmin ⟨hls', hs', hread⟩⟩
  · exact ⟨l, Int.le_refl l, h.read hl, fun _ => rfl, fun hun => absurd hun hl⟩

theorem StandsFor.le (hw : z.Whole) (ho : z.Orderly) (h : z.StandsFor l t)
    (h' : z.StandsFor l' u) (hwhole : z.Unread l → NS ∣ l) (hle : l ≤ l') : t ≤ u := by
  have hns : NS = 1000000000 := rfl
  obtain ⟨s, -, hs, hread, hgap⟩ := h.exists_read
  obtain ⟨s', hls', hs', -, -⟩ := h'.exists_read
  have hread' : ¬z.Unread s' := fun hun => hun u hs'.1
  have hss : s ≤ s' := by
    by_cases hl : z.Unread l
    · -- The whole second of the later time is read, and is no earlier than `l`.
      obtain ⟨q, rfl⟩ := hwhole hl
      have hfloor := hgap hl (s' / NS * NS) (by rw [hns] at hle ⊢; omega)
        (Int.dvd_mul_left _ _) (read_whole hw hread')
      rw [hns] at hfloor
      omega
    · rw [hread hl]
      omega
  by_contra hlt
  have hfirst : ∀ a < t, z.toLocal a ≠ z.toLocal t := by
    intro a ha heq
    have hle := hs.2 (heq.trans hs.1)
    omega
  have hbefore := ho t hfirst u (Int.not_le.mp hlt)
  have hread : z.toLocal t = s := hs.1
  have hread' : z.toLocal u = s' := hs'.1
  omega

theorem climbs_iff (hw : z.Whole) : z.Climbs gap fold ↔ z.Orderly := by
  constructor
  · intro h t hfirst a ha
    by_contra hle
    have hread : ∀ u, ¬z.Unread (z.toLocal u) := fun u hun => hun u rfl
    have hres : z.Resolves (z.toLocal t) gap fold := resolves_of_read (hread t)
    have hres' : z.Resolves (z.toLocal a) gap fold := resolves_of_read (hread a)
    obtain ⟨t₁, ht₁, hstands⟩ := id hres
    obtain ⟨t₂, ht₂, hstands'⟩ := id hres'
    have hmono := h _ _ t₁ t₂ hres hres' (Int.not_lt.mp hle) ht₁ ht₂
    have hfar : t ≤ t₁ := by
      by_contra hlt
      exact hfirst t₁ (Int.not_le.mp hlt) (hstands.read (hread t)).1
    have hnear := (hstands'.read (hread a)).2 (show z.toLocal a = z.toLocal a from rfl)
    omega
  · intro ho l l' t u hres hres' hle ht hu
    obtain ⟨t₁, ht₁, hstands⟩ := id hres
    obtain ⟨u₁, hu₁, hstands'⟩ := hres'
    cases ht.symm.trans ht₁
    cases hu.symm.trans hu₁
    exact hstands.le hw ho hstands' (fun hl => (stepsRight_of_resolves hl hres).whole) hle

/-- **Which local times are resolved as they should be**: all that are read,
and in a gap the whole seconds from which the walk by minutes does not step
over the first second that is read.  Later ones have later instants exactly
when no fold goes back into a gap. -/
theorem resolveLocal_iff (hw : z.Whole) (hs : z.ShortGaps) (gap : DstGapPolicy)
    (fold : DstFoldPolicy) :
    (∀ l, z.Resolves l gap fold ↔ (z.Unread l → z.StepsRight l)) ∧
      (z.Climbs gap fold ↔ z.Orderly) := by
  refine ⟨fun l => ⟨fun h hl => stepsRight_of_resolves hl h, fun h => ?_⟩, climbs_iff hw⟩
  by_cases hl : z.Unread l
  · exact resolves_of_stepsRight hw hs hl (h hl)
  · exact resolves_of_read hl

end Gap

/-! ### Zones of the database -/

section Regular

variable (hz : z.Regular)

include hz

/-- From a whole second in a gap the walk finds the first second that is read. -/
theorem stepsRight_of_regular (hl : z.Unread l) (hwhole : NS ∣ l) : z.StepsRight l := by
  have hns : NS = 1000000000 := rfl
  have hday := day_eq
  have hunread : ∀ k : Nat, k < 180 → (∀ j : Nat, j ≤ k → z.Unread (l + j * 60 * NS)) →
      ∀ i : Nat, i ≤ k * 60 → z.Unread (l + i * NS) := by
    intro k hk hminutes i hi
    apply unread_between hz hl (hminutes k (Nat.le_refl k))
    · rw [hns]
      omega
    · rw [hns]
      omega
    · rw [hns]
      omega
  refine ⟨hwhole, fun k hk hminutes _ => hunread k hk hminutes, fun k hk hminutes htwice => ?_⟩
  -- No time is read twice on the day after a gap.
  obtain ⟨t, u, hlt, ht, hu⟩ := htwice
  refine (not_fold_of_unread hz hl ?_ ?_ hlt ht hu).elim
  · rw [hns]
    omega
  · rw [hns]
    omega

theorem orderly_of_regular : z.Orderly := by
  intro t hfirst a ha
  by_contra hle
  obtain ⟨u, hu, hread⟩ := exists_read_le hz (Int.not_lt.mp hle) rfl
  exact hfirst u (by omega) hread

end Regular

section Sample

/-- A clock that is put forward by an hour at 2 o'clock on March 8, 2026. -/
def springForward : Zone := ⟨-18000, [(1772953200 * NS, -14400)]⟩

theorem springForward_offsetAt (t : Int) :
    springForward.offsetAt t = if 1772953200 * NS ≤ t then -14400 else -18000 := rfl

theorem springForward_whole : springForward.Whole := by
  intro tr htr
  obtain rfl := List.mem_singleton.mp htr
  exact Int.dvd_mul_left _ _

theorem springForward_shortGaps : springForward.ShortGaps := by
  have hns : NS = 1000000000 := rfl
  intro l
  simp only [toLocal, springForward_offsetAt, secs_eq, hns]
  by_cases hlt : l + 18000 * 1000000000 < 1772953200 * 1000000000
  · refine ⟨l + 18000 * 1000000000, ?_⟩
    rw [if_neg (by omega)]
    omega
  · by_cases hle : 1772953200 * 1000000000 ≤ l + 14400 * 1000000000
    · refine ⟨l + 14400 * 1000000000, ?_⟩
      rw [if_pos hle]
      omega
    · refine ⟨1772953200 * 1000000000, ?_⟩
      rw [if_pos (Int.le_refl _)]
      omega

theorem springForward_unread : springForward.Unread l ↔
    1772953200 * NS - 18000 * NS ≤ l ∧ l < 1772953200 * NS - 14400 * NS := by
  have hns : NS = 1000000000 := rfl
  simp only [Unread, toLocal, springForward_offsetAt, secs_eq, hns]
  constructor
  · intro h
    have hbefore := h (l + 18000 * 1000000000)
    have hafter := h (l + 14400 * 1000000000)
    split at hbefore <;> split at hafter <;> omega
  · rintro ⟨hlow, hhigh⟩ t
    split <;> omega

theorem springForward_once : ¬springForward.Twice l := by
  have hns : NS = 1000000000 := rfl
  rintro ⟨t, u, hlt, ht, hu⟩
  simp only [toLocal, springForward_offsetAt, secs_eq, hns] at ht hu
  split at ht <;> split at hu <;> omega

/-- Half past two that morning is in the gap. -/
def halfPastTwo : Int := Date.at 20520 9000000000000

theorem halfPastTwo_stepsRight : springForward.StepsRight halfPastTwo := by
  have hns : NS = 1000000000 := rfl
  have hl : halfPastTwo = 1772953200 * NS - 16200 * NS := by decide
  refine ⟨⟨1772937000, by rw [hl, hns]; decide⟩, fun k hk hminutes _ i hi => ?_,
    fun k _ _ htwice => absurd htwice springForward_once⟩
  have hminute := springForward_unread.mp (hminutes k (Nat.le_refl k))
  rw [springForward_unread, hl]
  rw [hl] at hminute
  rw [hns] at hminute ⊢
  omega

/-- It stands for the first second after the gap. -/
theorem halfPastTwo_resolves :
    springForward.Resolves halfPastTwo .firstValidAfterGap .firstOccurrence :=
  ((resolveLocal_iff springForward_whole springForward_shortGaps _ _).1 halfPastTwo).mpr
    fun _ => halfPastTwo_stepsRight

/-- Half a second later is resolved to half a second after the gap. -/
theorem halfSecond_misses :
    ¬∀ (z : Zone) (l : Int) (gap : DstGapPolicy) (fold : DstFoldPolicy), z.Whole → z.ShortGaps →
      z.Resolves l gap fold := by
  have hns : NS = 1000000000 := rfl
  intro h
  have hres := h springForward (halfPastTwo + 500000000) .firstValidAfterGap .firstOccurrence
    springForward_whole springForward_shortGaps
  have hl : halfPastTwo = 1772953200 * NS - 16200 * NS := by decide
  have hun : springForward.Unread (halfPastTwo + 500000000) := by
    rw [springForward_unread, hl, hns]
    omega
  have hwhole := (stepsRight_of_resolves hun hres).whole
  rw [hl, hns] at hwhole
  omega

end Sample

end Zone

end Bellman
