/-
Bellman/Interval.lean

The arithmetic of interval rules.

An interval rule names the instants `anchor + k * every`.  `nextInterval`
finds the least of them after an instant by one division: the count of whole
periods that have elapsed, and one more.  Every step of the computation has
a range of its own: the period must fit `i64` seconds, the offset must fit
`i64`, then `chrono::Duration`, and the instant must fit `DateTime`.

The first range is checked too early, and the third is not checked at all.
A period past `i64` is refused even before the anchor, where no period is
added; and a period past the range of a duration reaches a constructor that
panics.

Main result: `nextInterval_exact_iff`, the periods for which the result is
exact, for every anchor and every instant.
-/
import Bellman.Occurrence
import Mathlib.Order.Bounds.Basic

namespace Bellman

open Occurrence

/-! ### Arithmetic progressions -/

/-- The terms of a progression with a positive step go past every bound; the
first one after `b` is one step after the last one at or before it. -/
theorem isLeast_progression {a b d : Int} (hd : 0 < d) (hab : a ≤ b) :
    IsLeast {t | (∃ k : Nat, t = a + k * d) ∧ b < t} (a + ((b - a) / d + 1) * d) := by
  have hk : 0 ≤ (b - a) / d := Int.ediv_nonneg (by omega) hd.le
  have hlow : (b - a) / d * d ≤ b - a := Int.ediv_mul_le _ hd.ne'
  have hhigh : b - a < ((b - a) / d + 1) * d := Int.lt_ediv_add_one_mul_self _ hd
  constructor
  · refine ⟨⟨((b - a) / d + 1).toNat, ?_⟩, ?_⟩
    · rw [Int.toNat_of_nonneg (by omega)]
    · show b < _
      omega
  · rintro t ⟨⟨k, rfl⟩, hlt⟩
    -- A term after `b` has an index past the last one at or before it.
    have hindex : (b - a) / d < k := Int.ediv_lt_of_lt_mul hd (by omega)
    have := Int.mul_le_mul_of_nonneg_right (Int.add_one_le_iff.mpr hindex) hd.le
    omega

/-- Before the first term, that is the one. -/
theorem isLeast_progression_first {a b d : Int} (hd : 0 < d) (hab : b < a) :
    IsLeast {t | (∃ k : Nat, t = a + k * d) ∧ b < t} a := by
  constructor
  · exact ⟨⟨0, by simp⟩, hab⟩
  · rintro t ⟨⟨k, rfl⟩, -⟩
    have : 0 ≤ (k : Int) * d := Int.mul_nonneg (Int.natCast_nonneg k) hd.le
    omega

/-! ### The next instant of an interval rule -/

/-- The first instant of `DateTime<Utc>`. -/
def minUtc : Int := Date.at Date.min 0

/-- A value of `DateTime<Utc>`. -/
def IsUtc (t : Int) : Prop := minUtc ≤ t ∧ t ≤ maxUtc

/-- The instants of an interval rule after an instant. -/
def intervalAfter (everySecs : Nat) (anchor after : Int) : Set Int :=
  {t | (∃ k : Nat, t = anchor + secs (k * everySecs)) ∧ after < t}

instance (t : Int) : Decidable (IsUtc t) := inferInstanceAs (Decidable (_ ∧ _))

/-- The search returns the least instant of the rule after `after`, or
nothing when that one is not representable; it does not panic. -/
def IntervalExact (everySecs : Nat) (anchor after : Int) : Prop :=
  ∃ t, IsLeast (intervalAfter everySecs anchor after) t ∧
    nextInterval everySecs anchor after = .ok (if t ≤ maxUtc then some t else none)

theorem intervalAfter_eq (everySecs : Nat) (anchor after : Int) :
    intervalAfter everySecs anchor after =
      {t | (∃ k : Nat, t = anchor + k * secs everySecs) ∧ after < t} := by
  unfold intervalAfter secs
  simp only [Int.mul_assoc]

theorem maxUtc_eq : maxUtc = 8210266876799999999999 := by decide +kernel

theorem minUtc_eq : minUtc = -8334601228800000000000 := by decide +kernel

section

variable {everySecs : Nat} {anchor after : Int}

/-- Whole periods in whole seconds: the fraction of a second that has
elapsed does not matter. -/
theorem elapsed_periods (everySecs : Nat) (elapsed : Int) :
    elapsed / NS / everySecs = elapsed / secs everySecs := by
  rw [Int.ediv_ediv_of_nonneg (by decide), secs, Int.mul_comm]

theorem secs_pos (hpos : 0 < everySecs) : 0 < secs everySecs :=
  Int.mul_pos (Int.natCast_pos.mpr hpos) (by decide)

/-- The instants of the rule that lie ahead, from the anchor on. -/
theorem isLeast_after (hpos : 0 < everySecs) (hle : anchor ≤ after) :
    IsLeast (intervalAfter everySecs anchor after)
      (anchor + secs (((after - anchor) / NS / everySecs + 1) * everySecs)) := by
  have hd := secs_pos hpos
  have h := isLeast_progression hd hle
  rw [← elapsed_periods, ← intervalAfter_eq] at h
  have hassoc : ∀ n : Int, n * secs everySecs = secs (n * everySecs) := fun n =>
    (Int.mul_assoc n everySecs NS).symm
  rwa [hassoc] at h

/-- The instants of the rule that lie ahead, before the anchor. -/
theorem isLeast_before (hpos : 0 < everySecs) (hlt : after < anchor) :
    IsLeast (intervalAfter everySecs anchor after) anchor := by
  have hd := secs_pos hpos
  rw [intervalAfter_eq]
  exact isLeast_progression_first hd hlt

theorem intervalExact_of_isLeast {t : Int}
    (h : IsLeast (intervalAfter everySecs anchor after) t) :
    IntervalExact everySecs anchor after ↔
      nextInterval everySecs anchor after = .ok (if t ≤ maxUtc then some t else none) := by
  constructor
  · rintro ⟨u, hu, hnext⟩
    rw [hnext, h.unique hu]
  · exact fun hnext => ⟨t, h, hnext⟩

/-- What the search computes from the anchor on, for a period that fits. -/
theorem nextInterval_after (hpos : 0 < everySecs) (hfit : everySecs ≤ I64_MAX)
    (hle : anchor ≤ after) :
    nextInterval everySecs anchor after =
      match checkedI64 ((after - anchor) / NS / everySecs + 1) with
      | none => .ok none
      | some nextN =>
        match checkedI64 (nextN * everySecs) with
        | none => .ok none
        | some offsetSecs =>
          if MAX_DURATION_SECS < offsetSecs then .error (.durationOutOfBounds offsetSecs)
          else if maxUtc < anchor + secs offsetSecs then .ok none
          else .ok (some (anchor + secs offsetSecs)) := by
  unfold nextInterval
  refine (if_neg (Nat.ne_of_gt hpos)).trans ((if_neg ?_).trans ((if_neg ?_).trans ?_))
  · exact Int.not_lt.mpr hfit
  · exact Int.not_lt.mpr hle
  · rfl

theorem checkedI64_eq {n : Int} (hlow : 0 ≤ n) (hhigh : n ≤ I64_MAX) :
    checkedI64 n = some n := by
  unfold checkedI64
  rw [if_pos ⟨by omega, hhigh⟩]

/-- Instants are less than half the range of a duration apart. -/
theorem elapsed_lt (ha : IsUtc anchor) (hb : IsUtc after) :
    2 * ((after - anchor) / NS) < MAX_DURATION_SECS := by
  obtain ⟨ha, -⟩ := ha
  obtain ⟨-, hb⟩ := hb
  rw [minUtc_eq] at ha
  rw [maxUtc_eq] at hb
  show 2 * ((after - anchor) / 1000000000) < 9223372036854775
  omega

/-- A period that is longer than what has elapsed is the offset; any other
offset is at most twice what has elapsed. -/
theorem offset_cases (hpos : 0 < everySecs) (hle : anchor ≤ after) :
    ((after - anchor) / NS / everySecs = 0 ∨
      ((after - anchor) / NS / everySecs + 1) * everySecs ≤ 2 * ((after - anchor) / NS)) ∧
    0 ≤ (after - anchor) / NS / everySecs ∧
    (after - anchor) / NS / everySecs ≤ (after - anchor) / NS := by
  have helapsed : 0 ≤ (after - anchor) / NS := Int.ediv_nonneg (by omega) (by decide)
  generalize (after - anchor) / NS = elapsed at helapsed ⊢
  have hnonneg : 0 ≤ elapsed / everySecs := Int.ediv_nonneg helapsed (Int.natCast_nonneg _)
  refine ⟨?_, hnonneg, Int.ediv_le_self _ helapsed⟩
  rcases hnonneg.eq_or_lt with hzero | hsome
  · exact .inl hzero.symm
  · right
    have hmul : elapsed / everySecs * everySecs ≤ elapsed :=
      Int.ediv_mul_le _ (by omega)
    have hperiod : 1 * (everySecs : Int) ≤ elapsed / everySecs * everySecs :=
      Int.mul_le_mul_of_nonneg_right hsome (Int.natCast_nonneg _)
    rw [Int.add_mul]
    omega

/-- From the anchor on, a period that fits a duration gives the exact
result. -/
theorem exact_of_short (ha : IsUtc anchor) (hb : IsUtc after) (hpos : 0 < everySecs)
    (hfit : everySecs ≤ MAX_DURATION_SECS) (hle : anchor ≤ after) :
    IntervalExact everySecs anchor after := by
  have hi64 : MAX_DURATION_SECS ≤ I64_MAX := by decide
  obtain ⟨hcases, hnonneg, hself⟩ := offset_cases hpos hle
  have helapsed := elapsed_lt ha hb
  rw [intervalExact_of_isLeast (isLeast_after hpos hle),
    nextInterval_after hpos (hfit.trans hi64) hle]
  have hoffset : ((after - anchor) / NS / everySecs + 1) * everySecs ≤ MAX_DURATION_SECS := by
    rcases hcases with hzero | hsmall
    · rw [hzero]
      omega
    · omega
  have hoffset₀ : 0 ≤ ((after - anchor) / NS / everySecs + 1) * (everySecs : Int) :=
    Int.mul_nonneg (by omega) (Int.natCast_nonneg _)
  rw [checkedI64_eq (by omega) (by omega)]
  dsimp only
  rw [checkedI64_eq hoffset₀ (hoffset.trans hi64)]
  dsimp only
  rw [if_neg (Int.not_lt.mpr hoffset)]
  split
  · next hpast => rw [if_neg (Int.not_le.mpr hpast)]
  · next hrange => rw [if_pos (Int.not_lt.mp hrange)]

/-- A period past the range of a duration, but not of `i64`, reaches the
constructor that panics. -/
theorem panics_of_long (ha : IsUtc anchor) (hb : IsUtc after)
    (hlong : MAX_DURATION_SECS < everySecs) (hfit : everySecs ≤ I64_MAX)
    (hle : anchor ≤ after) :
    nextInterval everySecs anchor after = .error (.durationOutOfBounds everySecs) := by
  have hpos : 0 < everySecs := by
    have : 0 ≤ MAX_DURATION_SECS := by decide
    omega
  obtain ⟨hcases, hnonneg, hself⟩ := offset_cases hpos hle
  have helapsed := elapsed_lt ha hb
  have hzero : (after - anchor) / NS / everySecs = 0 := by
    refine hcases.resolve_right fun hsmall => ?_
    have : 1 * (everySecs : Int) ≤ ((after - anchor) / NS / everySecs + 1) * everySecs :=
      Int.mul_le_mul_of_nonneg_right (by omega) (Int.natCast_nonneg _)
    omega
  rw [nextInterval_after hpos hfit hle, hzero, checkedI64_eq (by decide) (by decide)]
  dsimp only
  rw [Int.zero_add, Int.one_mul, checkedI64_eq (Int.natCast_nonneg _) hfit]
  dsimp only
  rw [if_pos hlong]

/-- A period that fits no `i64` has no second instant that is representable. -/
theorem nextInterval_of_huge (hhuge : I64_MAX < everySecs) (anchor after : Int) :
    nextInterval everySecs anchor after = .ok none := by
  unfold nextInterval
  have : 0 ≤ I64_MAX := by decide
  rw [if_neg (by omega), if_pos hhuge]

/-- The instant one such period on is past the last one. -/
theorem past_of_huge (ha : IsUtc anchor) (hpos : 0 < everySecs) (hhuge : I64_MAX < everySecs)
    (hle : anchor ≤ after) :
    ¬anchor + secs (((after - anchor) / NS / everySecs + 1) * everySecs) ≤ maxUtc := by
  have hnonneg := (offset_cases hpos hle).2.1
  have hperiod : 1 * (everySecs : Int) ≤ ((after - anchor) / NS / everySecs + 1) * everySecs :=
    Int.mul_le_mul_of_nonneg_right (by omega) (Int.natCast_nonneg _)
  obtain ⟨ha, -⟩ := ha
  rw [minUtc_eq] at ha
  have hhuge : (9223372036854775807 : Int) < everySecs := hhuge
  rw [maxUtc_eq, secs]
  generalize ((after - anchor) / NS / everySecs + 1) * (everySecs : Int) = offset at hperiod ⊢
  show ¬anchor + offset * 1000000000 ≤ _
  omega

theorem pos_of_validate (hv : (OccurrenceKind.interval everySecs anchor).validate = .ok ()) :
    0 < everySecs := by
  by_contra hzero
  rw [OccurrenceKind.validate, if_pos (show everySecs < OccurrenceKind.MIN_INTERVAL_SECS by
    unfold OccurrenceKind.MIN_INTERVAL_SECS
    omega)] at hv
  cases hv

/-- **Interval arithmetic is exact** for the periods that fit: before the
anchor those within `i64`, from the anchor on those within the range of a
duration, and those past `i64` too, of which no instant is representable. -/
theorem nextInterval_exact_iff (ha : IsUtc anchor) (hb : IsUtc after)
    (hv : (OccurrenceKind.interval everySecs anchor).validate = .ok ()) :
    IntervalExact everySecs anchor after ↔
      (after < anchor → everySecs ≤ I64_MAX) ∧
        (anchor ≤ after → everySecs ≤ MAX_DURATION_SECS ∨ I64_MAX < everySecs) := by
  have hpos := pos_of_validate hv
  rcases lt_or_ge after anchor with hlt | hle
  · -- The anchor itself is next, and it is representable.
    rw [intervalExact_of_isLeast (isLeast_before hpos hlt), if_pos ha.2]
    constructor
    · intro hnext
      refine ⟨fun _ => ?_, fun h => absurd hlt (Int.not_lt.mpr h)⟩
      by_contra hhuge
      rw [nextInterval_of_huge (Int.not_le.mp hhuge)] at hnext
      cases hnext
    · rintro ⟨hfit, -⟩
      have hfit := hfit hlt
      unfold nextInterval
      rw [if_neg (Nat.ne_of_gt hpos), if_neg (Int.not_lt.mpr hfit), if_pos hlt]
  · constructor
    · intro hexact
      refine ⟨fun h => absurd hle (Int.not_le.mpr h), fun _ => ?_⟩
      by_contra hbad
      obtain ⟨hlong, hfit⟩ := not_or.mp hbad
      obtain ⟨t, -, hnext⟩ := hexact
      rw [panics_of_long ha hb (Int.not_le.mp hlong) (Int.not_lt.mp hfit) hle] at hnext
      cases hnext
    · rintro ⟨-, hfit⟩
      rcases hfit hle with hshort | hhuge
      · exact exact_of_short ha hb hpos hshort hle
      · rw [intervalExact_of_isLeast (isLeast_after hpos hle), nextInterval_of_huge hhuge,
          if_neg (past_of_huge ha hpos hhuge hle)]

end

/-- An hour from the epoch on. -/
theorem nextInterval_exact_hourly : IntervalExact 3600 0 (5 * NS) :=
  (nextInterval_exact_iff (by decide +kernel) (by decide +kernel) rfl).mpr
    ⟨fun h => absurd h (by decide), fun _ => .inl (by decide)⟩

/-- A period that `validate` accepts, and that panics. -/
theorem nextInterval_panics :
    ¬∀ everySecs anchor after, IsUtc anchor → IsUtc after →
      (OccurrenceKind.interval everySecs anchor).validate = .ok () →
      IntervalExact everySecs anchor after := by
  intro h
  obtain ⟨t, -, hnext⟩ := h 10000000000000000 0 0 (by decide +kernel) (by decide +kernel) rfl
  have hpanic : nextInterval 10000000000000000 0 0 =
      .error (.durationOutOfBounds 10000000000000000) := by
    decide +kernel
  rw [hpanic] at hnext
  cases hnext

end Bellman
