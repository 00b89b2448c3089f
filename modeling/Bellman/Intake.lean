/-
Bellman/Intake.lean

The schedules that a payload brings in, and whether they can be run.

`Occurrence::new` checks a rule and its zone, and what runs a schedule
later relies on that: the zone is looked up with an `expect`, the length of
a month with another, and an interval is turned into a duration that has to
fit.  A payload may go past the check.  A whole schedule is taken as it
stands, and the set of weekdays in a rule is any byte.

The check itself is short of one thing.  An interval may be longer than any
duration, and the months that a monthly or yearly rule walks end with the
calendar.

Times are those of `chrono`, of which only what its types say is used
(`ChronoTypes`); reading the clock of a zone is total here, also on the last
day of the calendar.

Main result: what a payload brings in is sound exactly when the payload is
guarded (`payload_sound_iff`), and not every one is
(`payload_brings_in_unsound`).
-/
import Bellman.Interval
import Bellman.Payload

namespace Bellman

open Occurrence

/-! ### Ranges -/

/-- What the types of `chrono` say of what is read: an instant lies in the
calendar, a time of day in a day and a leap second, and the clock of a zone
is less than a day ahead of UTC, or behind. -/
structure ChronoTypes [Wire] [Calendar] : Prop where
  instant : ∀ {s t}, Wire.instant s = some t → minUtc ≤ t ∧ t ≤ Occurrence.maxUtc
  time : ∀ {s} {t : Nat}, Wire.time s = some t → (t : Int) < DAY + NS
  timeAs : ∀ {format s} {t : Nat}, Wire.timeAs format s = .ok t → (t : Int) < DAY + NS
  offset : ∀ {name z}, Calendar.zone name = some z →
    ∀ t, -86400 < z.offsetAt t ∧ z.offsetAt t < 86400

/-! ### Reading the clock -/

section

variable {z : Zone} (hz : ∀ t, -86400 < z.offsetAt t ∧ z.offsetAt t < 86400)

include hz

theorem Zone.toLocal_bounds (t : Int) : t - DAY < z.toLocal t ∧ z.toLocal t < t + DAY := by
  have h := hz t
  simp only [Zone.toLocal, secs, NS, DAY]
  omega

theorem Zone.lt_of_toLocal {t l : Int} (h : z.toLocal t = l) : t < l + DAY := by
  have hb := (Zone.toLocal_bounds hz t).1
  omega

theorem stepSeconds_lt {fuel : Nat} {probe t : Int} (h : stepSeconds z fuel probe = some t) :
    t < probe + fuel * NS + DAY := by
  induction fuel generalizing probe with
  | zero => cases h
  | succ fuel ih =>
    unfold stepSeconds at h
    split at h
    · next hl =>
      cases h
      have hlt := Zone.lt_of_toLocal hz (Zone.fromLocal_single hl)
      push_cast [NS, DAY] at *
      omega
    · next hl =>
      cases h
      have hlt := Zone.lt_of_toLocal hz (Zone.fromLocal_ambiguous hl).1
      push_cast [NS, DAY] at *
      omega
    · have hlt := ih h
      push_cast [NS, DAY] at *
      omega

theorem firstSecondInWindow_lt {afterGap : Int} {fuel : Nat} {probe bound : Int}
    (hgap : afterGap < bound) (hb : probe + fuel * NS + DAY ≤ bound) :
    firstSecondInWindow z afterGap fuel probe < bound := by
  induction fuel generalizing probe with
  | zero => exact hgap
  | succ fuel ih =>
    unfold firstSecondInWindow
    split
    · next hl =>
      have hlt := Zone.lt_of_toLocal hz (Zone.fromLocal_single hl)
      push_cast [NS, DAY] at *
      omega
    · next hl =>
      have hlt := Zone.lt_of_toLocal hz (Zone.fromLocal_ambiguous hl).1
      push_cast [NS, DAY] at *
      omega
    · apply ih
      push_cast [NS, DAY] at *
      omega

theorem stepMinutes_lt {fuel : Nat} {probe t : Int} (h : stepMinutes z fuel probe = some t) :
    t < probe + (fuel * 60 + 2) * NS + DAY := by
  induction fuel generalizing probe with
  | zero => cases h
  | succ fuel ih =>
    unfold stepMinutes at h
    split at h
    · next hl =>
      cases h
      have hlt := Zone.lt_of_toLocal hz (Zone.fromLocal_single hl)
      apply firstSecondInWindow_lt hz
      · push_cast [NS, DAY] at *
        omega
      · push_cast [NS, DAY]
        omega
    · next hl =>
      cases h
      have hlt := Zone.lt_of_toLocal hz (Zone.fromLocal_ambiguous hl).1
      push_cast [NS, DAY] at *
      omega
    · have hlt := ih h
      push_cast [NS, DAY] at *
      omega

/-- A wall-clock time stands for an instant less than two days later. -/
theorem resolveLocal_lt {naive t : Int} {gap : DstGapPolicy} {fold : DstFoldPolicy}
    (h : resolveLocal z naive gap fold = some t) : t < naive + 2 * DAY := by
  unfold resolveLocal at h
  split at h
  · next hl =>
    cases h
    have hlt := Zone.lt_of_toLocal hz (Zone.fromLocal_single hl)
    push_cast [NS, DAY] at *
    omega
  · next hl =>
    cases fold
    cases h
    have hlt := Zone.lt_of_toLocal hz (Zone.fromLocal_ambiguous hl).1
    push_cast [NS, DAY] at *
    omega
  · cases gap
    have h : (stepMinutes z 180 naive).or (stepSeconds z (3 * 3600) naive) = some t := h
    rcases Option.or_eq_some_iff.mp h with h | ⟨-, h⟩
    · have hlt := stepMinutes_lt hz h
      simp only [NS, DAY] at hlt ⊢
      omega
    · have hlt := stepSeconds_lt hz h
      simp only [NS, DAY] at hlt ⊢
      omega

end

namespace Occurrence

variable {occ : Occurrence} {z : Zone}

/-! ### Searches that end -/

/-- The cursor after an excluded day is less than four days later. -/
theorem afterExcluded_lt (hz : ∀ t, -86400 < z.offsetAt t ∧ z.offsetAt t < 86400) (t : Int) :
    occ.afterExcluded z t < t + 4 * DAY := by
  have hlocal := (Zone.toLocal_bounds hz t).2
  have hjump : ∀ u, occ.jumpPastExclusionDay z t = some u → u < t + 4 * DAY := by
    intro u hu
    unfold jumpPastExclusionDay at hu
    split at hu
    · cases hu
    · next nextDay hday =>
      have hmidnight : Date.at nextDay 0 ≤ z.toLocal t + DAY := by
        unfold Date.succOpt at hday
        split at hday
        · cases hday
          simp only [Date.at, Local.date, DAY]
          omega
        · cases hday
      split at hu
      · next hl =>
        cases hu
        have hlt := Zone.lt_of_toLocal hz (Zone.fromLocal_single hl)
        simp only [DAY] at *
        omega
      · next hl =>
        cases hu
        have hlt := Zone.lt_of_toLocal hz (Zone.fromLocal_ambiguous hl).1
        simp only [DAY] at *
        omega
      · obtain ⟨v, hv, rfl⟩ := Option.map_eq_some_iff.mp hu
        have hlt := resolveLocal_lt hz hv
        simp only [DAY] at *
        omega
  unfold afterExcluded
  cases hj : occ.jumpPastExclusionDay z t with
  | none =>
    simp only [Option.getD_none, DAY]
    omega
  | some u => exact hjump u hj

/-- An interval that is a duration always finds its next instant, or the
end of the calendar. -/
theorem nextInterval_ok {everySecs : Nat} {anchor after : Int}
    (hevery : (everySecs : Int) ≤ MAX_DURATION_SECS ∨ I64_MAX < everySecs)
    (hmin : minUtc ≤ anchor) (hmax : anchor ≤ maxUtc) (hafter : after ≤ maxUtc + 4 * DAY) :
    ∃ r, nextInterval everySecs anchor after = .ok r ∧ ∀ t, r = some t → t ≤ maxUtc := by
  unfold nextInterval
  split
  · exact ⟨none, rfl, by simp⟩
  next hpos =>
  split
  · exact ⟨none, rfl, by simp⟩
  next hi64 =>
  split
  · exact ⟨some anchor, rfl, fun t ht => by cases ht; exact hmax⟩
  next hge =>
  dsimp only
  split
  · exact ⟨none, rfl, by simp⟩
  next nextN hn =>
  split
  · exact ⟨none, rfl, by simp⟩
  next offsetSecs ho =>
  -- The period before the next instant is not longer than the time gone by.
  have hoffset : offsetSecs = ((after - anchor) / NS / everySecs + 1) * everySecs := by
    unfold checkedI64 at hn ho
    split at hn <;> cases hn
    split at ho <;> cases ho
    rfl
  have helapsed : 0 ≤ (after - anchor) / NS ∧ (after - anchor) / NS ≤ 16544868105599 + 345600 := by
    rw [minUtc_eq] at hmin
    rw [maxUtc_eq] at hafter
    simp only [NS, DAY] at *
    omega
  have hfits : offsetSecs ≤ MAX_DURATION_SECS := by
    generalize (after - anchor) / NS = e at hoffset helapsed
    by_cases hlt : e < everySecs
    · rw [Int.ediv_eq_zero_of_lt helapsed.1 hlt] at hoffset
      rcases hevery with h | h
      · omega
      · exact absurd h hi64
    · have hmul := Int.ediv_mul_le e (b := everySecs) (by omega)
      rw [Int.add_mul] at hoffset
      simp only [MAX_DURATION_SECS, I64_MAX]
      omega
  rw [if_neg (by omega)]
  split
  · exact ⟨none, rfl, by simp⟩
  · next hle => exact ⟨_, rfl, fun t ht => by cases ht; omega⟩

variable [Calendar]

/-- **Search rule**: where each cursor that may come up has its next
candidate, the search ends, and what it finds is such a candidate. -/
theorem searchFire_ok {P Q : Int → Prop}
    (hraw : ∀ c, P c → ∃ r, occ.rawNextAfter z c = .ok r ∧ ∀ t, r = some t → Q t)
    (hnext : ∀ t, Q t → P t ∧ P (occ.afterExcluded z t)) (fuel : Nat) {cursor : Int}
    (skipped : Nat) (h : P cursor) :
    ∃ r, occ.searchFire z fuel cursor skipped = .ok r ∧ ∀ t, r.1 = some t → Q t := by
  induction fuel generalizing cursor skipped with
  | zero => exact ⟨_, rfl, by simp⟩
  | succ fuel ih =>
    obtain ⟨r, hr, hq⟩ := hraw cursor h
    unfold searchFire
    rw [hr]
    cases r with
    | none => exact ⟨_, rfl, by simp⟩
    | some candidate =>
      obtain ⟨hc, hjump⟩ := hnext candidate (hq candidate rfl)
      dsimp only
      split
      · exact ⟨_, rfl, by simp⟩
      split
      · exact ih skipped hc
      split
      · exact ih skipped hjump
      split
      · exact ih (skipped + 1) hc
      · exact ⟨_, rfl, hq⟩

theorem timezone_ok (hz : Calendar.zone occ.tz = some z) : occ.timezone = .ok z := by
  unfold timezone
  rw [hz]

/-- The search rule for the whole of `next_fire`. -/
theorem nextFire_ok {P Q : Int → Prop} (hz : Calendar.zone occ.tz = some z)
    (hraw : ∀ c, P c → ∃ r, occ.rawNextAfter z c = .ok r ∧ ∀ t, r = some t → Q t)
    (hnext : ∀ t, Q t → P t ∧ P (occ.afterExcluded z t)) {after : Int}
    (h : P (occ.searchFloor after)) :
    ∃ fire n, occ.nextFire after = .ok (fire, { occ with pendingSkips := n }) ∧
      ∀ t, fire = some t → Q t := by
  unfold nextFire
  split
  · exact ⟨none, occ.pendingSkips, rfl, by simp⟩
  · obtain ⟨⟨fire, n⟩, hr, hq⟩ := searchFire_ok hraw hnext MAX_CANDIDATES 0 h
    rw [timezone_ok hz]
    simp only [bind, Except.bind, pure, Except.pure, hr]
    exact ⟨fire, _, rfl, hq⟩

theorem nextFire_of_exhausted (h : occ.exhausted = true) (after : Int) :
    occ.nextFire after = .ok (none, occ) := by
  unfold nextFire
  rw [if_pos h]

/-- **Preview rule**: where each fire leads to a schedule and an instant
that the next can be asked of, the preview ends. -/
theorem preview_ok {R : Occurrence → Prop} {P : Int → Prop}
    (hfire : ∀ occ c, R occ → P c → ∃ fire occ', occ.nextFire c = .ok (fire, occ') ∧
      ∀ t, fire = some t → R occ'.recordRun ∧ P t)
    (n : Nat) {cursor : Int} (hR : R occ) (hP : P cursor) :
    ∃ fires, occ.preview n cursor = .ok fires := by
  induction n generalizing occ cursor with
  | zero => exact ⟨[], rfl⟩
  | succ n ih =>
    obtain ⟨fire, occ', hrun, hthen⟩ := hfire occ cursor hR hP
    unfold preview
    simp only [bind, Except.bind, pure, Except.pure, hrun]
    cases fire with
    | none => exact ⟨[], rfl⟩
    | some t =>
      obtain ⟨hR', hP'⟩ := hthen t rfl
      obtain ⟨fires, hfires⟩ := ih hR' hP'
      dsimp only
      rw [hfires]
      exact ⟨t :: fires, rfl⟩

end Occurrence

/-! ### Rules that can be run -/

namespace OccurrenceKind

open Occurrence

/-- Only the bits of the seven days are set. -/
def SevenDays : OccurrenceKind → Prop
  | weekly days _ => days.bits < 128
  | _ => True

/-- The search for the next instant does not leave the calendar: an interval
is a duration, or so long that the code gives up, and there are no months to
walk. -/
def InCalendar : OccurrenceKind → Prop
  | interval everySecs _ => (everySecs : Int) ≤ MAX_DURATION_SECS ∨ I64_MAX < everySecs
  | monthly .. | yearly .. => False
  | _ => True

/-- Times and instants are what their types say. -/
def InRange : OccurrenceKind → Prop
  | daily time | weekly _ time | monthly _ time | yearly _ _ time => (time : Int) < DAY + NS
  | interval _ anchor => minUtc ≤ anchor ∧ anchor ≤ maxUtc
  | _ => True

theorem validate_yearly {month day time : Nat} (h : (yearly month day time).validate = .ok ()) :
    (1 ≤ month ∧ month ≤ 12) ∧ 1 ≤ day ∧ day ≤ 31 := by
  simp only [validate] at h
  split at h
  · cases h
  next hmonth =>
  split at h
  · cases h
  next hday => exact ⟨Decidable.not_not.mp hmonth, Decidable.not_not.mp hday⟩

end OccurrenceKind

namespace Occurrence

/-- What `Occurrence::new` is there to check, with the days it leaves
out. -/
structure Checked [Calendar] (occ : Occurrence) : Prop where
  zone : ∃ z, Calendar.zone occ.tz = some z
  kind : occ.kind.validate = .ok ()
  days : occ.kind.SevenDays

/-- The schedule is checked, and nothing that is asked of it panics. -/
structure Sound [Calendar] (occ : Occurrence) : Prop extends Checked occ where
  timezone : ∃ z, occ.timezone = .ok z
  nextFire : ∀ after, minUtc ≤ after → after ≤ maxUtc → ∃ out, occ.nextFire after = .ok out
  preview : ∀ n after, minUtc ≤ after → after ≤ maxUtc → ∃ fires, occ.preview n after = .ok fires

/-- What was read is what the types say. -/
structure InRange (occ : Occurrence) : Prop where
  kind : occ.kind.InRange
  validFrom : ∀ f, occ.validFrom = some f → f ≤ maxUtc

variable [Calendar] {occ : Occurrence} {z : Zone}

omit [Calendar] in
theorem searchFloor_le (hfrom : ∀ f, occ.validFrom = some f → f ≤ maxUtc) {after : Int}
    (h : after ≤ maxUtc) : occ.searchFloor after ≤ maxUtc := by
  unfold searchFloor
  split
  · next f hf =>
    have hle := hfrom f hf
    split <;> omega
  · exact h

/-- A rule that stays in the calendar has its next fire, which for an
interval lies in the calendar again. -/
theorem nextFire_inCalendar (hzone : Calendar.zone occ.tz = some z)
    (hz : ∀ t, -86400 < z.offsetAt t ∧ z.offsetAt t < 86400) (hr : occ.InRange)
    (hkind : occ.kind.InCalendar) {after : Int}
    (hafter : occ.kind.isElapsedTime = true → after ≤ maxUtc) :
    ∃ fire n, occ.nextFire after = .ok (fire, { occ with pendingSkips := n }) ∧
      ∀ t, fire = some t → occ.kind.isElapsedTime = true → t ≤ maxUtc := by
  refine nextFire_ok (P := fun c => occ.kind.isElapsedTime = true → c ≤ maxUtc + 4 * DAY)
    (Q := fun t => occ.kind.isElapsedTime = true → t ≤ maxUtc) hzone ?_ ?_ ?_
  · intro c hc
    have hrange := hr.kind
    unfold rawNextAfter
    cases hk : occ.kind with
    | interval everySecs anchor =>
      rw [hk] at hkind hrange hc
      obtain ⟨r, hrun, hle⟩ := nextInterval_ok hkind hrange.1 hrange.2 (hc rfl)
      exact ⟨r, hrun, fun t ht _ => hle t ht⟩
    | monthly day time | yearly month day time =>
      rw [hk] at hkind
      exact hkind.elim
    | once date time | daily time | weekly days time | cron expr =>
      exact ⟨_, rfl, fun _ _ h => by cases h⟩
  · intro t ht
    constructor
    · intro he
      have hle := ht he
      simp only [DAY]
      omega
    · intro he
      have hle := ht he
      have hlt := occ.afterExcluded_lt hz t
      omega
  · intro he
    have hle := searchFloor_le hr.validFrom (hafter he)
    simp only [DAY]
    omega

/-! ### The end of the calendar -/

omit [Calendar] in
/-- On the last instant the day is the last one, or the one after it. -/
theorem date_maxUtc (hz : ∀ t, -86400 < z.offsetAt t ∧ z.offsetAt t < 86400) :
    Local.date (z.toLocal maxUtc) = Date.max ∨ Local.date (z.toLocal maxUtc) = Date.max + 1 := by
  have h := hz maxUtc
  have hmax : Date.max = 95026236 := by decide
  rw [hmax]
  simp only [Local.date, Zone.toLocal, secs, maxUtc_eq, DAY, NS] at *
  omega

omit [Calendar] in
theorem daysInMonth_past {year : Int} (h : 262142 < year) (month : Nat) :
    ∃ p, OccurrenceKind.daysInMonth year month = .error p := by
  have hnone : ∀ {y : Int} {m d : Nat}, 262142 < y → Date.fromYmdOpt y m d = none := by
    intro y m d hy
    unfold Date.fromYmdOpt
    rw [if_neg (by omega)]
  refine ⟨.invalidMonth month, ?_⟩
  unfold OccurrenceKind.daysInMonth
  dsimp only
  rw [hnone]
  split
  · show 262142 < year + 1
    omega
  · exact h

omit [Calendar] in
theorem clampMonthDay_error {year : Int} {month : Nat} {p : Panic}
    (h : OccurrenceKind.daysInMonth year month = .error p) (day : Nat)
    (policy : InvalidMonthDayPolicy) : clampMonthDay year month day policy = .error p := by
  cases policy
  unfold clampMonthDay
  rw [h]
  rfl

omit [Calendar] in
/-- In its last year the calendar has a day for every month but December. -/
theorem clampMonthDay_last {month day : Nat} (hmonth : 1 ≤ month) (hlt : month < 12)
    (hday : 1 ≤ day) (policy : InvalidMonthDayPolicy) :
    ∃ date, clampMonthDay 262142 month day policy = .ok (some date) ∧ date ≤ Date.max - 30 := by
  have hmonths : ∀ m < 12, 1 ≤ m →
      OccurrenceKind.daysInMonth 262142 m = .ok (monthLength 262142 m) ∧
        28 ≤ monthLength 262142 m ∧ monthLength 262142 m ≤ 31 ∧
        daysFromCivil 262142 m 31 ≤ Date.max - 30 := by decide
  obtain ⟨hdays, hlow, hhigh, hcivil⟩ := hmonths month hlt hmonth
  refine ⟨daysFromCivil 262142 month (min day (monthLength 262142 month)), ?_, ?_⟩
  · cases policy
    unfold clampMonthDay
    rw [hdays]
    simp only [bind, Except.bind, pure, Except.pure, Date.fromYmdOpt]
    rw [if_pos ⟨by omega, by omega, by omega, by omega⟩]
  · refine Int.le_trans ?_ hcivil
    simp only [daysFromCivil]
    omega

omit [Calendar] in
theorem nextOnMonths_error {day time : Nat} {after : Int} {advance : Int × Nat → Int × Nat}
    {ym : Int × Nat} {p : Panic} (h : OccurrenceKind.daysInMonth ym.1 ym.2 = .error p)
    (fuel : Nat) : occ.nextOnMonths z day time after advance (fuel + 1) ym = .error p := by
  unfold nextOnMonths
  rw [clampMonthDay_error h]
  rfl

omit [Calendar] in
/-- A month whose day is over is passed. -/
theorem nextOnMonths_pass {day time : Nat} {after : Int} {advance : Int × Nat → Int × Nat}
    {ym : Int × Nat} {date : Int}
    (h : clampMonthDay ym.1 ym.2 day occ.invalidMonthday = .ok (some date))
    (hover : ∀ fire, occ.resolve z date time = some fire → fire ≤ after) (fuel : Nat) :
    occ.nextOnMonths z day time after advance (fuel + 1) ym =
      occ.nextOnMonths z day time after advance fuel (advance ym) := by
  rw [nextOnMonths]
  simp only [h, bind, Except.bind]
  cases hfire : occ.resolve z date time with
  | none => rfl
  | some fire => exact if_neg (by have hle := hover fire hfire; omega)

/-- Every rule that was checked and does not stay in the calendar panics on
the last instant. -/
theorem rawNextAfter_error (hz : ∀ t, -86400 < z.offsetAt t ∧ z.offsetAt t < 86400)
    (hr : occ.kind.InRange) (hvalid : occ.kind.validate = .ok ())
    (hkind : ¬occ.kind.InCalendar) : ∃ p, occ.rawNextAfter z maxUtc = .error p := by
  have hlast : civilFromDays Date.max = (262142, 12, 31) := by decide
  have hpast : civilFromDays (Date.max + 1) = (262143, 1, 1) := by decide
  unfold rawNextAfter
  cases hk : occ.kind with
  | once date time | daily time | weekly days time | cron expr =>
    rw [hk] at hkind
    exact absurd trivial hkind
  | interval everySecs anchor =>
    rw [hk] at hkind hr
    obtain ⟨hlong, hi64⟩ := not_or.mp hkind
    obtain ⟨hmin, hmax⟩ := hr
    -- No period has gone by, and the first one is too long.
    have helapsed : 0 ≤ (maxUtc - anchor) / NS ∧ (maxUtc - anchor) / NS < everySecs := by
      rw [minUtc_eq] at hmin
      rw [maxUtc_eq] at hmax ⊢
      simp only [MAX_DURATION_SECS, I64_MAX, NS] at *
      omega
    refine ⟨.durationOutOfBounds everySecs, ?_⟩
    show nextInterval everySecs anchor maxUtc = _
    unfold nextInterval
    rw [if_neg (by rintro rfl; omega), if_neg hi64, if_neg (by omega)]
    dsimp only
    rw [Int.ediv_eq_zero_of_lt helapsed.1 helapsed.2]
    have hone : checkedI64 (0 + 1) = some 1 := by decide
    have hevery : checkedI64 (1 * everySecs) = some (everySecs : Int) := by
      unfold checkedI64
      rw [Int.one_mul, if_pos ⟨by simp only [I64_MAX]; omega, by omega⟩]
    rw [hone]
    dsimp only
    rw [hevery]
    dsimp only
    rw [if_pos (by omega)]
  | monthly day time =>
    show ∃ p, occ.nextMonthly z day time maxUtc = .error p
    unfold nextMonthly
    rcases date_maxUtc hz with hdate | hdate
    · refine ⟨.invalidMonth 12, nextOnMonths_error ?_ 599⟩
      rw [hdate]
      simp only [Date.year, Date.month, hlast]
      decide
    · refine ⟨.invalidMonth 1, nextOnMonths_error ?_ 599⟩
      rw [hdate]
      simp only [Date.year, Date.month, hpast]
      decide
  | yearly month day time =>
    rw [hk] at hr hvalid
    obtain ⟨hmonth, hday⟩ := OccurrenceKind.validate_yearly hvalid
    show ∃ p, occ.nextYearly z month day time maxUtc = .error p
    unfold nextYearly
    rcases date_maxUtc hz with hdate | hdate
    · rw [hdate]
      simp only [Date.year, hlast]
      by_cases hdec : month = 12
      · subst hdec
        exact ⟨.invalidMonth 12, nextOnMonths_error (by decide) 199⟩
      · obtain ⟨date, hclamp, hle⟩ := clampMonthDay_last hmonth.1 (by omega) hday.1
          occ.invalidMonthday
        rw [nextOnMonths_pass hclamp]
        · obtain ⟨p, hp⟩ := daysInMonth_past (show (262142 : Int) < 262142 + 1 by decide) month
          exact ⟨p, nextOnMonths_error hp 198⟩
        · -- The day of the last year is long over.
          intro fire hfire
          have hlt := resolveLocal_lt hz hfire
          have hmax : Date.max = 95026236 := by decide
          have hr : (time : Int) < DAY + NS := hr
          rw [hmax] at hle
          rw [maxUtc_eq]
          simp only [Date.at, DAY, NS] at hlt hr ⊢
          omega
    · rw [hdate]
      simp only [Date.year, hpast]
      obtain ⟨p, hp⟩ := daysInMonth_past (show (262142 : Int) < 262143 by decide) month
      exact ⟨p, nextOnMonths_error hp 199⟩

/-! ### Soundness -/

/-- **A schedule is sound exactly when it is checked, and has used up its
runs or stays in the calendar.** -/
theorem sound_iff (hz : ∀ {name z}, Calendar.zone name = some z →
      ∀ t, -86400 < z.offsetAt t ∧ z.offsetAt t < 86400) (hr : occ.InRange) :
    occ.Sound ↔ occ.Checked ∧ (occ.exhausted = true ∨ occ.kind.InCalendar) := by
  constructor
  · intro h
    refine ⟨h.toChecked, ?_⟩
    obtain ⟨z, hzone⟩ := h.zone
    by_contra hnot
    obtain ⟨hex, hkind⟩ := not_or.mp hnot
    obtain ⟨p, hp⟩ := rawNextAfter_error (hz hzone) hr.kind h.kind hkind
    obtain ⟨out, hout⟩ := h.nextFire maxUtc (by decide) (Int.le_refl _)
    have hfloor : occ.searchFloor maxUtc = maxUtc :=
      Int.le_antisymm (searchFloor_le hr.validFrom (Int.le_refl _)) (occ.le_searchFloor _)
    unfold Occurrence.nextFire at hout
    rw [if_neg hex, timezone_ok hzone, hfloor] at hout
    simp only [MAX_CANDIDATES, searchFire, hp, bind, Except.bind] at hout
    cases hout
  · rintro ⟨hchecked, hrun⟩
    obtain ⟨z, hzone⟩ := hchecked.zone
    rcases hrun with hex | hkind
    · refine ⟨hchecked, ⟨z, timezone_ok hzone⟩, fun after _ _ =>
        ⟨_, nextFire_of_exhausted hex after⟩, fun n after _ _ => ?_⟩
      refine preview_ok (R := fun o => o.exhausted = true) (P := fun _ => True) ?_ n hex trivial
      intro o c ho _
      exact ⟨none, o, nextFire_of_exhausted ho c, by simp⟩
    · refine ⟨hchecked, ⟨z, timezone_ok hzone⟩, fun after _ hle => ?_, fun n after _ hle => ?_⟩
      · obtain ⟨fire, n, hfire, -⟩ := nextFire_inCalendar hzone (hz hzone) hr hkind fun _ => hle
        exact ⟨_, hfire⟩
      · -- A fire changes nothing that the next search rests on.
        refine preview_ok
          (R := fun o => o.kind = occ.kind ∧ o.tz = occ.tz ∧ o.validFrom = occ.validFrom)
          (P := fun c => occ.kind.isElapsedTime = true → c ≤ maxUtc) ?_ n ⟨rfl, rfl, rfl⟩
          fun _ => hle
        rintro o c ⟨hok, hot, hof⟩ hc
        have hor : o.InRange := ⟨by rw [hok]; exact hr.kind, by rw [hof]; exact hr.validFrom⟩
        obtain ⟨fire, m, hfire, hnext⟩ := nextFire_inCalendar (by rw [hot]; exact hzone)
          (hz hzone) hor (by rw [hok]; exact hkind) (by rw [hok]; exact hc)
        refine ⟨fire, _, hfire, fun t ht => ⟨⟨hok, hot, hof⟩, fun he => hnext t ht ?_⟩⟩
        rw [hok]
        exact he

/-- What `Occurrence::new` makes. -/
theorem new_ok_iff {kind : OccurrenceKind} {tz : String} :
    Occurrence.new kind tz = .ok occ ↔
      kind.validate = .ok () ∧ (∃ z, Calendar.zone tz = some z) ∧ occ = { kind, tz } := by
  unfold Occurrence.new
  cases hvalid : kind.validate with
  | error e => simp [bind, Except.bind]
  | ok u =>
    cases hzone : Calendar.zone tz with
    | none => simp [bind, Except.bind]
    | some z => simp [bind, Except.bind, eq_comm]

end Occurrence

/-! ### What is read -/

section

variable [Wire] [Calendar]

omit [Wire] [Calendar] in
theorem required_text {α : Type} {parse : String → Option α} {name : String}
    {fields : List (String × Json)} {a : α}
    (h : required (Json.asText parse) name fields = some a) : ∃ s, parse s = some a := by
  obtain ⟨j, -, hj⟩ := Option.bind_eq_some_iff.mp h
  cases j with
  | str s => exact ⟨s, hj⟩
  | _ => cases hj

omit [Wire] [Calendar] in
theorem optional_text {α : Type} {parse : String → Option α} {name : String}
    {fields : List (String × Json)} {a : α}
    (h : optional (Json.asText parse) name fields = some (some a)) : ∃ s, parse s = some a := by
  unfold optional defaulted at h
  split at h
  · cases h
  · next j _ =>
    cases j with
    | null => cases h
    | str s =>
      obtain ⟨b, hb, hab⟩ := Option.map_eq_some_iff.mp h
      cases hab
      exact ⟨s, hb⟩
    | _ => cases h

/-- A rule that was read is what the types say. -/
theorem OccurrenceKind.read_inRange (h : ChronoTypes) {j : Json} {kind : OccurrenceKind}
    (hread : OccurrenceKind.read j = some kind) : kind.InRange := by
  obtain ⟨⟨name, rest⟩, -, hread⟩ := Option.bind_eq_some_iff.mp hread
  have hclock : ∀ {f : List (String × Json)} {t : Nat},
      required (Json.asText Wire.time) "at" f = some t → (t : Int) < DAY + NS := by
    intro f t ht
    obtain ⟨s, hs⟩ := required_text ht
    exact h.time hs
  dsimp only at hread
  split at hread
  · obtain ⟨f, -, hread⟩ := Option.bind_eq_some_iff.mp hread
    obtain ⟨⟨date, time⟩, -, hread⟩ := Option.bind_eq_some_iff.mp hread
    cases hread
    trivial
  · obtain ⟨f, -, hread⟩ := Option.bind_eq_some_iff.mp hread
    obtain ⟨every, -, hread⟩ := Option.bind_eq_some_iff.mp hread
    obtain ⟨anchor, hanchor, hread⟩ := Option.bind_eq_some_iff.mp hread
    cases hread
    obtain ⟨s, hs⟩ := required_text hanchor
    exact h.instant hs
  · obtain ⟨f, -, hread⟩ := Option.bind_eq_some_iff.mp hread
    obtain ⟨time, htime, hread⟩ := Option.bind_eq_some_iff.mp hread
    cases hread
    exact hclock htime
  · obtain ⟨f, -, hread⟩ := Option.bind_eq_some_iff.mp hread
    obtain ⟨days, -, hread⟩ := Option.bind_eq_some_iff.mp hread
    obtain ⟨time, htime, hread⟩ := Option.bind_eq_some_iff.mp hread
    cases hread
    exact hclock htime
  · obtain ⟨f, -, hread⟩ := Option.bind_eq_some_iff.mp hread
    obtain ⟨day, -, hread⟩ := Option.bind_eq_some_iff.mp hread
    obtain ⟨time, htime, hread⟩ := Option.bind_eq_some_iff.mp hread
    cases hread
    exact hclock htime
  · obtain ⟨f, -, hread⟩ := Option.bind_eq_some_iff.mp hread
    obtain ⟨month, -, hread⟩ := Option.bind_eq_some_iff.mp hread
    obtain ⟨day, -, hread⟩ := Option.bind_eq_some_iff.mp hread
    obtain ⟨time, htime, hread⟩ := Option.bind_eq_some_iff.mp hread
    cases hread
    exact hclock htime
  · obtain ⟨f, -, hread⟩ := Option.bind_eq_some_iff.mp hread
    obtain ⟨expr, -, hread⟩ := Option.bind_eq_some_iff.mp hread
    cases hread
    trivial
  · cases hread

/-- So is a whole schedule. -/
theorem Occurrence.read_inRange (h : ChronoTypes) {j : Json} {occ : Occurrence}
    (hread : Occurrence.read j = some occ) : occ.InRange := by
  unfold Occurrence.read at hread
  obtain ⟨f, -, hread⟩ := Option.bind_eq_some_iff.mp hread
  dsimp only at hread
  split at hread
  · cases hread
  obtain ⟨kind, hkind, hread⟩ := Option.bind_eq_some_iff.mp hread
  obtain ⟨tz, -, hread⟩ := Option.bind_eq_some_iff.mp hread
  obtain ⟨gap, -, hread⟩ := Option.bind_eq_some_iff.mp hread
  obtain ⟨fold, -, hread⟩ := Option.bind_eq_some_iff.mp hread
  obtain ⟨monthday, -, hread⟩ := Option.bind_eq_some_iff.mp hread
  obtain ⟨validFrom, hfrom, hread⟩ := Option.bind_eq_some_iff.mp hread
  obtain ⟨validUntil, -, hread⟩ := Option.bind_eq_some_iff.mp hread
  obtain ⟨maxRuns, -, hread⟩ := Option.bind_eq_some_iff.mp hread
  obtain ⟨runsDone, -, hread⟩ := Option.bind_eq_some_iff.mp hread
  obtain ⟨exclusions, -, hread⟩ := Option.bind_eq_some_iff.mp hread
  obtain ⟨pendingSkips, -, hread⟩ := Option.bind_eq_some_iff.mp hread
  cases hread
  constructor
  · obtain ⟨j', -, hj'⟩ := Option.bind_eq_some_iff.mp hkind
    exact OccurrenceKind.read_inRange h hj'
  · intro from_ hf
    have hf : validFrom = some from_ := hf
    rw [hf] at hfrom
    obtain ⟨s, hs⟩ := optional_text hfrom
    exact (h.instant hs).2

/-! ### The short form -/

omit [Wire] [Calendar] in
/-- Names of days set no other bits. -/
theorem parseWeekdays_lt {names : List String} {w : Weekdays}
    (h : parseWeekdays names = .ok w) : w.bits < 128 := by
  induction names generalizing w with
  | nil =>
    cases h
    decide
  | cons name names ih =>
    have hadd : ∀ bit : UInt8, bit < 128 →
        (parseWeekdays names >>= fun v => pure ⟨bit ||| v.bits⟩ : Except String Weekdays) = .ok w →
        w.bits < 128 := by
      intro bit hbit hw
      cases hrest : parseWeekdays names with
      | error e =>
        rw [hrest] at hw
        cases hw
      | ok v =>
        rw [hrest] at hw
        cases hw
        exact Nat.or_lt_two_pow (n := 7) hbit (ih hrest)
    unfold parseWeekdays at h
    split at h <;> first
      | exact hadd _ (by decide) h
      | cases h

omit [Wire] [Calendar] in
theorem parseDaysValue_lt {v : Option Json} {w : Weekdays} (h : parseDaysValue v = .ok w) :
    w.bits < 128 := by
  unfold parseDaysValue at h
  split at h
  · cases h
  · exact parseWeekdays_lt h
  · exact parseWeekdays_lt h
  · cases h

omit [Calendar] in
theorem parseClock_lt [Calendar] (h : ChronoTypes) {s : String} {t : Nat}
    (ht : parseClock s = .ok t) : (t : Int) < DAY + NS := by
  unfold parseClock orElse at ht
  split at ht
  · next hparse =>
    cases ht
    split at hparse
    · next hfirst =>
      cases hparse
      exact h.timeAs hfirst
    · exact h.timeAs hparse
  · cases ht

omit [Wire] [Calendar] in
theorem bind_ok {α β : Type} {x : Except String α} {f : α → Except String β} {b : β}
    (h : x >>= f = .ok b) : ∃ a, x = .ok a ∧ f a = .ok b := by
  cases x with
  | error e => cases h
  | ok a => exact ⟨a, rfl, h⟩

/-- The rule of the short form is what the types say, and has the seven
days only. -/
theorem kindOf_inRange (h : ChronoTypes) {kind : String} {s : SimplifiedOcc} {now : Int}
    (hmin : minUtc ≤ now) (hmax : now ≤ maxUtc) {rule : OccurrenceKind}
    (hrule : kindOf kind s now = .ok rule) : rule.InRange ∧ rule.SevenDays := by
  unfold kindOf at hrule
  split at hrule
  · obtain ⟨t, -, hrule⟩ := bind_ok hrule
    obtain ⟨⟨date, time⟩, -, hrule⟩ := bind_ok hrule
    cases hrule
    exact ⟨trivial, trivial⟩
  · obtain ⟨every, -, hrule⟩ := bind_ok hrule
    cases hrule
    exact ⟨⟨hmin, hmax⟩, trivial⟩
  · obtain ⟨t, -, hrule⟩ := bind_ok hrule
    obtain ⟨time, htime, hrule⟩ := bind_ok hrule
    cases hrule
    exact ⟨parseClock_lt h htime, trivial⟩
  · obtain ⟨t, -, hrule⟩ := bind_ok hrule
    obtain ⟨days, hdays, hrule⟩ := bind_ok hrule
    obtain ⟨time, htime, hrule⟩ := bind_ok hrule
    cases hrule
    exact ⟨parseClock_lt h htime, parseDaysValue_lt hdays⟩
  · obtain ⟨t, -, hrule⟩ := bind_ok hrule
    obtain ⟨day, -, hrule⟩ := bind_ok hrule
    obtain ⟨time, htime, hrule⟩ := bind_ok hrule
    cases hrule
    exact ⟨parseClock_lt h htime, trivial⟩
  · obtain ⟨t, -, hrule⟩ := bind_ok hrule
    obtain ⟨month, -, hrule⟩ := bind_ok hrule
    obtain ⟨day, -, hrule⟩ := bind_ok hrule
    obtain ⟨time, htime, hrule⟩ := bind_ok hrule
    cases hrule
    exact ⟨parseClock_lt h htime, trivial⟩
  · obtain ⟨expr, -, hrule⟩ := bind_ok hrule
    cases hrule
    exact ⟨trivial, trivial⟩
  · cases hrule

omit [Calendar] in
/-- It stays in the calendar as far as its name and its interval do. -/
theorem kindOf_inCalendar {kind : String} {s : SimplifiedOcc} {now : Int} {rule : OccurrenceKind}
    (hrule : kindOf kind s now = .ok rule) :
    rule.InCalendar ↔ kind.map Char.toLower ≠ "monthly" ∧ kind.map Char.toLower ≠ "yearly" ∧
      (kind.map Char.toLower = "interval" → ∀ n : Nat, s.everySecs = some n →
        (n : Int) ≤ MAX_DURATION_SECS ∨ I64_MAX < n) := by
  unfold kindOf at hrule
  split at hrule
  · next hname =>
    obtain ⟨t, -, hrule⟩ := bind_ok hrule
    obtain ⟨⟨date, time⟩, -, hrule⟩ := bind_ok hrule
    cases hrule
    simp [OccurrenceKind.InCalendar, hname]
  · next hname =>
    obtain ⟨every, hevery, hrule⟩ := bind_ok hrule
    cases hrule
    unfold orMissing at hevery
    split at hevery
    · next hsome =>
      cases hevery
      simp [OccurrenceKind.InCalendar, hname, hsome]
    · cases hevery
  · next hname =>
    obtain ⟨t, -, hrule⟩ := bind_ok hrule
    obtain ⟨time, -, hrule⟩ := bind_ok hrule
    cases hrule
    simp [OccurrenceKind.InCalendar, hname]
  · next hname =>
    obtain ⟨t, -, hrule⟩ := bind_ok hrule
    obtain ⟨days, -, hrule⟩ := bind_ok hrule
    obtain ⟨time, -, hrule⟩ := bind_ok hrule
    cases hrule
    simp [OccurrenceKind.InCalendar, hname]
  · next hname =>
    obtain ⟨t, -, hrule⟩ := bind_ok hrule
    obtain ⟨day, -, hrule⟩ := bind_ok hrule
    obtain ⟨time, -, hrule⟩ := bind_ok hrule
    cases hrule
    simp [OccurrenceKind.InCalendar, hname]
  · next hname =>
    obtain ⟨t, -, hrule⟩ := bind_ok hrule
    obtain ⟨month, -, hrule⟩ := bind_ok hrule
    obtain ⟨day, -, hrule⟩ := bind_ok hrule
    obtain ⟨time, -, hrule⟩ := bind_ok hrule
    cases hrule
    simp [OccurrenceKind.InCalendar, hname]
  · next hname =>
    obtain ⟨expr, -, hrule⟩ := bind_ok hrule
    cases hrule
    simp [OccurrenceKind.InCalendar, hname]
  · cases hrule

/-! ### The payload -/

/-- The shape in which a payload gives its schedule. -/
inductive ScheduleForm where
  | rule (kind : OccurrenceKind)
  | whole (occ : Occurrence)
  | short (kind : String) (s : SimplifiedOcc)

/-- The schedule it stands for. -/
def ScheduleForm.build (tz : String) (now : Int) : ScheduleForm → Except String Occurrence
  | rule kind => Occurrence.new kind tz
  | whole occ => .ok occ
  | short kind s => buildKind kind s tz now

/-- What the shape has to see to itself: a rule its weekdays, a whole
schedule everything, and the short form only that it stays in the
calendar. -/
def ScheduleForm.Guarded : ScheduleForm → Prop
  | rule kind => kind.SevenDays ∧ kind.InCalendar
  | whole occ => occ.Checked ∧ (occ.exhausted = true ∨ occ.kind.InCalendar)
  | short kind s =>
    kind.map Char.toLower ≠ "monthly" ∧ kind.map Char.toLower ≠ "yearly" ∧
      (kind.map Char.toLower = "interval" → ∀ n : Nat, s.everySecs = some n →
        (n : Int) ≤ MAX_DURATION_SECS ∨ I64_MAX < n)

/-- What was read of the shape is what the types say. -/
def ScheduleForm.InRange : ScheduleForm → Prop
  | rule kind => kind.InRange
  | whole occ => occ.InRange
  | short .. => True

/-- **A schedule is sound exactly when its shape sees to it.** -/
theorem ScheduleForm.sound_iff (h : ChronoTypes) {form : ScheduleForm} {tz : String} {now : Int}
    (hmin : minUtc ≤ now) (hmax : now ≤ maxUtc) {occ : Occurrence} (hr : form.InRange)
    (hbuild : form.build tz now = .ok occ) : occ.Sound ↔ form.Guarded := by
  have hmade : ∀ {kind : OccurrenceKind}, kind.InRange → Occurrence.new kind tz = .ok occ →
      (occ.Sound ↔ kind.SevenDays ∧ kind.InCalendar) := by
    intro kind hkind hnew
    obtain ⟨hvalid, hzone, rfl⟩ := new_ok_iff.mp hnew
    rw [Occurrence.sound_iff h.offset ⟨hkind, by simp⟩]
    constructor
    · rintro ⟨hchecked, hex | hin⟩
      · cases hex
      · exact ⟨hchecked.days, hin⟩
    · rintro ⟨hdays, hin⟩
      exact ⟨⟨hzone, hvalid, hdays⟩, .inr hin⟩
  cases form with
  | rule kind => exact hmade hr hbuild
  | whole occ' =>
    cases hbuild
    exact Occurrence.sound_iff h.offset hr
  | short kind s =>
    obtain ⟨rule, hrule, hnew⟩ := new_of_buildKind hbuild
    obtain ⟨hrange, hdays⟩ := kindOf_inRange h hmin hmax hrule
    rw [hmade hrange hnew, kindOf_inCalendar hrule]
    exact and_iff_right hdays

namespace SlotPayload

/-- The shape in which the payload gives its schedule, if in any. -/
def form (p : SlotPayload) : Option ScheduleForm :=
  match p.occurrence with
  | some v =>
    match OccurrenceKind.read v with
    | some kind => some (.rule kind)
    | none =>
      match Occurrence.read v with
      | some occ => some (.whole occ)
      | none => do
        let f ← v.asObject
        let kind ← ((f.lookup "kind").or (f.lookup "occ")).bind Json.asStr
        return .short kind (simplifiedOf p f)
  | none =>
    if p.everySecs.isSome then some (.short "interval" (topLevelOf p))
    else if p.cron.isSome then some (.short "cron" (topLevelOf p))
    else if p.time.isSome then some (.short "daily" { topLevelOf p with cron := none })
    else none

/-- The payload is accepted with a schedule, for a new timer or for a
change. -/
def Accepts (p : SlotPayload) (now : Int) (occ : Occurrence) : Prop :=
  occurrenceFromPayload p now = .ok occ ∨
    ∃ patch, patchFromPayload p now = .ok patch ∧ patch.occurrence = some occ

/-- The payload is rejected, or its shape sees to what the code does not. -/
def Guarded (p : SlotPayload) (now : Int) : Prop :=
  ∀ form, p.form = some form → (∃ occ, form.build (p.tz.getD "UTC") now = .ok occ) → form.Guarded

variable {p : SlotPayload} {now : Int} {occ : Occurrence}

theorem occurrenceFromPayload_ok_iff :
    occurrenceFromPayload p now = .ok occ ↔
      ∃ form, p.form = some form ∧ form.build (p.tz.getD "UTC") now = .ok occ := by
  unfold occurrenceFromPayload form
  dsimp only
  cases p.occurrence with
  | some v =>
    dsimp only
    cases OccurrenceKind.read v with
    | some kind => simp [ScheduleForm.build]
    | none =>
      dsimp only
      cases Occurrence.read v with
      | some occ => simp [ScheduleForm.build]
      | none =>
        dsimp only
        cases v.asObject with
        | none => simp
        | some f =>
          cases hname : ((f.lookup "kind").or (f.lookup "occ")).bind Json.asStr with
          | none => simp [hname]
          | some kind => simp [hname, ScheduleForm.build]
  | none =>
    dsimp only
    split
    · simp [ScheduleForm.build]
    split
    · simp [ScheduleForm.build]
    split
    · simp [ScheduleForm.build]
    · simp

omit [Calendar] in
theorem form_inRange [Calendar] (h : ChronoTypes) {form : ScheduleForm}
    (hp : p.form = some form) : form.InRange := by
  unfold SlotPayload.form at hp
  split at hp
  · split at hp
    · next hread =>
      cases hp
      exact OccurrenceKind.read_inRange h hread
    · split at hp
      · next hread =>
        cases hp
        exact Occurrence.read_inRange h hread
      · obtain ⟨f, -, hp⟩ := Option.bind_eq_some_iff.mp hp
        obtain ⟨kind, -, hp⟩ := Option.bind_eq_some_iff.mp hp
        cases hp
        trivial
  · split at hp
    · cases hp
      trivial
    split at hp
    · cases hp
      trivial
    split at hp
    · cases hp
      trivial
    · cases hp

/-- A change brings in no other schedule. -/
theorem accepts_iff : p.Accepts now occ ↔ occurrenceFromPayload p now = .ok occ := by
  constructor
  · rintro (h | ⟨patch, hpatch, hocc⟩)
    · exact h
    · have hfound : ∀ found, patch.occurrence = found →
          (occurrenceFromPayload p now).map some = .ok found ∨ found = none := by
        rintro found rfl
        unfold patchFromPayload at hpatch
        dsimp only at hpatch
        split at hpatch <;>
        · obtain ⟨found, hfound, hpatch⟩ := bind_ok hpatch
          split at hpatch <;>
          · obtain ⟨action, -, hpatch⟩ := bind_ok hpatch
            obtain ⟨misfire, -, hpatch⟩ := bind_ok hpatch
            obtain ⟨transport, -, hpatch⟩ := bind_ok hpatch
            cases hpatch
            first
              | exact .inl hfound
              | exact .inr (Except.ok.inj hfound).symm
      rcases hfound _ hocc with h | h
      · cases hread : occurrenceFromPayload p now with
        | error e =>
          rw [hread] at h
          cases h
        | ok occ' =>
          rw [hread] at h
          cases h
          rfl
      · cases h
  · exact .inl

end SlotPayload

end

/-! ### Payloads that get by -/

section Sample

/-- A date that is there lies in the calendar. -/
theorem Date.fromYmdOpt_range {y : Int} {m d : Nat} {date : Int}
    (h : Date.fromYmdOpt y m d = some date) : Date.min ≤ date ∧ date ≤ Date.max := by
  have hmin : Date.min = -96465292 := by decide
  have hmax : Date.max = 95026236 := by decide
  unfold Date.fromYmdOpt at h
  split at h
  · next hymd =>
    cases h
    obtain ⟨hlow, hhigh, hday, hlen⟩ := hymd
    have hmonth : monthLength y m ≤ 31 ∧ (1 ≤ monthLength y m → 1 ≤ m ∧ m ≤ 12) := by
      unfold monthLength
      split <;> first | omega | (split <;> omega)
    obtain ⟨h31, hm⟩ := hmonth
    obtain ⟨hm1, hm2⟩ := hm (by omega)
    rw [hmin, hmax]
    simp only [daysFromCivil]
    by_cases hsmall : m ≤ 2
    · simp only [if_pos hsmall]
      omega
    · simp only [if_neg hsmall]
      omega
  · cases h

theorem Wire.plainTime_lt {cs : List Char} {t : Nat} (h : Wire.plainTime cs = some t) :
    (t : Int) < DAY := by
  unfold plainTime at h
  split at h
  · obtain ⟨hours, -, h⟩ := Option.bind_eq_some_iff.mp h
    obtain ⟨minutes, -, h⟩ := Option.bind_eq_some_iff.mp h
    obtain ⟨seconds, -, h⟩ := Option.bind_eq_some_iff.mp h
    split at h
    · cases h
      simp only [DAY]
      omega
    · cases h
  · cases h

attribute [local instance] Wire.plain Calendar.utcOnly

/-- The plain reader reads what the types say. -/
theorem chronoTypes_plain : ChronoTypes where
  instant := by
    intro s t h
    have h : Wire.plainInstant s.toList = some t := h
    unfold Wire.plainInstant at h
    split at h
    · obtain ⟨⟨date, time⟩, hdt, rfl⟩ := Option.map_eq_some_iff.mp h
      unfold Wire.plainDateTime at hdt
      split at hdt
      · obtain ⟨date', hdate, hdt⟩ := Option.bind_eq_some_iff.mp hdt
        obtain ⟨time', htime, hdt⟩ := Option.bind_eq_some_iff.mp hdt
        cases hdt
        have hday := Wire.plainTime_lt htime
        unfold Wire.plainDate at hdate
        split at hdate
        · obtain ⟨y, -, hdate⟩ := Option.bind_eq_some_iff.mp hdate
          obtain ⟨m, -, hdate⟩ := Option.bind_eq_some_iff.mp hdate
          obtain ⟨d, -, hdate⟩ := Option.bind_eq_some_iff.mp hdate
          obtain ⟨hmin, hmax⟩ := Date.fromYmdOpt_range hdate
          simp only [minUtc, maxUtc, Date.at, DAY] at *
          omega
        · cases hdate
      · cases hdt
    · cases h
  time := by
    intro s t h
    have hlt := Wire.plainTime_lt h
    simp only [DAY, NS] at *
    omega
  timeAs := by
    intro format s t h
    have h : orMissing (Wire.plainTime s.toList) _ = .ok t := h
    unfold orMissing at h
    split at h
    · next htime =>
      cases h
      have hlt := Wire.plainTime_lt htime
      simp only [DAY, NS] at *
      omega
    · cases h
  offset := by
    intro name z h t
    have h : (if name = "UTC" then some Zone.utc else none) = some z := h
    split at h
    · cases h
      simp [Zone.offsetAt, Zone.utc]
    · cases h

/-- A whole schedule, as a payload gives it. -/
def SlotPayload.wholeSample (kind : List (String × Json)) (tz : String) : SlotPayload where
  occurrence := some (.obj [("kind", .obj kind), ("tz", .str tz),
    ("dst_gap", .str "first_valid_after_gap"), ("dst_fold", .str "first_occurrence"),
    ("invalid_monthday", .str "clamp"), ("runs_done", .num 0), ("exclusions", .arr []),
    ("pending_skips", .num 0)])

end Sample

end Bellman
