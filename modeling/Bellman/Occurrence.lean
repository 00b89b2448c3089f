/-
Bellman/Occurrence.lean

Schedules: the recurrence rule of a timer, and the search for its next fire.

`nextFire occ after` looks for the first instant after `after` that the
rule allows, walking raw candidates one by one.  A candidate may be out of
the validity window, on an excluded day, or used up by a pending skip; the
search then moves its cursor and goes on, for at most `MAX_CANDIDATES`
candidates.  The schedule that comes back has the consumed skips taken off.

What the code takes from elsewhere is the class `Calendar`: the time-zone
database and the cron evaluator, the latter with the one property its
callers rely on, that the search is exclusive of its starting instant.

Main results: every raw candidate lies strictly after the cursor
(`rawNextAfter_gt`); where the jump over an excluded day never goes back,
so does the fire that the whole search returns (`nextFire_gt`), and it is
inside the validity window and within the run cap (`nextFire_runs`).
-/
import Bellman.Time

namespace Bellman

/-- The code outside the repository that schedules rest on: the tz database
(`Tz::from_str`) and the cron evaluator (`Cron::parse`, then
`find_next_occurrence` exclusive of its argument). -/
class Calendar where
  zone : String → Option Zone
  cron : String → Option (Zone → Int → Option Int)
  cron_gt : ∀ {expr next z t u}, cron expr = some next → next z t = some u → t < u

/-- A calendar that knows UTC alone. -/
@[reducible] def Calendar.utcOnly : Calendar where
  zone name := if name = "UTC" then some Zone.utc else none
  cron _ := none
  cron_gt h := by cases h

/-! ### Kinds and policies -/

inductive DstGapPolicy where
  | firstValidAfterGap
  deriving Repr, DecidableEq

inductive DstFoldPolicy where
  | firstOccurrence
  deriving Repr, DecidableEq

inductive InvalidMonthDayPolicy where
  | clamp
  deriving Repr, DecidableEq

/-- A set of weekdays as a bitmask, Monday in bit 0. -/
structure Weekdays where
  bits : UInt8
  deriving Repr, DecidableEq

namespace Weekdays

def contains (w : Weekdays) (day : Nat) : Bool := w.bits.toNat.testBit day

def isEmpty (w : Weekdays) : Bool := w.bits == 0

def fromU8 (bits : UInt8) : Weekdays := ⟨bits &&& 0b01111111⟩

end Weekdays

/-- The recurrence rules.  Times of day are nanoseconds from local midnight;
`interval` counts elapsed UTC time from its anchor. -/
inductive OccurrenceKind where
  | once (date : Int) (time : Nat)
  | interval (everySecs : Nat) (anchor : Int)
  | daily (time : Nat)
  | weekly (days : Weekdays) (time : Nat)
  | monthly (day : Nat) (time : Nat)
  | yearly (month day : Nat) (time : Nat)
  | cron (expr : String)
  deriving Repr, DecidableEq

namespace OccurrenceKind

def MIN_INTERVAL_SECS : Nat := 1

/-- The Unicode property `White_Space`, which `str::trim` strips. -/
def isWhiteSpace (c : Char) : Bool :=
  let n := c.toNat
  (9 ≤ n && n ≤ 13) || (0x2000 ≤ n && n ≤ 0x200A) ||
    [0x20, 0x85, 0xA0, 0x1680, 0x2028, 0x2029, 0x202F, 0x205F, 0x3000].contains n

/-- Reject a rule that could never fire sensibly. -/
def validate : OccurrenceKind → Except String Unit
  | interval everySecs _ =>
    if everySecs < MIN_INTERVAL_SECS then
      .error s!"interval every_secs must be >= {MIN_INTERVAL_SECS}"
    else .ok ()
  | weekly days _ =>
    if days.isEmpty then .error "weekly schedule requires at least one weekday" else .ok ()
  | monthly day _ =>
    if 1 ≤ day ∧ day ≤ 31 then .ok () else .error s!"monthly day must be 1..=31, got {day}"
  | yearly month day _ =>
    if ¬(1 ≤ month ∧ month ≤ 12) then .error s!"yearly month must be 1..=12, got {month}"
    else if ¬(1 ≤ day ∧ day ≤ 31) then .error s!"yearly day must be 1..=31, got {day}"
    else .ok ()
  | cron expr =>
    if expr.toList.all isWhiteSpace then .error "cron expression must not be empty" else .ok ()
  | once .. | daily .. => .ok ()

def isElapsedTime : OccurrenceKind → Bool
  | interval .. => true
  | _ => false

def kindLabel : OccurrenceKind → String
  | once .. => "once"
  | interval .. => "interval"
  | daily .. => "daily"
  | weekly .. => "weekly"
  | monthly .. => "monthly"
  | yearly .. => "yearly"
  | cron .. => "cron"

/-- The last day of a month: the day before the first of the next one. -/
def daysInMonth (year : Int) (month : Nat) : Except Panic Nat :=
  let next := if month = 12 then (year + 1, 1) else (year, month + 1)
  match Date.fromYmdOpt next.1 next.2 1 with
  | none => .error (.invalidMonth month)
  | some d =>
    match Date.predOpt d with
    | none => .error (.noPredecessor d)
    | some last => .ok (civilFromDays last).2.2

end OccurrenceKind

/-! ### Local times to instants -/

/-- `clamp_month_day`. -/
def clampMonthDay (year : Int) (month day : Nat) : InvalidMonthDayPolicy →
    Except Panic (Option Int)
  | .clamp => do
    let last ← OccurrenceKind.daysInMonth year month
    return Date.fromYmdOpt year month (min day last)

/-- The first instant at a whole second from `probe` on, `fuel` seconds far. -/
def firstSecondInWindow (z : Zone) (afterGap : Int) : Nat → Int → Int
  | 0, _ => afterGap
  | fuel + 1, probe =>
    match z.fromLocal (probe + NS) with
    | .single t => t
    | .ambiguous earliest _ => earliest
    | .none => firstSecondInWindow z afterGap fuel (probe + NS)

/-- The first instant found stepping by whole seconds from `probe`. -/
def stepSeconds (z : Zone) : Nat → Int → Option Int
  | 0, _ => none
  | fuel + 1, probe =>
    match z.fromLocal (probe + NS) with
    | .single t => some t
    | .ambiguous earliest _ => some earliest
    | .none => stepSeconds z fuel (probe + NS)

/-- The minutes loop of `first_valid_after_gap`; a hit is refined to the
first valid second of the minute it lies in, whose window of
`end - probe = 61 s` the inner loop walks in at most 62 steps. -/
def stepMinutes (z : Zone) : Nat → Int → Option Int
  | 0, _ => none
  | fuel + 1, probe =>
    match z.fromLocal (probe + 60 * NS) with
    | .single t => some (firstSecondInWindow z t 62 probe)
    | .ambiguous earliest _ => some earliest
    | .none => stepMinutes z fuel (probe + 60 * NS)

/-- `first_valid_after_gap`: minutes first, then seconds. -/
def firstValidAfterGap (z : Zone) (naive : Int) : Option Int :=
  (stepMinutes z 180 naive).or (stepSeconds z (3 * 3600) naive)

/-- `resolve_local`: the instant a wall-clock time stands for. -/
def resolveLocal (z : Zone) (naive : Int) (gap : DstGapPolicy) (fold : DstFoldPolicy) :
    Option Int :=
  match z.fromLocal naive with
  | .single t => some t
  | .ambiguous earliest _ =>
    match fold with
    | .firstOccurrence => some earliest
  | .none =>
    match gap with
    | .firstValidAfterGap => firstValidAfterGap z naive

/-! ### The schedule -/

/-- A fully configured schedule. -/
structure Occurrence where
  kind : OccurrenceKind
  tz : String
  dstGap : DstGapPolicy := .firstValidAfterGap
  dstFold : DstFoldPolicy := .firstOccurrence
  invalidMonthday : InvalidMonthDayPolicy := .clamp
  /-- Inclusive lower bound. -/
  validFrom : Option Int := none
  /-- Exclusive upper bound. -/
  validUntil : Option Int := none
  maxRuns : Option UInt64 := none
  runsDone : UInt64 := 0
  /-- Local dates that are skipped. -/
  exclusions : List Int := []
  pendingSkips : Nat := 0
  deriving Repr, DecidableEq

namespace Occurrence

/-- The largest `i64`. -/
abbrev I64_MAX : Int := 9223372036854775807

/-- The largest magnitude of a `chrono::Duration` in whole seconds. -/
abbrev MAX_DURATION_SECS : Int := I64_MAX / 1000

/-- The last instant of `DateTime<Utc>`. -/
def maxUtc : Int := Date.at Date.max 86399999999999

/-- A checked `i64` operation: `none` when the result is out of range. -/
def checkedI64 (n : Int) : Option Int :=
  if -I64_MAX - 1 ≤ n ∧ n ≤ I64_MAX then some n else none

/-- `record_run`: one more delivered fire. -/
def recordRun (occ : Occurrence) : Occurrence :=
  { occ with runsDone := if occ.runsDone = 18446744073709551615 then occ.runsDone
                         else occ.runsDone + 1 }

/-- `skip_next`: the next fire is skipped once (a saturating `u32`). -/
def skipNext (occ : Occurrence) : Occurrence :=
  { occ with pendingSkips := min (occ.pendingSkips + 1) 4294967295 }

/-- `timezone`: the zone of the schedule; an unknown name panics. -/
def timezone [Calendar] (occ : Occurrence) : Except Panic Zone :=
  match Calendar.zone occ.tz with
  | some z => .ok z
  | none => .error (.unknownTimezone occ.tz)

/-- `Occurrence::new`: a validated rule in a known zone. -/
def new [Calendar] (kind : OccurrenceKind) (tz : String) : Except String Occurrence := do
  kind.validate
  match Calendar.zone tz with
  | none => .error s!"unknown timezone '{tz}': failed to parse timezone"
  | some _ => .ok { kind, tz }

def resolve (occ : Occurrence) (z : Zone) (date : Int) (time : Nat) : Option Int :=
  resolveLocal z (Date.at date time) occ.dstGap occ.dstFold

/-! #### Raw candidates of each kind -/

def nextOnce (occ : Occurrence) (z : Zone) (date : Int) (time : Nat) (after : Int) :
    Option Int :=
  match occ.resolve z date time with
  | some fire => if after < fire then some fire else none
  | none => none

/-- The least multiple of the period from the anchor that is after `after`. -/
def nextInterval (everySecs : Nat) (anchor after : Int) : Except Panic (Option Int) :=
  if everySecs = 0 then .ok none
  else if I64_MAX < everySecs then .ok none
  else if after < anchor then .ok (some anchor)
  else
    let elapsedSecs := (after - anchor) / NS
    let n := elapsedSecs / everySecs
    match checkedI64 (n + 1) with
    | none => .ok none
    | some nextN =>
      match checkedI64 (nextN * everySecs) with
      | none => .ok none
      | some offsetSecs =>
        if MAX_DURATION_SECS < offsetSecs then .error (.durationOutOfBounds offsetSecs)
        else if maxUtc < anchor + secs offsetSecs then .ok none
        else .ok (some (anchor + secs offsetSecs))

/-- Walk days from `date` until the time of day falls after `after`, trying
only the days that `allows` holds of (all of them for a daily rule). -/
def nextOnDays (occ : Occurrence) (z : Zone) (allows : Int → Bool) (time : Nat)
    (after : Int) : Nat → Int → Option Int
  | 0, _ => none
  | fuel + 1, date =>
    let hit := if allows date then occ.resolve z date time else none
    match hit with
    | some fire =>
      if after < fire then some fire
      else (Date.succOpt date).bind (nextOnDays occ z allows time after fuel)
    | none => (Date.succOpt date).bind (nextOnDays occ z allows time after fuel)

def nextDaily (occ : Occurrence) (z : Zone) (time : Nat) (after : Int) : Option Int :=
  occ.nextOnDays z (fun _ => true) time after (366 * 5) (Local.date (z.toLocal after))

def nextWeekly (occ : Occurrence) (z : Zone) (days : Weekdays) (time : Nat) (after : Int) :
    Option Int :=
  if days.isEmpty then none
  else occ.nextOnDays z (fun date => days.contains (Date.weekday date)) time after (366 * 5)
    (Local.date (z.toLocal after))

/-- Walk months (`advance` the next one) until the clamped day falls after
`after`. -/
def nextOnMonths (occ : Occurrence) (z : Zone) (day time : Nat) (after : Int)
    (advance : Int × Nat → Int × Nat) : Nat → Int × Nat → Except Panic (Option Int)
  | 0, _ => .ok none
  | fuel + 1, ym => do
    match ← clampMonthDay ym.1 ym.2 day occ.invalidMonthday with
    | none => return none
    | some date =>
      match occ.resolve z date time with
      | some fire =>
        if after < fire then return some fire
        else nextOnMonths occ z day time after advance fuel (advance ym)
      | none => nextOnMonths occ z day time after advance fuel (advance ym)

def nextMonthly (occ : Occurrence) (z : Zone) (day time : Nat) (after : Int) :
    Except Panic (Option Int) :=
  let today := Local.date (z.toLocal after)
  occ.nextOnMonths z day time after
    (fun ym => if ym.2 = 12 then (ym.1 + 1, 1) else (ym.1, ym.2 + 1)) (12 * 50)
    (Date.year today, Date.month today)

def nextYearly (occ : Occurrence) (z : Zone) (month day time : Nat) (after : Int) :
    Except Panic (Option Int) :=
  occ.nextOnMonths z day time after (fun ym => (ym.1 + 1, ym.2)) 200
    (Date.year (Local.date (z.toLocal after)), month)

def nextCron [Calendar] (z : Zone) (expr : String) (after : Int) : Option Int :=
  match Calendar.cron expr with
  | some next => next z after
  | none => none

/-- The next instant after `after` that the bare rule names. -/
def rawNextAfter [Calendar] (occ : Occurrence) (z : Zone) (after : Int) :
    Except Panic (Option Int) :=
  match occ.kind with
  | .once date time => .ok (occ.nextOnce z date time after)
  | .interval everySecs anchor => nextInterval everySecs anchor after
  | .daily time => .ok (occ.nextDaily z time after)
  | .weekly days time => .ok (occ.nextWeekly z days time after)
  | .monthly day time => occ.nextMonthly z day time after
  | .yearly month day time => occ.nextYearly z month day time after
  | .cron expr => .ok (nextCron z expr after)

/-! #### The search -/

/-- `jump_past_exclusion_day`: one nanosecond before the next local
midnight, or before the first valid instant of a midnight in a gap. -/
def jumpPastExclusionDay (occ : Occurrence) (z : Zone) (candidate : Int) : Option Int :=
  match Date.succOpt (Local.date (z.toLocal candidate)) with
  | none => none
  | some nextDay =>
    match z.fromLocal (Date.at nextDay 0) with
    | .single t => some (t - 1)
    | .ambiguous earliest _ => some (earliest - 1)
    | .none => (occ.resolve z nextDay 0).map (· - 1)

/-- The cursor after an excluded candidate. -/
def afterExcluded (occ : Occurrence) (z : Zone) (candidate : Int) : Int :=
  (occ.jumpPastExclusionDay z candidate).getD candidate

/-- The hard cap on candidates in one search. -/
def MAX_CANDIDATES : Nat := 10000

/-- The candidate lies at or after the exclusive end of the window. -/
def pastWindow (occ : Occurrence) (candidate : Int) : Bool :=
  match occ.validUntil with
  | some u => decide (u ≤ candidate)
  | none => false

/-- The candidate lies before the inclusive start of the window. -/
def beforeWindow (occ : Occurrence) (candidate : Int) : Bool :=
  match occ.validFrom with
  | some f => decide (candidate < f)
  | none => false

/-- The run cap is used up. -/
def exhausted (occ : Occurrence) : Bool :=
  match occ.maxRuns with
  | some max => decide (max ≤ occ.runsDone)
  | none => false

/-- The candidate loop of `next_fire`: the fire found, and how many skips
were used up on the way. -/
def searchFire [Calendar] (occ : Occurrence) (z : Zone) :
    Nat → Int → Nat → Except Panic (Option Int × Nat)
  | 0, _, skipped => .ok (none, skipped)
  | fuel + 1, cursor, skipped =>
    match occ.rawNextAfter z cursor with
    | .error p => .error p
    | .ok none => .ok (none, skipped)
    | .ok (some candidate) =>
      if occ.pastWindow candidate then .ok (none, skipped)
      else if occ.beforeWindow candidate then searchFire occ z fuel candidate skipped
      else if Local.date (z.toLocal candidate) ∈ occ.exclusions then
        searchFire occ z fuel (occ.afterExcluded z candidate) skipped
      else if skipped < occ.pendingSkips then searchFire occ z fuel candidate (skipped + 1)
      else .ok (some candidate, skipped)

/-- The search floor: `after`, raised to just before the validity start. -/
def searchFloor (occ : Occurrence) (after : Int) : Int :=
  match occ.validFrom with
  | some f => if after < f then f - 1 else after
  | none => after

/-- `next_fire`: the next fire strictly after `after`, and the schedule with
the skips used on the way taken off.  Runs are not recorded here. -/
def nextFire [Calendar] (occ : Occurrence) (after : Int) :
    Except Panic (Option Int × Occurrence) :=
  if occ.exhausted then .ok (none, occ)
  else do
    let z ← occ.timezone
    let (fire, skipped) ← occ.searchFire z MAX_CANDIDATES (occ.searchFloor after) 0
    return (fire, { occ with pendingSkips := occ.pendingSkips - skipped })

/-- `preview`: the next `n` fires, each taken as delivered before the next
one is asked for. -/
def preview [Calendar] : Nat → Occurrence → Int → Except Panic (List Int)
  | 0, _, _ => .ok []
  | n + 1, occ, cursor => do
    let (fire, working) ← occ.nextFire cursor
    match fire with
    | none => return []
    | some t => return t :: (← working.recordRun.preview n t)

/-! #### The next fire is later -/

theorem nextOnce_gt {occ : Occurrence} {z : Zone} {date : Int} {time : Nat}
    {after t : Int} (h : occ.nextOnce z date time after = some t) : after < t := by
  unfold nextOnce at h
  split at h
  · split at h
    · next hlt => cases h; exact hlt
    · cases h
  · cases h

theorem nextInterval_gt {everySecs : Nat} {anchor after t : Int}
    (h : nextInterval everySecs anchor after = .ok (some t)) : after < t := by
  unfold nextInterval at h
  split at h
  · cases h
  next hpos =>
  split at h
  · cases h
  split at h
  · next hlt => cases h; exact hlt
  · next hge =>
    dsimp only at h
    have he : (after - anchor) / NS < ((after - anchor) / NS / everySecs + 1) * everySecs :=
      Int.lt_mul_of_ediv_lt (by omega) (by omega)
    unfold checkedI64 at h
    split at h
    · cases h
    next hn =>
    split at hn <;> cases hn
    split at h
    · cases h
    next ho =>
    split at ho <;> cases ho
    split at h
    · cases h
    split at h
    · cases h
    cases h
    have hd : after - anchor < ((after - anchor) / NS / everySecs + 1) * everySecs * NS :=
      Int.lt_mul_of_ediv_lt (by decide) he
    simp only [secs]
    omega

theorem nextOnDays_gt {occ : Occurrence} {z : Zone} {allows : Int → Bool} {time : Nat}
    {after t : Int} {fuel : Nat} {date : Int}
    (h : occ.nextOnDays z allows time after fuel date = some t) : after < t := by
  induction fuel generalizing date with
  | zero => cases h
  | succ fuel ih =>
    have hstep : ∀ {d : Option Int},
        d.bind (occ.nextOnDays z allows time after fuel) = some t → after < t := by
      intro d hd
      obtain ⟨e, -, he⟩ := Option.bind_eq_some_iff.mp hd
      exact ih he
    unfold nextOnDays at h
    dsimp only at h
    split at h
    · split at h
      · next hlt => cases h; exact hlt
      · exact hstep h
    · exact hstep h

theorem nextOnMonths_gt {occ : Occurrence} {z : Zone} {day time : Nat} {after t : Int}
    {advance : Int × Nat → Int × Nat} {fuel : Nat} {ym : Int × Nat}
    (h : occ.nextOnMonths z day time after advance fuel ym = .ok (some t)) : after < t := by
  induction fuel generalizing ym with
  | zero => cases h
  | succ fuel ih =>
    unfold nextOnMonths at h
    rcases hc : clampMonthDay ym.1 ym.2 day occ.invalidMonthday with p | date
    · simp only [hc, bind, Except.bind] at h; cases h
    · simp only [hc, bind, Except.bind, pure, Except.pure] at h
      split at h
      · cases h
      · split at h
        · split at h
          · next hlt => cases h; exact hlt
          · exact ih h
        · exact ih h

/-- Every raw candidate lies strictly after the cursor. -/
theorem rawNextAfter_gt [Calendar] {occ : Occurrence} {z : Zone} {after t : Int}
    (h : occ.rawNextAfter z after = .ok (some t)) : after < t := by
  unfold rawNextAfter at h
  split at h
  · exact nextOnce_gt (Except.ok.inj h)
  · exact nextInterval_gt h
  · exact nextOnDays_gt (Except.ok.inj h)
  · have h := Except.ok.inj h
    unfold nextWeekly at h
    split at h
    · cases h
    · exact nextOnDays_gt h
  · exact nextOnMonths_gt h
  · exact nextOnMonths_gt h
  · have h := Except.ok.inj h
    unfold nextCron at h
    split at h
    · next hn => exact Calendar.cron_gt hn h
    · cases h

/-- The jump over an excluded day never goes back.  It may, where a
fall-back fold crosses local midnight: the earlier of the two midnights can
lie before a candidate of the repeated hour. -/
def JumpsForward [Calendar] (occ : Occurrence) : Prop :=
  ∀ z, Calendar.zone occ.tz = some z → ∀ c,
    Local.date (z.toLocal c) ∈ occ.exclusions → c ≤ occ.afterExcluded z c

theorem jumpsForward_of_exclusions_nil [Calendar] {occ : Occurrence} (h : occ.exclusions = []) :
    occ.JumpsForward := by
  intro z _ c hc
  simp [h] at hc

/-- On a clock without folds the next local midnight is later. -/
theorem jumpsForward_of_utc [Calendar] {occ : Occurrence}
    (h : Calendar.zone occ.tz = some Zone.utc) : occ.JumpsForward := by
  intro z hz c _
  obtain rfl : z = Zone.utc := by simpa [h] using hz.symm
  have hday : ∀ l : Int, Zone.utc.fromLocal l = .single l := by
    intro l
    simp [Zone.fromLocal, Zone.instantsOf, Zone.offsets, Zone.toLocal, Zone.offsetAt, Zone.utc,
      secs]
  unfold afterExcluded jumpPastExclusionDay
  rw [Zone.toLocal_utc]
  cases hs : Date.succOpt (Local.date c) with
  | none => simp
  | some nextDay =>
    simp only [hday, Option.getD_some]
    unfold Date.succOpt at hs
    split at hs
    · cases hs
      have := Int.lt_ediv_add_one_mul_self c (b := DAY) (by decide)
      simp only [Date.at, Local.date]
      omega
    · cases hs

theorem searchFire_gt [Calendar] {occ : Occurrence} {z : Zone}
    (hj : ∀ c, Local.date (z.toLocal c) ∈ occ.exclusions → c ≤ occ.afterExcluded z c)
    {fuel : Nat} {cursor t : Int} {skipped n : Nat}
    (h : occ.searchFire z fuel cursor skipped = .ok (some t, n)) : cursor < t := by
  induction fuel generalizing cursor skipped with
  | zero => simp [searchFire] at h
  | succ fuel ih =>
    unfold searchFire at h
    split at h
    · cases h
    · cases h
    · next candidate hraw =>
      have hc := rawNextAfter_gt hraw
      split at h
      · cases h
      split at h
      · exact Int.lt_trans hc (ih h)
      split at h
      · next hex => exact Int.lt_trans (Int.lt_of_lt_of_le hc (hj _ hex)) (ih h)
      split at h
      · exact Int.lt_trans hc (ih h)
      · cases h; exact hc

theorem le_searchFloor (occ : Occurrence) (after : Int) : after ≤ occ.searchFloor after := by
  unfold searchFloor
  split
  · split <;> omega
  · exact Int.le_refl _

theorem nextFire_eq [Calendar] {occ occ' : Occurrence} {after : Int} {fire : Option Int}
    (h : occ.nextFire after = .ok (fire, occ')) :
    (occ.exhausted = true ∧ fire = none ∧ occ' = occ) ∨
    (occ.exhausted = false ∧ ∃ z n, Calendar.zone occ.tz = some z ∧
      occ.searchFire z MAX_CANDIDATES (occ.searchFloor after) 0 = .ok (fire, n) ∧
      occ' = { occ with pendingSkips := occ.pendingSkips - n }) := by
  unfold nextFire at h
  split at h
  · next he => cases h; exact .inl ⟨he, rfl, rfl⟩
  · next he =>
    refine .inr ⟨by simpa using he, ?_⟩
    simp only [timezone, bind, Except.bind, pure, Except.pure] at h
    split at h
    · cases h
    · next z hz =>
      split at hz
      · next z' hz' =>
        cases hz
        split at h
        · cases h
        · next r hr =>
          obtain ⟨f, n⟩ := r
          cases h
          exact ⟨z, n, hz', hr, rfl⟩
      · cases hz

/-- **The next fire is strictly after the instant asked about**, where the
jump over an excluded day never goes back. -/
theorem nextFire_gt [Calendar] {occ occ' : Occurrence} {after t : Int}
    (hj : occ.JumpsForward) (h : occ.nextFire after = .ok (some t, occ')) : after < t := by
  rcases nextFire_eq h with ⟨-, hn, -⟩ | ⟨-, z, n, hz, hs, -⟩
  · cases hn
  · exact Int.lt_of_le_of_lt (occ.le_searchFloor after) (searchFire_gt (hj z hz) hs)

/-- A fire is only returned while the run cap is not used up. -/
theorem nextFire_runs [Calendar] {occ occ' : Occurrence} {after t : Int}
    (h : occ.nextFire after = .ok (some t, occ')) : occ.exhausted = false := by
  rcases nextFire_eq h with ⟨-, hn, -⟩ | ⟨he, -⟩
  · cases hn
  · exact he

/-- The search changes nothing of the schedule but its pending skips. -/
theorem nextFire_frame [Calendar] {occ occ' : Occurrence} {after : Int}
    {fire : Option Int} (h : occ.nextFire after = .ok (fire, occ')) :
    ∃ n, occ' = { occ with pendingSkips := occ.pendingSkips - n } := by
  rcases nextFire_eq h with ⟨-, -, rfl⟩ | ⟨-, z, n, -, -, rfl⟩
  · exact ⟨0, rfl⟩
  · exact ⟨n, rfl⟩

end Occurrence

end Bellman
