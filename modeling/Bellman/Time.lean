/-
Bellman/Time.lean

Instants, civil dates and time zones, all counted in whole numbers.

An instant is a whole number of nanoseconds since the Unix epoch, and a
local date-time is the same count on the wall clock of a zone.  A civil date
is its day number, with 1970-01-01 as day 0; years, months and days are
computed from it.

A zone is its transition table: the offset in force before the first
transition and, from each transition on, the offset it sets.  Both
directions of the conversion are read off the table:

    local time   toLocal z t   = t + offset of z at t
    instants     fromLocal z l = the instants t with toLocal z t = l

of which there is one in ordinary time, none in a spring-forward gap and
two in a fall-back fold.

Main results: `fromLocal_single`, `fromLocal_ambiguous` — what `fromLocal`
returns reads back as the local time that was asked for — and
`fromLocal_toLocal`, that the local reading of an instant is never a gap.
-/
import Mathlib.Data.List.Basic
import Mathlib.Data.List.Dedup
import Mathlib.Algebra.Group.Int.Defs
import Mathlib.Algebra.GroupWithZero.Nat

namespace Bellman

/-- Nanoseconds in a second. -/
abbrev NS : Int := 1000000000

/-- Nanoseconds in a civil day. -/
abbrev DAY : Int := 86400000000000

/-- `Duration::seconds`, as a count of nanoseconds. -/
def secs (n : Int) : Int := n * NS

/-- What aborts a thread: the `expect`s and the overflowing arithmetic that
the schedule code relies on never to fail. -/
inductive Panic where
  | unknownTimezone (name : String)
  | durationOutOfBounds (secs : Int)
  | invalidMonth (month : Nat)
  | noPredecessor (date : Int)
  | instantOverflow (ns : Int)
  | dateTimeOverflow (ns : Int)
  | dateOverflow (date : Int)
  | charBoundary (index : Nat)
  | expected (what : String)
  deriving Repr, DecidableEq

/-! ### Civil dates -/

/-- The day number of year `y`, month `m`, day `d` (proleptic Gregorian):
years are counted from March, in eras of 400 years. -/
def daysFromCivil (y : Int) (m d : Nat) : Int :=
  let y' := if m ≤ 2 then y - 1 else y
  let era := y' / 400
  let yoe := y' - era * 400
  let doy : Int := ((153 * (if m ≤ 2 then m + 9 else m - 3) + 2) / 5 + d : Nat) - 1
  let doe := yoe * 365 + yoe / 4 - yoe / 100 + doy
  era * 146097 + doe - 719468

/-- Year, month and day of a day number. -/
def civilFromDays (z : Int) : Int × Nat × Nat :=
  let z' := z + 719468
  let era := z' / 146097
  let doe := z' - era * 146097
  let yoe := (doe - doe / 1460 + doe / 36524 - doe / 146096) / 365
  let doy := doe - (365 * yoe + yoe / 4 - yoe / 100)
  let mp := (5 * doy + 2) / 153
  let d := (doy - (153 * mp + 2) / 5 + 1).toNat
  let m := (if mp < 10 then mp + 3 else mp - 9).toNat
  (yoe + era * 400 + (if m ≤ 2 then 1 else 0), m, d)

/-- The range of `NaiveDate`: -262143-01-01 to 262142-12-31. -/
def Date.min : Int := daysFromCivil (-262143) 1 1

@[inherit_doc Date.min]
def Date.max : Int := daysFromCivil 262142 12 31

/-- `NaiveDate::succ_opt`. -/
def Date.succOpt (d : Int) : Option Int :=
  if d < Date.max then some (d + 1) else none

/-- `NaiveDate::pred_opt`. -/
def Date.predOpt (d : Int) : Option Int :=
  if Date.min < d then some (d - 1) else none

/-- Whether a year is a leap year. -/
def isLeap (y : Int) : Bool :=
  y % 4 == 0 && (y % 100 != 0 || y % 400 == 0)

/-- The length of month `m` of year `y`; 0 when there is no month `m`. -/
def monthLength (y : Int) : Nat → Nat
  | 1 | 3 | 5 | 7 | 8 | 10 | 12 => 31
  | 4 | 6 | 9 | 11 => 30
  | 2 => if isLeap y then 29 else 28
  | _ => 0

/-- `NaiveDate::from_ymd_opt`. -/
def Date.fromYmdOpt (y : Int) (m d : Nat) : Option Int :=
  if -262143 ≤ y ∧ y ≤ 262142 ∧ 1 ≤ d ∧ d ≤ monthLength y m then
    some (daysFromCivil y m d)
  else none

/-- `Datelike::weekday`, as days from Monday. -/
def Date.weekday (d : Int) : Nat := ((d + 3) % 7).toNat

def Date.year (d : Int) : Int := (civilFromDays d).1

def Date.month (d : Int) : Nat := (civilFromDays d).2.1

/-- The wall-clock instant at `time` nanoseconds into the civil day `d`. -/
def Date.at (d : Int) (time : Nat) : Int := d * DAY + time

/-- `date_naive`: the civil day a wall-clock instant lies in. -/
def Local.date (l : Int) : Int := l / DAY

/-! ### Zones -/

/-- A transition table: the offset (seconds east of UTC) before the first
transition, then the transitions in ascending order with the offset each
one sets. -/
structure Zone where
  initial : Int
  transitions : List (Int × Int)
  deriving Repr, DecidableEq

namespace Zone

/-- The offset in force at an instant. -/
def offsetAt (z : Zone) (t : Int) : Int :=
  z.transitions.foldl (fun o tr => if tr.1 ≤ t then tr.2 else o) z.initial

/-- The wall-clock reading at an instant. -/
def toLocal (z : Zone) (t : Int) : Int := t + secs (z.offsetAt t)

/-- The offsets that occur in the table. -/
def offsets (z : Zone) : List Int := (z.initial :: z.transitions.map Prod.snd).dedup

/-- The instants at which the wall clock reads `l`. -/
def instantsOf (z : Zone) (l : Int) : List Int :=
  (z.offsets.map fun o => l - secs o).filter fun t => z.toLocal t == l

/-- `chrono::LocalResult`. -/
inductive LocalResult where
  | none
  | single (t : Int)
  | ambiguous (earliest latest : Int)
  deriving Repr, DecidableEq

/-- `TimeZone::from_local_datetime`. -/
def fromLocal (z : Zone) (l : Int) : LocalResult :=
  match z.instantsOf l with
  | [] => .none
  | [t] => .single t
  | t :: u :: rest => .ambiguous ((u :: rest).foldl min t) ((u :: rest).foldl max t)

/-- The zone whose clock is the UTC clock. -/
def utc : Zone := ⟨0, []⟩

@[simp] theorem toLocal_utc (t : Int) : utc.toLocal t = t := by
  simp [toLocal, offsetAt, utc, secs]

theorem mem_instantsOf {z : Zone} {l : Int} {t : Int} (h : t ∈ z.instantsOf l) :
    z.toLocal t = l := by
  simpa using (List.mem_filter.mp h).2

private theorem foldl_mem {f : Int → Int → Int} (hf : ∀ a b, f a b = a ∨ f a b = b)
    (l : List Int) (a : Int) : l.foldl f a ∈ a :: l := by
  induction l generalizing a with
  | nil => simp
  | cons b l ih =>
    rw [List.foldl_cons]
    rcases List.mem_cons.mp (ih (f a b)) with h | h
    · rw [h]
      rcases hf a b with h' | h' <;> simp [h']
    · simp [h]

/-- The offset in force comes from the table. -/
theorem offsetAt_mem (z : Zone) (t : Int) : z.offsetAt t ∈ z.offsets := by
  suffices h : ∀ (l : List (Int × Int)) (o : Int),
      l.foldl (fun o tr => if tr.1 ≤ t then tr.2 else o) o ∈ o :: l.map Prod.snd by
    simpa [offsets, offsetAt] using h z.transitions z.initial
  intro l
  induction l with
  | nil => intro o; simp
  | cons tr l ih =>
    intro o
    rcases List.mem_cons.mp (ih (if tr.1 ≤ t then tr.2 else o)) with h | h
    · rw [List.foldl_cons, h]
      split <;> simp
    · rw [List.foldl_cons, List.map_cons]
      exact List.mem_cons_of_mem _ (List.mem_cons_of_mem _ h)

theorem instantsOf_toLocal (z : Zone) (t : Int) : t ∈ z.instantsOf (z.toLocal t) := by
  refine List.mem_filter.mpr ⟨List.mem_map.mpr ⟨z.offsetAt t, z.offsetAt_mem t, ?_⟩, by simp⟩
  simp [toLocal]

/-- A single reading reads back as the local time asked for. -/
theorem fromLocal_single {z : Zone} {l : Int} {t : Int}
    (h : z.fromLocal l = .single t) : z.toLocal t = l := by
  unfold fromLocal at h
  split at h
  · cases h
  · next hl => cases h; exact mem_instantsOf (by simp [hl])
  · cases h

/-- Both readings of a fold read back as the local time asked for. -/
theorem fromLocal_ambiguous {z : Zone} {l : Int} {t u : Int}
    (h : z.fromLocal l = .ambiguous t u) : z.toLocal t = l ∧ z.toLocal u = l := by
  unfold fromLocal at h
  split at h
  · cases h
  · cases h
  · next a b rest hl =>
    cases h
    refine ⟨mem_instantsOf ?_, mem_instantsOf ?_⟩
    · rw [hl]
      exact foldl_mem (fun a b => by omega) _ _
    · rw [hl]
      exact foldl_mem (fun a b => by omega) _ _

/-- The local reading of an instant is never in a gap. -/
theorem fromLocal_toLocal (z : Zone) (t : Int) : z.fromLocal (z.toLocal t) ≠ .none := by
  have h := z.instantsOf_toLocal t
  unfold fromLocal
  split
  · next hl => simp [hl] at h
  · simp
  · simp

end Zone

end Bellman
