/-
Bellman/Period.lean

The days that a calendar is asked for.

A calendar is asked for a month, for a range of dates, or for the day that a
phrase names.  What is not understood is an error.  The one arithmetic that
may fail is that of the phrases which count from the present day:

    tomorrow       now + 1
    next tuesday   the first tuesday after now
    tuesday        the first tuesday from now on

Main result: resolving what was asked for aborts only when such a phrase
leads past the last date (`faultless_resolveRange_iff`).
-/
import Bellman.Replenish
import Bellman.Windows

namespace Bellman

open ProgramLogic

namespace Period

open Windows

/-! ### Months -/

/-- `to_ascii_lowercase`. -/
def lower (s : Text) : Text := s.map Char.toLower

/-- `str::parse::<i32>`. -/
def parseI32 (s : Text) : Option Int :=
  let digits := if s.head? = some '+' ∨ s.head? = some '-' then s.tail else s
  if digits = [] ∨ ¬digits.all Char.isDigit then none
  else
    let n : Int := Nat.ofDigitChars 10 digits 0
    let n := if s.head? = some '-' then -n else n
    if -2147483648 ≤ n ∧ n ≤ 2147483647 then some n else none

def MONTH_NAMES : List Text :=
  ["January", "February", "March", "April", "May", "June", "July", "August", "September",
    "October", "November", "December"].map String.toList

def MONTH_ABBREV : List Text :=
  ["Jan", "Feb", "Mar", "Apr", "May", "Jun", "Jul", "Aug", "Sep", "Oct", "Nov", "Dec"].map
    String.toList

def parseYearMonth (s : Text) : Option (Int × Nat) :=
  match s.splitOn '-' with
  | [year, month] => do
    let y ← parseI32 year
    let m ← parseU32 month
    if 1 ≤ m ∧ m ≤ 12 then
      let _ ← Date.fromYmdOpt y m 1
      return (y, m)
    else none
  | _ => none

def parseMonthName (s : Text) : Option Nat :=
  let word := lower (Text.trim s)
  ((MONTH_NAMES.findIdx? (lower · = word)).or (MONTH_ABBREV.findIdx? (lower · = word))).map (· + 1)

def quoted (s : Text) : String := String.ofList s

/-- `resolve_month`. -/
def resolveMonth (spec : Text) (nowLocal : Int) : Except String (Int × Nat) :=
  let s := Text.trim spec
  let word := quoted (lower s)
  if word = "this" ∨ word = "this month" ∨ word = "current" then
    .ok (Date.year nowLocal, Date.month nowLocal)
  else if word = "next" ∨ word = "next month" then
    if Date.month nowLocal = 12 then .ok (Date.year nowLocal + 1, 1)
    else .ok (Date.year nowLocal, Date.month nowLocal + 1)
  else
    match parseYearMonth s with
    | some ym => .ok ym
    | none =>
      match parseMonthName s with
      | some m => .ok (Date.year nowLocal, m)
      | none => .error
        s!"unrecognized month '{quoted spec}' (expected YYYY-MM, this|next, or a month name)"

/-- `month_bounds`: the first and the last day of a month. -/
def monthBounds (year : Int) (month : Nat) : Except String (Int × Int) := do
  let name := s!"{year}-{String.ofList (padded 2 month)}"
  match Date.fromYmdOpt year month 1 with
  | none => .error s!"invalid month {name}"
  | some start =>
    let next := if month = 12 then Date.fromYmdOpt (year + 1) 1 1
      else Date.fromYmdOpt year (month + 1) 1
    match next with
    | none => .error s!"invalid next month after {name}"
    | some next =>
      match Date.predOpt next with
      | none => .error "date underflow"
      | some end_ => .ok (start, end_)

/-! ### Days -/

/-- `parse_date`; `strptime` is chrono's parser for `%Y-%m-%d`. -/
def parseDate (strptime : Text → Except String Int) (s : Text) : Except String Int :=
  match strptime (Text.trim s) with
  | .ok date => .ok date
  | .error e => .error s!"invalid date '{quoted s}' (expected YYYY-MM-DD): {e}"

/-- `parse_weekday`, as days from Monday. -/
def parseWeekday (s : Text) : Except String Nat :=
  let word := quoted (lower (Text.trim s))
  if word = "mon" ∨ word = "monday" then .ok 0
  else if word = "tue" ∨ word = "tues" ∨ word = "tuesday" then .ok 1
  else if word = "wed" ∨ word = "wednesday" then .ok 2
  else if word = "thu" ∨ word = "thur" ∨ word = "thurs" ∨ word = "thursday" then .ok 3
  else if word = "fri" ∨ word = "friday" then .ok 4
  else if word = "sat" ∨ word = "saturday" then .ok 5
  else if word = "sun" ∨ word = "sunday" then .ok 6
  else .error s!"unknown weekday '{word}'"

/-- The loop of `next_weekday`. -/
def walkToWeekday (wd : Nat) : Nat → Int → Except Panic (Option Int)
  | 0, _ => .ok none
  | n + 1, d =>
    if Date.weekday d = wd then .ok (some d)
    else do
      let d ← addDays d 1
      walkToWeekday wd n d

/-- `next_weekday`: the first such day on or after `from_`, or after it. -/
def nextWeekday (from_ : Int) (wd : Nat) (strictNext : Bool) : Except Panic Int := do
  let d ← if strictNext then addDays from_ 1 else pure from_
  return (← walkToWeekday wd 8 d).getD from_

/-- `resolve_day_phrase`. -/
def resolveDayPhrase (strptime : Text → Except String Int) (phrase : Text) (nowLocal : Int) :
    Built Int :=
  let s := Text.trim phrase
  let word := lower s
  if quoted word = "today" then pure nowLocal
  else if quoted word = "tomorrow" then liftM (addDays nowLocal 1)
  else
    match parseDate strptime s with
    | .ok d => pure d
    | .error _ =>
      match Text.stripPrefix? "next ".toList word with
      | some rest =>
        match parseWeekday (Text.trim rest) with
        | .error e => throw e
        | .ok wd => liftM (nextWeekday nowLocal wd true)
      | none =>
        match parseWeekday word with
        | .ok wd => liftM (nextWeekday nowLocal wd false)
        | .error _ => throw (s!"unrecognized day phrase '{quoted phrase}' " ++
          "(expected today|tomorrow|next <weekday>|YYYY-MM-DD)")

/-! ### Ranges -/

/-- What a calendar is asked for: `--month`, `--from` with or without `--to`,
nothing, or the phrase of an agenda. -/
inductive Asked where
  | month (spec : Text)
  | range (from_ to_ : Text)
  | day (from_ : Text)
  | thisMonth
  | phrase (phrase : Text)
  deriving Repr, DecidableEq

/-- `Result` as a calendar function returns it. -/
def orThrow {α : Type} : Except String α → Built α
  | .ok a => pure a
  | .error e => throw e

/-- `resolve_range`, and the range of an agenda. -/
def resolveRange (strptime : Text → Except String Int) (nowLocal : Int) :
    Asked → Built (Int × Int × Option (Int × Nat))
  | .month spec => do
    let (y, m) ← orThrow (resolveMonth spec nowLocal)
    let (from_, to_) ← orThrow (monthBounds y m)
    return (from_, to_, some (y, m))
  | .range f t => do
    let from_ ← orThrow (parseDate strptime f)
    let to_ ← orThrow (parseDate strptime t)
    if to_ < from_ then throw s!"--to {quoted t} is before --from {quoted f}"
    else return (from_, to_, none)
  | .day f => do
    let from_ ← orThrow (parseDate strptime f)
    return (from_, from_, none)
  | .thisMonth => do
    let (y, m) := (Date.year nowLocal, Date.month nowLocal)
    let (from_, to_) ← orThrow (monthBounds y m)
    return (from_, to_, some (y, m))
  | .phrase p => do
    let day ← resolveDayPhrase strptime p nowLocal
    return (day, day, none)

/-! ### Phrases that lead past the last date -/

/-- The first day from `from_` on that is the weekday. -/
def firstWeekday (from_ : Int) (wd : Nat) : Int := from_ + (wd - Date.weekday from_) % 7

/-- The phrase does not lead past the last date. -/
def PhraseFits (strptime : Text → Except String Int) (phrase : Text) (nowLocal : Int) : Prop :=
  let word := lower (Text.trim phrase)
  (quoted word = "tomorrow" → nowLocal + 1 ≤ Date.max) ∧
  (quoted word ≠ "today" → quoted word ≠ "tomorrow" →
    (∀ d, parseDate strptime (Text.trim phrase) ≠ .ok d) →
    (∀ rest wd, Text.stripPrefix? "next ".toList word = some rest →
      parseWeekday (Text.trim rest) = .ok wd → firstWeekday (nowLocal + 1) wd ≤ Date.max) ∧
    (∀ wd, Text.stripPrefix? "next ".toList word = none → parseWeekday word = .ok wd →
      firstWeekday nowLocal wd ≤ Date.max))

/-- A date of the calendar. -/
def IsDate (d : Int) : Prop := Date.min ≤ d ∧ d ≤ Date.max

section

variable {strptime : Text → Except String Int} {nowLocal d from_ : Int} {wd n : Nat}
  {phrase : Text}

theorem parseWeekday_lt {s : Text} (h : parseWeekday s = .ok wd) : wd < 7 := by
  unfold parseWeekday at h
  grind

/-- The walk comes to the weekday unless that is past the last date. -/
theorem walkToWeekday_ok_iff (hwd : wd < 7) (hd : IsDate d)
    (hn : (wd - Date.weekday d : Int) % 7 < n) :
    (∃ r, walkToWeekday wd n d = .ok r) ↔ firstWeekday d wd ≤ Date.max := by
  induction n generalizing d with
  | zero => omega
  | succ n ih =>
    unfold walkToWeekday firstWeekday
    by_cases hday : Date.weekday d = wd
    · rw [if_pos hday, hday, Int.sub_self]
      exact iff_of_true ⟨_, rfl⟩ (by simpa using hd.2)
    · rw [if_neg hday]
      have hstep : firstWeekday (d + 1) wd = firstWeekday d wd ∧
          (wd - Date.weekday (d + 1) : Int) % 7 < n ∧ d + 1 ≤ firstWeekday d wd := by
        unfold firstWeekday Date.weekday at *
        omega
      obtain ⟨heq, hn', hle⟩ := hstep
      unfold firstWeekday at hle heq
      by_cases hnext : d + 1 ≤ Date.max
      · have hd' : IsDate (d + 1) := ⟨by have := hd.1; omega, hnext⟩
        rw [addDays_eq_ok.mpr ⟨hd', rfl⟩, ← heq]
        exact ih hd' hn'
      · cases hadd : addDays d 1 with
        | ok d' =>
          obtain ⟨⟨-, hmax⟩, rfl⟩ := addDays_eq_ok.mp hadd
          exact absurd hmax hnext
        | error p => exact iff_of_false (fun ⟨r, h⟩ => nomatch h) (by omega)

theorem weekday_gap_lt (d : Int) (wd : Nat) : (wd - Date.weekday d : Int) % 7 < (8 : Nat) := by
  omega

theorem nextWeekday_ok_iff (hwd : wd < 7) (hd : IsDate from_) (strictNext : Bool) :
    (∃ d, nextWeekday from_ wd strictNext = .ok d) ↔
      firstWeekday (if strictNext then from_ + 1 else from_) wd ≤ Date.max := by
  have hwalk : ∀ d, IsDate d → ((∃ r, (do
      let r ← walkToWeekday wd 8 d
      return r.getD from_ : Except Panic Int) = .ok r) ↔ firstWeekday d wd ≤ Date.max) := by
    intro d hd
    rw [← walkToWeekday_ok_iff hwd hd (weekday_gap_lt d wd)]
    cases walkToWeekday wd 8 d with
    | error p => exact iff_of_false (fun ⟨r, h⟩ => nomatch h) fun ⟨r, h⟩ => nomatch h
    | ok r => exact iff_of_true ⟨_, rfl⟩ ⟨r, rfl⟩
  unfold nextWeekday
  cases strictNext with
  | false => exact hwalk from_ hd
  | true =>
    rw [if_pos rfl, if_pos rfl]
    by_cases hnext : from_ + 1 ≤ Date.max
    · have hd' : IsDate (from_ + 1) := ⟨by have := hd.1; omega, hnext⟩
      rw [addDays_eq_ok.mpr ⟨hd', rfl⟩]
      exact hwalk _ hd'
    · cases hadd : addDays from_ 1 with
      | ok d' =>
        obtain ⟨⟨-, hmax⟩, rfl⟩ := addDays_eq_ok.mp hadd
        exact absurd hmax hnext
      | error p =>
        refine iff_of_false (fun ⟨r, h⟩ => nomatch h) ?_
        unfold firstWeekday
        omega

theorem faultless_orThrow {α : Type} (x : Except String α) : Faultless (orThrow x) := by
  cases x with
  | ok a => exact faultless_pure a
  | error e => exact faultless_throw e

theorem faultless_resolveDayPhrase_iff (hnow : IsDate nowLocal) :
    Faultless (resolveDayPhrase strptime phrase nowLocal) ↔
      PhraseFits strptime phrase nowLocal := by
  unfold resolveDayPhrase PhraseFits
  dsimp only
  by_cases htoday : quoted (lower (Text.trim phrase)) = "today"
  · rw [if_pos htoday]
    refine iff_of_true (faultless_pure _) ⟨fun h => ?_, fun h => absurd htoday h⟩
    rw [htoday] at h
    exact absurd h (by decide)
  rw [if_neg htoday]
  by_cases htomorrow : quoted (lower (Text.trim phrase)) = "tomorrow"
  · rw [if_pos htomorrow, faultless_lift_iff]
    constructor
    · rintro ⟨d, hd⟩
      obtain ⟨⟨-, hmax⟩, rfl⟩ := addDays_eq_ok.mp hd
      exact ⟨fun _ => hmax, fun _ h => absurd htomorrow h⟩
    · intro h
      have hmin := hnow.1
      exact ⟨_, addDays_eq_ok.mpr ⟨⟨by omega, h.1 htomorrow⟩, rfl⟩⟩
  rw [if_neg htomorrow]
  cases hdate : parseDate strptime (Text.trim phrase) with
  | ok d => exact iff_of_true (faultless_pure _) ⟨fun h => absurd h htomorrow,
      fun _ _ h => absurd rfl (h d)⟩
  | error e =>
    have hnone : ∀ d, (.error e : Except String Int) ≠ .ok d := fun d => nofun
    cases hnext : Text.stripPrefix? "next ".toList (lower (Text.trim phrase)) with
    | some rest =>
      dsimp only
      cases hwd : parseWeekday (Text.trim rest) with
      | error e =>
        refine iff_of_true (faultless_throw _) ⟨fun h => absurd h htomorrow, fun _ _ _ => ⟨?_, ?_⟩⟩
        · rintro _ wd ⟨⟩ h
          cases hwd.symm.trans h
        · exact fun _ h => nomatch h
      | ok wd =>
        dsimp only
        rw [faultless_lift_iff, nextWeekday_ok_iff (parseWeekday_lt hwd) hnow, if_pos rfl]
        constructor
        · refine fun hle => ⟨fun h => absurd h htomorrow, fun _ _ _ => ⟨?_, fun _ h => nomatch h⟩⟩
          rintro _ wd' ⟨⟩ h
          obtain rfl := Except.ok.inj (hwd.symm.trans h)
          exact hle
        · exact fun h => (h.2 htoday htomorrow hnone).1 rest wd rfl hwd
    | none =>
      dsimp only
      cases hwd : parseWeekday (lower (Text.trim phrase)) with
      | error e =>
        exact iff_of_true (faultless_throw _) ⟨fun h => absurd h htomorrow,
          fun _ _ _ => ⟨fun _ _ h => (nomatch h), fun _ _ h => (nomatch h)⟩⟩
      | ok wd =>
        dsimp only
        rw [faultless_lift_iff, nextWeekday_ok_iff (parseWeekday_lt hwd) hnow]
        constructor
        · refine fun hle => ⟨fun h => absurd h htomorrow,
            fun _ _ _ => ⟨fun _ _ h => (nomatch h), ?_⟩⟩
          rintro wd' - h
          obtain rfl := Except.ok.inj h
          exact hle
        · exact fun h => (h.2 htoday htomorrow hnone).2 wd rfl rfl

/-- **Resolving what was asked for** aborts only when a phrase leads past the
last date. -/
theorem faultless_resolveRange_iff (hnow : IsDate nowLocal) (asked : Asked) :
    Faultless (resolveRange strptime nowLocal asked) ↔
      ∀ phrase, asked = .phrase phrase → PhraseFits strptime phrase nowLocal := by
  cases asked with
  | phrase p =>
    unfold resolveRange
    rw [faultless_bind_iff, faultless_resolveDayPhrase_iff hnow]
    constructor
    · rintro ⟨h, -⟩ _ ⟨⟩
      exact h
    · exact fun h => ⟨h p rfl, fun d _ => faultless_pure _⟩
  | month spec =>
    refine iff_of_true ?_ nofun
    exact faultless_bind_iff.mpr ⟨faultless_orThrow _, fun ym _ =>
      faultless_bind_iff.mpr ⟨faultless_orThrow _, fun _ _ => faultless_pure _⟩⟩
  | range f t =>
    refine iff_of_true ?_ nofun
    exact faultless_bind_iff.mpr ⟨faultless_orThrow _, fun from_ _ =>
      faultless_bind_iff.mpr ⟨faultless_orThrow _, fun to_ _ =>
        faultless_ite_iff.mpr ⟨fun _ => faultless_throw _, fun _ => faultless_pure _⟩⟩⟩
  | day f =>
    refine iff_of_true ?_ nofun
    exact faultless_bind_iff.mpr ⟨faultless_orThrow _, fun _ _ => faultless_pure _⟩
  | thisMonth =>
    refine iff_of_true ?_ nofun
    exact faultless_bind_iff.mpr ⟨faultless_orThrow _, fun _ _ => faultless_pure _⟩

end

end Period

end Bellman
