/-
Bellman/Snapshot.lean

The calendar of a window.

Timers of the store and tasks that were found on the machine become tasks of
one kind, each with a schedule that can be run forward.  The calendar runs
every task from just before its window, sifts the fires by instant and by
local date, and lays them out in a grid of whole weeks:

    task ──preview──→ fires ──windowRows──→ entries ──buildGrid──→ days

Not every step returns.  A label is cut at a byte that may lie inside a
character; the last date has no day after it and the first none before it; a
preview may abort.

Main result: when the calendar of a window aborts (`faultless_buildSnapshot_iff`).
-/
import Bellman.Crontab
import Bellman.Folders
import Bellman.Models
import Bellman.Period
import Bellman.Windows
import Mathlib.Data.Char
import Mathlib.Data.List.Lex
import Mathlib.Data.Prod.Lex
import Mathlib.Data.List.Sort

namespace Bellman

open ProgramLogic

/-! ### Tasks -/

inductive CalendarStatus where
  | upcoming
  | ok
  | failed
  | disabled
  | unknown
  deriving Repr, DecidableEq

inductive LastResult where
  | never
  | unknown
  | ok (exitCode : Int)
  | failed (exitCode : Int)
  deriving Repr, DecidableEq

/-- A discovered task with what a calendar reads of it besides. -/
structure Discovery extends DiscoveredTask where
  timezone : Option String
  lastResult : LastResult

/-- A task that can be run forward. -/
structure ExpandableTask where
  id : Text
  name : Text
  enabled : Bool
  occurrence : Occurrence
  pastStatus : CalendarStatus
  command : Option Text
  sourceKind : String
  deriving Repr, DecidableEq

namespace Snapshot

open Windows

/-- `as_str`. -/
def sourceKindStr : SourceKind → String
  | .cronUser => "cron_user"
  | .cronSystem => "cron_system"
  | .cronD => "cron_d"
  | .cronRunParts => "cron_run_parts"
  | .anacron => "anacron"
  | .systemdSystem => "systemd_system"
  | .systemdUser => "systemd_user"
  | .at => "at"
  | .bellman => "bellman"
  | .unsupported => "unsupported"

/-- `from_timer`. -/
def fromTimer (t : Timer) : ExpandableTask where
  id := t.id.hyphenated
  name := t.name.toList
  enabled := t.enabled
  occurrence := t.occurrence
  pastStatus := .unknown
  command :=
    match t.action with
    | .launch command args _ =>
      if args = [] then some command.toList
      else some (command.toList ++ ' ' :: [' '].intercalate (args.map String.toList))
    | .notify title body =>
      if body = "" then some s!"notify: {title}".toList
      else some s!"notify: {title} — {body}".toList
    | .none => none
  sourceKind := "bellman"

/-- `&s[..n]`, which panics inside a character. -/
def sliceTo (n : Nat) (s : Text) : Except Panic Text :=
  if byteLen (takeBytes n s) = n then .ok (takeBytes n s) else .error (.charBoundary n)

/-- The base name of the first word. -/
def baseName (cmd : Text) : Text :=
  let first := (Text.splitWhitespace cmd).headD cmd
  first.rtakeWhile (· ≠ '/')

def shortName (task : DiscoveredTask) : Except Panic Text :=
  let cmd := Text.trim task.command
  if cmd = [] ∨ cmd = "(no action)".toList then .ok task.source.toList
  else
    let base := baseName cmd
    if 28 < byteLen base then (sliceTo 27 base).map (· ++ ['…'])
    else .ok base

section

variable [Calendar]

def occurrenceFromDiscovered (task : DiscoveredTask) (tz : String) : Option Occurrence :=
  let expr := Text.trim task.scheduleExpr
  let starts (pre : String) : Bool := pre.toList.isPrefixOf expr
  if 5 ≤ (Text.splitWhitespace expr).length ∧ ¬starts "once " then
    if starts "daily " || starts "weekly " || starts "monthly " || starts "yearly " ||
        starts "every " then none
    else if starts "@" ∧ "reboot".toList <:+: expr.map Char.toLower then none
    else (Occurrence.new (.cron (String.ofList expr)) tz).toOption
  else none

/-- `try_from_discovered`. -/
def tryFromDiscovered (task : Discovery) : Except Panic (Option ExpandableTask) :=
  match occurrenceFromDiscovered task.toDiscoveredTask (task.timezone.getD "UTC") with
  | none => .ok none
  | some occurrence => do
    let name ← shortName task.toDiscoveredTask
    return some
      { id := task.id.toList
        name
        enabled := task.enabled
        occurrence
        pastStatus :=
          match task.lastResult with
          | .ok _ => .ok
          | .failed _ => .failed
          | .never | .unknown => .unknown
        command := some task.command
        sourceKind := sourceKindStr task.sourceKind }

/-- The tasks of the store, and of those that were found the ones that can be
run forward. -/
def tasksOf (timers : List Timer) (discovered : List Discovery) :
    Except Panic (List ExpandableTask) := do
  let found ← discovered.mapM tryFromDiscovered
  return timers.map fromTimer ++ found.filterMap id

end

/-! ### Options and entries -/

inductive WeekStart where
  | mon
  | sun
  deriving Repr, DecidableEq

/-- The column of a weekday. -/
def WeekStart.column : WeekStart → Nat → Nat
  | mon, weekday => weekday % 7
  | sun, weekday => (weekday + 1) % 7

structure CalendarCaps where
  maxPerCell : Nat := 5
  maxFiresPerTask : Nat := 500
  maxTotalEntries : Nat := 5000
  maxTasks : Nat := 2000
  deriving Repr, DecidableEq

structure CalendarBuildOptions where
  from_ : Int
  to_ : Int
  month : Option (Int × Nat)
  timezone : String
  weekStart : WeekStart
  showCommands : Bool
  nowUtc : Int
  caps : CalendarCaps := {}
  deriving Repr, DecidableEq

structure CalendarEntry where
  taskId : Text
  name : Text
  time : Text
  timeSecs : Nat
  date : Text
  repeats : Bool
  status : CalendarStatus
  command : Option Text
  sourceKind : String
  deriving Repr, DecidableEq

structure CalendarDay where
  date : Text
  day : Nat
  inMonth : Bool
  entries : List CalendarEntry
  overflow : Nat
  total : Nat
  deriving Repr, DecidableEq

structure CalendarSnapshot where
  from_ : Text
  to_ : Text
  year : Option Int
  month : Option Nat
  timezone : String
  weekStart : WeekStart
  showCommands : Bool
  days : List CalendarDay
  entries : List CalendarEntry
  caps : CalendarCaps
  warnings : List String
  deriving Repr, DecidableEq

/-! ### The grid -/

def startOfWeek (date : Int) (weekStart : WeekStart) : Except Panic Int :=
  addDays date (-(weekStart.column (Date.weekday date) : Nat))

def endOfWeek (date : Int) (weekStart : WeekStart) : Except Panic Int :=
  addDays date (6 - (weekStart.column (Date.weekday date) : Nat))

/-- The day of the month. -/
def dayOfMonth (date : Int) : Nat := (civilFromDays date).2.2

/-- The cell of a day. -/
def gridCell (inMonth : Int → Bool) (entries : List CalendarEntry) (maxPerCell : Nat) (d : Int) :
    CalendarDay :=
  let date := fmtDate d
  let list := entries.filter (·.date = date)
  let total := list.length
  { date
    day := dayOfMonth d
    inMonth := inMonth d
    entries := if maxPerCell < total then list.take maxPerCell else list
    overflow := if maxPerCell < total then total - maxPerCell else 0
    total }

/-- The days of the grid from `d` on; there are as many turns as days.  The
loop counts one further than its last day. -/
def gridDays (cell : Int → CalendarDay) : Nat → Int → Except Panic (List CalendarDay)
  | 0, _ => .ok []
  | n + 1, d => do
    let next ← addDays d 1
    return cell d :: (← gridDays cell n next)

/-- The last day of a month, or of the window. -/
def monthEnd (year : Int) (month : Nat) (to_ : Int) : Int :=
  match Period.monthBounds year month with
  | .ok (_, end_) => end_
  | .error _ => to_

/-- The first and the last day that the grid covers, before it is filled up
to whole weeks, and which of its days are shown as those of the window. -/
def gridRange (from_ to_ : Int) : Option (Int × Nat) → Int × Int × (Int → Bool)
  | some (y, m) => ((Date.fromYmdOpt y m 1).getD from_, monthEnd y m to_,
      fun d => Date.year d = y ∧ Date.month d = m)
  | none => (from_, to_, fun d => from_ ≤ d ∧ d ≤ to_)

def buildGrid (opts : CalendarBuildOptions) (entries : List CalendarEntry) :
    Except Panic (List CalendarDay) := do
  let (first, last, inMonth) := gridRange opts.from_ opts.to_ opts.month
  let gridFrom ← startOfWeek first opts.weekStart
  let gridTo ← endOfWeek last opts.weekStart
  gridDays (gridCell inMonth entries opts.caps.maxPerCell) (gridTo + 1 - gridFrom).toNat gridFrom

/-! ### The entries -/

def classifyStatus (task : ExpandableTask) (fireUtc nowUtc : Int) : CalendarStatus :=
  if task.enabled = false then .disabled
  else if nowUtc < fireUtc then .upcoming
  else task.pastStatus

def truncateName (name : Text) (max : Nat) : Text :=
  if name.length ≤ max then name else name.take (max - 1) ++ ['…']

def ExpandableTask.repeats (task : ExpandableTask) : Bool :=
  match task.occurrence.kind with
  | .once .. => false
  | _ => true

/-- `{:02}:{:02}` of the hour and the minute. -/
def fmtHourMinute (l : Int) : Text :=
  let s := secondOfDay l
  numeral 2 (s / 3600) ++ ':' :: numeral 2 (s / 60 % 60)

/-- The entry of a row. -/
def entryOf (opts : CalendarBuildOptions) (z : Zone) (task : ExpandableTask) (row : Int × Int) :
    CalendarEntry where
  taskId := task.id
  name := truncateName task.name 40
  time := fmtHourMinute (z.toLocal row.1)
  timeSecs := secondOfDay (z.toLocal row.1)
  date := fmtDate row.2
  repeats := ExpandableTask.repeats task
  status := classifyStatus task row.1 opts.nowUtc
  command := if opts.showCommands then task.command else none
  sourceKind := task.sourceKind

/-- What entries are sorted by. -/
def entryKey (e : CalendarEntry) : Text ×ₗ Text ×ₗ Nat ×ₗ Text ×ₗ Text :=
  toLex (e.date, toLex (e.time, toLex (e.timeSecs, toLex (e.name, e.taskId))))

def EntryLe (a b : CalendarEntry) : Prop := entryKey a ≤ entryKey b

instance : DecidableRel EntryLe := fun a b => inferInstanceAs (Decidable (entryKey a ≤ entryKey b))

/-- The window of a build: its days, its bounds and where tasks are run from. -/
structure Span where
  zone : Zone
  from_ : Int
  to_ : Int
  start : Int
  end_ : Int
  after : Int

section

variable [Calendar]

/-- The rows of a task: at most `cap` fires, sifted. -/
def taskRows (w : Span) (cap : Nat) (task : ExpandableTask) : Except Panic (List (Int × Int)) := do
  let _ ← task.occurrence.timezone
  let fires ← task.occurrence.preview cap w.after
  windowRows w.zone w.from_ w.to_ w.start w.end_ fires

/-- The fires that a task may still have. -/
def fireCap (caps : CalendarCaps) (entries : Nat) : Nat :=
  min caps.maxFiresPerTask (caps.maxTotalEntries - entries)

/-- The loop over the tasks; `rowsOf` gives the rows of a task. -/
def expandTasks {ε : Type} (rowsOf : Nat → ExpandableTask → Except Panic (List (Int × Int)))
    (caps : CalendarCaps) (entry : ExpandableTask → Int × Int → ε) :
    List ExpandableTask → List ε → List String → Except Panic (List ε × List String)
  | [], entries, warnings => .ok (entries, warnings)
  | task :: tasks, entries, warnings =>
    if caps.maxTotalEntries ≤ entries.length then
      .ok (entries, warnings ++ [s!"capped total entries at {caps.maxTotalEntries}"])
    else do
      let cap := fireCap caps entries.length
      let rows ← rowsOf cap task
      let truncated := rows ≠ [] ∧ cap ≤ rows.length ∧ cap = caps.maxFiresPerTask
      let warnings := if truncated then warnings ++
          [s!"task {String.ofList task.id} truncated at {caps.maxFiresPerTask} fires"]
        else warnings
      expandTasks rowsOf caps entry tasks (entries ++ rows.map (entry task)) warnings

/-- The tasks that are considered, and what is said of the others. -/
def capTasks (caps : CalendarCaps) (tasks : List ExpandableTask) :
    List ExpandableTask × List String :=
  (tasks.take caps.maxTasks,
    if caps.maxTasks < tasks.length then
      [s!"capped tasks at {caps.maxTasks} (source had {tasks.length})"] else [])

def parseTz (name : String) : Built Zone :=
  okOr (Calendar.zone name) s!"unknown timezone '{name}': failed to parse timezone"

def rangeError {α : Type} (from_ to_ : Int) : Built α :=
  throw s!"range end {showDate to_} is before start {showDate from_}"

/-- `build_snapshot`. -/
def buildSnapshot (tasks : List ExpandableTask) (opts : CalendarBuildOptions) :
    Built CalendarSnapshot :=
  if opts.to_ < opts.from_ then rangeError opts.from_ opts.to_
  else do
    let z ← parseTz opts.timezone
    let start ← okOr (midnight z opts.from_)
      s!"cannot resolve local midnight for {showDate opts.from_}"
    let after ← shiftUtc start (-1)
    let endExclusive ← addDays opts.to_ 1
    let end_ ← okOr (midnight z endExclusive) s!"cannot resolve local end for {showDate opts.to_}"
    let (considered, warnings) := capTasks opts.caps tasks
    let w : Span := ⟨z, opts.from_, opts.to_, start, end_, after⟩
    let (entries, warnings) ←
      expandTasks (taskRows w) opts.caps (entryOf opts z) considered [] warnings
    let entries := entries.insertionSort EntryLe
    let days ← buildGrid opts entries
    return {
      from_ := fmtDate opts.from_
      to_ := fmtDate opts.to_
      year := opts.month.map Prod.fst
      month := opts.month.map Prod.snd
      timezone := opts.timezone
      weekStart := opts.weekStart
      showCommands := opts.showCommands
      days
      entries
      caps := opts.caps
      warnings }

end

/-! ### Labels -/

/-- A label that is too long is cut between two characters. -/
def LabelFits (base : Text) : Prop := 28 < byteLen base → ∃ p, p <+: base ∧ byteLen p = 27

theorem takeBytes_prefix (cap : Nat) (s : Text) : takeBytes cap s <+: s := by
  induction s generalizing cap with
  | nil => simp [takeBytes]
  | cons c s ih =>
    unfold takeBytes
    split
    · simpa using ih (cap - c.utf8Size)
    · exact List.nil_prefix

/-- Of the beginnings of a text there is one of the length that is asked for,
or none. -/
theorem takeBytes_eq_of_lead {p s : Text} (h : p <+: s) : takeBytes (byteLen p) s = p := by
  induction p generalizing s with
  | nil =>
    cases s with
    | nil => rfl
    | cons c s =>
      unfold takeBytes
      have hpos := c.utf8Size_pos
      exact if_neg (by show ¬c.utf8Size ≤ 0; omega)
  | cons c p ih =>
    obtain ⟨t, rfl⟩ := h
    rw [List.cons_append, byteLen_cons]
    unfold takeBytes
    rw [if_pos (Nat.le_add_right _ _), Nat.add_sub_cancel_left, ih (List.prefix_append p t)]

theorem sliceTo_ok_iff {n : Nat} {s : Text} :
    (∃ t, sliceTo n s = .ok t) ↔ ∃ p, p <+: s ∧ byteLen p = n := by
  unfold sliceTo
  constructor
  · rintro ⟨t, h⟩
    split at h
    · next hlen => exact ⟨takeBytes n s, takeBytes_prefix n s, hlen⟩
    · cases h
  · rintro ⟨p, hp, rfl⟩
    rw [takeBytes_eq_of_lead hp]
    exact ⟨p, if_pos rfl⟩

/-- The label of the task, where it is taken off its command. -/
def labelBase (task : DiscoveredTask) : Option Text :=
  let cmd := Text.trim task.command
  if cmd = [] ∨ cmd = "(no action)".toList then none else some (baseName cmd)

theorem shortName_ok_iff {task : DiscoveredTask} :
    (∃ name, shortName task = .ok name) ↔ ∀ base, labelBase task = some base → LabelFits base := by
  unfold shortName labelBase LabelFits
  dsimp only
  split
  · exact iff_of_true ⟨_, rfl⟩ nofun
  · simp only [Option.some.injEq, forall_eq']
    split
    · next hlong =>
      rw [← sliceTo_ok_iff]
      cases sliceTo 27 (baseName (Text.trim task.command)) with
      | ok t => exact iff_of_true ⟨_, rfl⟩ fun _ => ⟨t, rfl⟩
      | error p => exact iff_of_false (fun ⟨_, h⟩ => nomatch h) fun h => nomatch h hlong
    · next hshort => exact iff_of_true ⟨_, rfl⟩ fun h => absurd h hshort

section

variable [Calendar]

/-- Of each task that can be run forward the label is cut between two
characters. -/
def LabelsFit (discovered : List Discovery) : Prop :=
  ∀ task ∈ discovered,
    (occurrenceFromDiscovered task.toDiscoveredTask (task.timezone.getD "UTC")).isSome →
    ∀ base, labelBase task.toDiscoveredTask = some base → LabelFits base

theorem tryFromDiscovered_ok_iff {task : Discovery} :
    (∃ r, tryFromDiscovered task = .ok r) ↔
      ((occurrenceFromDiscovered task.toDiscoveredTask (task.timezone.getD "UTC")).isSome →
        ∀ base, labelBase task.toDiscoveredTask = some base → LabelFits base) := by
  unfold tryFromDiscovered
  cases occurrenceFromDiscovered task.toDiscoveredTask (task.timezone.getD "UTC") with
  | none => exact iff_of_true ⟨none, rfl⟩ nofun
  | some occurrence =>
    rw [← shortName_ok_iff]
    cases shortName task.toDiscoveredTask with
    | ok name => exact iff_of_true ⟨_, rfl⟩ fun _ => ⟨name, rfl⟩
    | error p => exact iff_of_false (fun ⟨_, h⟩ => nomatch h) fun h => nomatch h rfl

theorem tasksOf_ok_iff {timers : List Timer} {discovered : List Discovery} :
    (∃ tasks, tasksOf timers discovered = .ok tasks) ↔ LabelsFit discovered := by
  unfold LabelsFit
  simp only [← tryFromDiscovered_ok_iff]
  rw [← exists_mapM_iff]
  unfold tasksOf
  cases discovered.mapM tryFromDiscovered with
  | ok found => exact iff_of_true ⟨_, rfl⟩ ⟨found, rfl⟩
  | error p => exact iff_of_false (fun ⟨_, h⟩ => nomatch h) fun ⟨_, h⟩ => nomatch h

end

/-! ### The loop over the tasks -/

section

variable {rowsOf : Nat → ExpandableTask → Except Panic (List (Int × Int))}
  {fits : Nat → ExpandableTask → Prop} {caps : CalendarCaps}

/-- Every task that the loop comes to, with `n` entries before it, fits. -/
def TasksFit (fits : Nat → ExpandableTask → Prop)
    (rowsOf : Nat → ExpandableTask → Except Panic (List (Int × Int))) (caps : CalendarCaps) :
    List ExpandableTask → Nat → Prop
  | [], _ => True
  | task :: tasks, n => caps.maxTotalEntries ≤ n ∨ fits (fireCap caps n) task ∧
      ∀ rows, rowsOf (fireCap caps n) task = .ok rows →
        TasksFit fits rowsOf caps tasks (n + rows.length)

theorem expandTasks_ok_iff {ε : Type} {entry : ExpandableTask → Int × Int → ε}
    {tasks : List ExpandableTask} {entries : List ε} {warnings : List String}
    (hfits : ∀ cap task, (∃ rows, rowsOf cap task = .ok rows) ↔ fits cap task) :
    (∃ r, expandTasks rowsOf caps entry tasks entries warnings = .ok r) ↔
      TasksFit fits rowsOf caps tasks entries.length := by
  induction tasks generalizing entries warnings with
  | nil => exact iff_of_true ⟨_, rfl⟩ trivial
  | cons task tasks ih =>
    unfold expandTasks TasksFit
    by_cases hfull : caps.maxTotalEntries ≤ entries.length
    · rw [if_pos hfull]
      exact iff_of_true ⟨_, rfl⟩ (.inl hfull)
    rw [if_neg hfull, or_iff_right hfull, ← hfits]
    dsimp only
    cases hrows : rowsOf (fireCap caps entries.length) task with
    | error p => exact iff_of_false (fun ⟨_, h⟩ => nomatch h) fun ⟨⟨_, h⟩, _⟩ => nomatch h
    | ok rows =>
      have hlen : (entries ++ rows.map (entry task)).length = entries.length + rows.length := by
        rw [List.length_append, List.length_map]
      refine (@ih (entries ++ rows.map (entry task)) _).trans ?_
      rw [hlen]
      refine ⟨fun h => ⟨⟨rows, rfl⟩, ?_⟩, fun h => h.2 rows rfl⟩
      rintro _ ⟨⟩
      exact h

end

section

variable [Calendar]

/-- The schedule of the task can be run, and the fires that the window looks
at are on its clock. -/
def TaskFits (w : Span) (cap : Nat) (task : ExpandableTask) : Prop :=
  (∃ z, Calendar.zone task.occurrence.tz = some z) ∧
  ∃ fires, task.occurrence.preview cap w.after = .ok fires ∧
    ∀ t ∈ fires.takeWhile (· < w.end_), w.start ≤ t → OnClock w.zone t

theorem timezone_ok_iff {occ : Occurrence} :
    (∃ z, occ.timezone = .ok z) ↔ ∃ z, Calendar.zone occ.tz = some z := by
  unfold Occurrence.timezone
  cases Calendar.zone occ.tz with
  | none => exact iff_of_false (fun ⟨_, h⟩ => nomatch h) fun ⟨_, h⟩ => nomatch h
  | some z => exact iff_of_true ⟨z, rfl⟩ ⟨z, rfl⟩

theorem taskRows_ok_iff (w : Span) (cap : Nat) (task : ExpandableTask) :
    (∃ rows, taskRows w cap task = .ok rows) ↔ TaskFits w cap task := by
  unfold taskRows TaskFits
  simp only [exists_bind_iff, windowRows_ok_iff]
  rw [← timezone_ok_iff]
  constructor
  · rintro ⟨z, hz, h⟩
    exact ⟨⟨z, hz⟩, h⟩
  · rintro ⟨⟨z, hz⟩, h⟩
    exact ⟨z, hz, h⟩

end

/-! ### The grid -/

/-- The days of the whole weeks around the window, and the one after them, are
dates. -/
def GridFits (opts : CalendarBuildOptions) : Prop :=
  let (first, last, _) := gridRange opts.from_ opts.to_ opts.month
  let gridFrom := first + -(opts.weekStart.column (Date.weekday first) : Nat)
  let gridTo := last + (6 - (opts.weekStart.column (Date.weekday last) : Nat))
  Period.IsDate gridFrom ∧ Period.IsDate gridTo ∧ (gridFrom ≤ gridTo → gridTo + 1 ≤ Date.max)

section

variable {opts : CalendarBuildOptions} {cell : Int → CalendarDay} {date d m : Int} {n : Nat}

theorem addDays_ok_iff : (∃ d, addDays date m = .ok d) ↔ Period.IsDate (date + m) := by
  constructor
  · rintro ⟨d, h⟩
    obtain ⟨hrange, rfl⟩ := addDays_eq_ok.mp h
    exact hrange
  · exact fun h => ⟨_, addDays_eq_ok.mpr ⟨h, rfl⟩⟩

/-- A step of the calendar that begins with a date. -/
theorem exists_addDays_bind_iff {α : Type} {g : Int → Except Panic α} :
    (∃ b, addDays date m >>= g = .ok b) ↔
      Period.IsDate (date + m) ∧ ∃ b, g (date + m) = .ok b := by
  rw [exists_bind_iff]
  constructor
  · rintro ⟨d, h, hg⟩
    obtain ⟨hrange, rfl⟩ := addDays_eq_ok.mp h
    exact ⟨hrange, hg⟩
  · exact fun ⟨h, hg⟩ => ⟨_, addDays_eq_ok.mpr ⟨h, rfl⟩, hg⟩

theorem gridDays_ok_iff (hd : Period.IsDate d) :
    (∃ days, gridDays cell n d = .ok days) ↔ d + n ≤ Date.max := by
  induction n generalizing d with
  | zero => exact iff_of_true ⟨[], rfl⟩ (by simpa using hd.2)
  | succ n ih =>
    unfold gridDays
    rw [exists_addDays_bind_iff]
    have hsum : d + (n + 1 : Nat) = d + 1 + n := by omega
    have hlow := hd.1
    constructor
    · rintro ⟨hnext, days, h⟩
      obtain ⟨rest, hrest, -⟩ := exists_bind_iff.mp ⟨days, h⟩
      rw [hsum]
      exact (ih hnext).mp ⟨rest, hrest⟩
    · intro hle
      have hnext : Period.IsDate (d + 1) := ⟨by omega, by omega⟩
      rw [hsum] at hle
      obtain ⟨rest, hrest⟩ := (ih hnext).mpr hle
      exact ⟨hnext, exists_bind_iff.mpr ⟨rest, hrest, _, rfl⟩⟩

theorem buildGrid_ok_iff {entries : List CalendarEntry} :
    (∃ days, buildGrid opts entries = .ok days) ↔ GridFits opts := by
  unfold buildGrid GridFits startOfWeek endOfWeek
  obtain ⟨first, last, inMonth⟩ := gridRange opts.from_ opts.to_ opts.month
  dsimp only
  rw [exists_addDays_bind_iff]
  refine and_congr_right fun hfirst => ?_
  rw [exists_addDays_bind_iff]
  refine and_congr_right fun hlast => ?_
  rw [gridDays_ok_iff hfirst]
  have hmax := hfirst.2
  omega

end

/-! ### The snapshot -/

theorem faultless_okOr_bind_iff {α β : Type} {o : Option α} {e : String} {f : α → Built β} :
    Faultless (okOr o e >>= f) ↔ ∀ a, o = some a → Faultless (f a) := by
  cases o with
  | none => exact iff_of_true ⟨_, rfl⟩ nofun
  | some a => simp only [Option.some.injEq, forall_eq']; exact Iff.rfl

theorem faultless_addDays_bind_iff {β : Type} {date n : Int} {f : Int → Built β} :
    Faultless ((liftM (addDays date n) : Built Int) >>= f) ↔
      Period.IsDate (date + n) ∧ Faultless (f (date + n)) := by
  rw [faultless_lift_bind_iff]
  constructor
  · rintro ⟨d, h, hf⟩
    obtain ⟨hrange, rfl⟩ := addDays_eq_ok.mp h
    exact ⟨hrange, hf⟩
  · exact fun ⟨h, hf⟩ => ⟨_, addDays_eq_ok.mpr ⟨h, rfl⟩, hf⟩

/-- A midnight is an instant of the calendar. -/
theorem midnight_mem {z : Zone} {date m : Int} (h : midnight z date = some m) :
    minUtc ≤ m ∧ m ≤ Occurrence.maxUtc := by
  have hchecked : ∀ {u}, checkedUtc u = some m → minUtc ≤ m ∧ m ≤ Occurrence.maxUtc := by
    intro u hu
    unfold checkedUtc at hu
    split at hu
    · next hrange =>
      cases hu
      exact hrange
    · cases hu
  unfold midnight at h
  split at h
  · exact hchecked h
  · obtain ⟨-, -, h⟩ := Option.bind_eq_some_iff.mp h
    exact hchecked h
  · cases h

/-- The instant before a midnight. -/
theorem faultless_shiftUtc_bind_iff {β : Type} {z : Zone} {date m : Int} {f : Int → Built β}
    (h : midnight z date = some m) :
    Faultless ((liftM (shiftUtc m (-1)) : Built Int) >>= f) ↔
      minUtc < m ∧ Faultless (f (m - 1)) := by
  have hmem := midnight_mem h
  rw [faultless_lift_bind_iff]
  constructor
  · rintro ⟨u, hu, hf⟩
    obtain ⟨⟨hlow, -⟩, rfl⟩ := shiftUtc_eq_ok.mp hu
    exact ⟨by omega, hf⟩
  · rintro ⟨hlow, hf⟩
    exact ⟨_, shiftUtc_eq_ok.mpr ⟨⟨by omega, by omega⟩, rfl⟩, hf⟩

section

variable [Calendar] {tasks : List ExpandableTask} {opts : CalendarBuildOptions}

/-- The window of a snapshot does not lead past the calendar: the instant
before it, the day after it, the tasks and the grid. -/
def SnapshotFits (tasks : List ExpandableTask) (opts : CalendarBuildOptions) : Prop :=
  opts.from_ ≤ opts.to_ → ∀ z, Calendar.zone opts.timezone = some z →
  ∀ start, midnight z opts.from_ = some start →
    minUtc < start ∧ Period.IsDate (opts.to_ + 1) ∧
    ∀ end_, midnight z (opts.to_ + 1) = some end_ →
      let w : Span := ⟨z, opts.from_, opts.to_, start, end_, start - 1⟩
      TasksFit (TaskFits w) (taskRows w) opts.caps (tasks.take opts.caps.maxTasks) 0 ∧
        GridFits opts

/-- **The calendar of a window** aborts only when the window or one of its
tasks leads past the calendar. -/
theorem faultless_buildSnapshot_iff :
    Faultless (buildSnapshot tasks opts) ↔ SnapshotFits tasks opts := by
  unfold buildSnapshot SnapshotFits rangeError parseTz capTasks
  rw [faultless_ite_iff, and_iff_right (fun _ => faultless_throw _), Int.not_lt]
  refine imp_congr_right fun _ => ?_
  rw [faultless_okOr_bind_iff]
  refine forall₂_congr fun z _ => ?_
  rw [faultless_okOr_bind_iff]
  refine forall₂_congr fun start hstart => ?_
  rw [faultless_shiftUtc_bind_iff hstart]
  refine and_congr_right fun _ => ?_
  rw [faultless_addDays_bind_iff]
  refine and_congr_right fun _ => ?_
  rw [faultless_okOr_bind_iff]
  refine forall₂_congr fun end_ _ => ?_
  dsimp only
  rw [faultless_lift_bind_iff]
  set w : Span := ⟨z, opts.from_, opts.to_, start, end_, start - 1⟩
  have hexpand : ∀ warnings, (∃ r, expandTasks (taskRows w) opts.caps (entryOf opts z)
      (tasks.take opts.caps.maxTasks) [] warnings = .ok r) ↔
        TasksFit (TaskFits w) (taskRows w) opts.caps (tasks.take opts.caps.maxTasks) 0 :=
    fun _ => expandTasks_ok_iff (taskRows_ok_iff w)
  constructor
  · rintro ⟨⟨entries, warnings⟩, h, hrest⟩
    obtain ⟨days, hdays, -⟩ := faultless_lift_bind_iff.mp hrest
    exact ⟨(hexpand _).mp ⟨_, h⟩, buildGrid_ok_iff.mp ⟨days, hdays⟩⟩
  · rintro ⟨htasks, hgrid⟩
    obtain ⟨⟨entries, warnings⟩, h⟩ := (hexpand _).mpr htasks
    obtain ⟨days, hdays⟩ := buildGrid_ok_iff.mpr hgrid
    exact ⟨_, h, faultless_lift_bind_iff.mpr ⟨days, hdays, faultless_pure _⟩⟩

end

end Snapshot

end Bellman
