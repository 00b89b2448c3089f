/-
Bellman/Rewrite.lean

Rewriting the crontab of the user.

A task is disabled, enabled or edited by looking its line up in the crontab
as it is now and putting another line in its place; a new task is inserted
into a fence of its own.  The text is split into lines and put together again,
and installed only if the user asks for it.

Every other line should keep its bytes.  Splitting a text drops what joining
it does not bring back: a carriage return before a newline, and an empty line
at the end.  And the look-up has three fall-backs: a line that reads as the
task's did, the line at the task's number, a job with its schedule and
command.  The first finds the first of equal lines, the second finds any line
at all.

Main results: when an operation touches the task's line only (`touches_iff`),
and when a line that was disabled comes back (`roundTrips_iff`).
-/
import Bellman.Crontab

namespace Bellman

open Text ProgramLogic
open OccurrenceKind (isWhiteSpace)

/-! ### The operations -/

/-- What was planned, and whether it was done. -/
structure WritePlan where
  taskId : Option String
  action : String
  target : String
  applied : Bool := false
  dryRun : Bool
  before : Text := []
  after : Text := []
  backupPath : Option String := none
  refused : Option String := none
  note : Option String := none

/-- The crontab of the user, and what fails around it. -/
structure CrontabEnv where
  text : Text
  readError : Option String := none
  /-- Where the backup goes. -/
  backup : Except String String := .ok ""
  installError : Option String := none

def readUserCrontab (env : CrontabEnv) : Except String Text :=
  match env.readError with
  | some e => .error e
  | none => .ok env.text

def refuseNonUser (task : DiscoveredTask) : Option String :=
  if task.sourceKind.isSystemReadonly then
    some (task.writeBlockReason.getD
      (s!"refusing to modify {task.source} (source {task.sourceKind.debug}): " ++
        "v1 is read-only for system schedules. Bellman will not call sudo/pkexec. " ++
        "Edit manually as root if required."))
  else if !task.writable then some (task.writeBlockReason.getD "task is not writable")
  else if task.sourceKind ≠ .cronUser then
    some s!"v1 only mutates the invoking user's crontab; this task is {task.sourceKind.debug}"
  else none

/-- `finish_write_raw`: the plan, and the crontab afterwards. -/
def finishWriteRaw (env : CrontabEnv) (action : String) (taskId : Option String)
    (target : String) (before after : Text) (apply : Bool) : Except String WritePlan × Text :=
  let plan : WritePlan := { taskId, action, target, dryRun := !apply, before, after }
  if before = after then (.ok { plan with note := some "no change" }, env.text)
  else if apply then
    match env.backup, env.installError with
    | .error e, _ => (.error e, env.text)
    | _, some e => (.error e, env.text)
    | .ok path, none => (.ok { plan with applied := true, backupPath := some path }, after)
  else
    (.ok { plan with
      note := some "dry-run: pass --apply to write (backup will be taken first)" }, env.text)

/-- A line with the task's schedule and command. -/
def contentMatch (lines : List Text) (task : DiscoveredTask) : Option Nat :=
  (parseCrontab (joinLines lines true) .user).findSome? fun
    | .job raw _ job disabledByBellman originalLine =>
      let cmdOk := job.command = task.command ∨
        originalLine.any fun o => decide (task.command <:+: o)
      let schedOk := job.schedule.expression = task.scheduleExpr
      let enOk := task.enabled ≠ disabledByBellman
      if cmdOk ∧ schedOk ∧ enOk then lines.findIdx? (· == raw) else none
    | _ => none

/-- The first line that reads as the task's did. -/
def exactMatch (lines : List Text) (task : DiscoveredTask) : Option Nat :=
  task.rawLine.bind fun raw => lines.findIdx? (· == raw)

/-- The line at the task's number. -/
def numberMatch (lines : List Text) (task : DiscoveredTask) : Option Nat :=
  task.lineNo.bind fun n => if 0 < n ∧ n - 1 < lines.length then some (n - 1) else none

def findJobLineIndex (lines : List Text) (task : DiscoveredTask) : Except String Nat :=
  match exactMatch lines task <|> numberMatch lines task <|> contentMatch lines task with
  | some i => .ok i
  | none =>
    .error s!"could not locate task {task.id} in current crontab (it may have changed; re-scan)"

/-- The line is looked up and replaced. -/
def rewriteLine (newLine : Text → Except String Text) (before : Text) (task : DiscoveredTask) :
    Except String Text := do
  let lines := splitLines before
  let idx ← findJobLineIndex lines task
  let new ← newLine (lines.getD idx [])
  return joinLines (lines.set idx new) (hadTrailingNewline before)

def disabledLine (original : Text) : Except String Text := .ok (DISABLE_PREFIX ++ original)

def enabledLine (task : DiscoveredTask) (current : Text) : Except String Text :=
  let marked := task.disabledOriginal <|> stripPrefix? DISABLE_PREFIX (trimStart current) <|>
    task.rawLine.bind fun raw => stripPrefix? DISABLE_PREFIX (trimStart raw)
  match marked with
  | some original => .ok original
  | none => .error "enable requires a Bellman-disabled line (marker missing)"

def editedLine (task : DiscoveredTask) (newCommand newCron : Option Text) (current : Text) :
    Except String Text :=
  let cron := newCron.getD task.scheduleExpr
  let command := newCommand.getD task.command
  let encoded := joinPercent command task.stdinPayload
  let newLine :=
    if DISABLE_PREFIX.isPrefixOf (trimStart current) then
      DISABLE_PREFIX ++ cron ++ [' '] ++ encoded
    else cron ++ [' '] ++ encoded
  match (parseCrontab ((stripPrefix? DISABLE_PREFIX newLine).getD newLine) .user).head? with
  | some (.job ..) => .ok newLine
  | _ => .error s!"edited line does not parse as a cron job: {String.ofList newLine}"

def transformDisable (before : Text) (task : DiscoveredTask) : Except String Text :=
  rewriteLine disabledLine before task

def transformEnable (before : Text) (task : DiscoveredTask) : Except String Text :=
  rewriteLine (enabledLine task) before task

def transformEdit (before : Text) (task : DiscoveredTask) (newCommand newCron : Option Text) :
    Except String Text :=
  rewriteLine (editedLine task newCommand newCron) before task

/-- A plan that changes nothing. -/
def idlePlan (action : String) (task : DiscoveredTask) (apply : Bool)
    (refused note : Option String) : WritePlan :=
  { taskId := some task.id, action, target := task.source, dryRun := !apply, refused, note }

/-- Read the crontab, transform it, and write it back. -/
def applyTransform (env : CrontabEnv) (action : String) (task : DiscoveredTask)
    (transform : Text → Except String Text) (apply : Bool) : Except String WritePlan × Text :=
  match readUserCrontab env with
  | .error e => (.error e, env.text)
  | .ok before =>
    match transform before with
    | .error e => (.error e, env.text)
    | .ok after => finishWriteRaw env action (some task.id) task.source before after apply

def disableTask (env : CrontabEnv) (task : DiscoveredTask) (apply : Bool) :
    Except String WritePlan × Text :=
  match refuseNonUser task with
  | some reason => (.ok (idlePlan "disable" task apply (some reason) none), env.text)
  | none =>
    if !task.enabled then
      (.ok (idlePlan "disable" task apply none (some "already disabled")), env.text)
    else applyTransform env "disable" task (transformDisable · task) apply

def enableTask (env : CrontabEnv) (task : DiscoveredTask) (apply : Bool) :
    Except String WritePlan × Text :=
  match refuseNonUser task with
  | some reason => (.ok (idlePlan "enable" task apply (some reason) none), env.text)
  | none =>
    if task.enabled then
      (.ok (idlePlan "enable" task apply none (some "already enabled")), env.text)
    else applyTransform env "enable" task (transformEnable · task) apply

def editTask (env : CrontabEnv) (task : DiscoveredTask) (newCommand newCron : Option Text)
    (apply : Bool) : Except String WritePlan × Text :=
  match refuseNonUser task with
  | some reason => (.ok (idlePlan "edit" task apply (some reason) none), env.text)
  | none =>
    if newCommand.isNone ∧ newCron.isNone then
      (.error "nothing to edit (pass --command and/or --cron)", env.text)
    else applyTransform env "edit" task (transformEdit · task newCommand newCron) apply

/-- Insert a line before the end of the fence, or a fence with it at the end. -/
def insertIntoFence (before entryId newLine : Text) : Text :=
  let lines := splitLines before
  let entry := ["# id: ".toList ++ entryId, newLine]
  let begin? := lines.findIdx? fun l => trim l == FENCE_BEGIN
  let end? := lines.findIdx? fun l => trim l == FENCE_END
  let fenced :=
    match begin?, end? with
    | some b, some e =>
      if e > b then lines.take e ++ entry ++ lines.drop e
      else lines ++ FENCE_BEGIN :: entry ++ [FENCE_END]
    | _, _ => lines ++ FENCE_BEGIN :: entry ++ [FENCE_END]
  joinLines fenced true

/-- `new_cron_task`, up to the plan. -/
def newCronTask (env : CrontabEnv) (hash : TaskHash) (command cronExpr : Text) (apply : Bool) :
    Except String WritePlan × Text :=
  if trim command = [] then (.error "command must not be empty", env.text)
  else if trim cronExpr = [] then (.error "cron expression must not be empty", env.text)
  else
    let newLine := cronExpr ++ [' '] ++ joinPercent command none
    match (parseCrontab newLine .user).head? with
    | some (.job ..) =>
      let before := (readUserCrontab env).toOption.getD []
      let entryId := hash.shortHash (cronExpr ++ ['|'] ++ command)
      let after := insertIntoFence before entryId newLine
      finishWriteRaw env "new" none "crontab:user" before after apply
    | _ =>
      let line := String.ofList (cronExpr ++ [' '] ++ command)
      (.error ("could not parse cron line: " ++ Char.toString (Char.ofNat 96) ++ line ++
        Char.toString (Char.ofNat 96)), env.text)

/-! ### What they should do -/

/-- An operation on a task that was found. -/
inductive TaskOp where
  | disable
  | enable
  | edit (newCommand newCron : Option Text)

namespace TaskOp

/-- There is something to do. -/
def Applies (task : DiscoveredTask) : TaskOp → Prop
  | disable => task.enabled = true
  | enable => task.enabled = false
  | edit newCommand newCron => newCommand.isSome = true ∨ newCron.isSome = true

/-- There is nothing to do, and the plan says so. -/
def Idles (task : DiscoveredTask) : TaskOp → Prop
  | disable => task.enabled = false
  | enable => task.enabled = true
  | edit _ _ => False

/-- The line that comes in the place of a line. -/
def newLine (task : DiscoveredTask) : TaskOp → Text → Except String Text
  | disable => disabledLine
  | enable => enabledLine task
  | edit newCommand newCron => editedLine task newCommand newCron

def run (env : CrontabEnv) (task : DiscoveredTask) (apply : Bool) :
    TaskOp → Except String WritePlan × Text
  | disable => disableTask env task apply
  | enable => enableTask env task apply
  | edit newCommand newCron => editTask env task newCommand newCron apply

end TaskOp

/-- Line `i` is the task's: it reads as the task's line did, and it is the one
at the task's number if that one reads so. -/
structure TaskLine (text : Text) (task : DiscoveredTask) (i : Nat) : Prop where
  reads : ∃ raw, task.rawLine = some raw ∧ (splitLines text)[i]? = some raw
  numbered : ∀ n, task.lineNo = some n → 0 < n →
    (splitLines text)[n - 1]? = task.rawLine → i = n - 1

/-- Line `i` gives way to one new line, with a carriage return or without;
every other line keeps its bytes, a carriage return being the last of them,
and the text ends as it did. -/
structure OneLine (before after : Text) (i : Nat) (new : Text) : Prop where
  single : '\n' ∉ new
  others : ∃ cr, (cr = [] ∨ cr = ['\r']) ∧
    lines '\n' after = (lines '\n' before).set i (new ++ cr)
  ended : Whole '\n' after ↔ Whole '\n' before

/-- What an operation leaves of the crontab, and what its plan says: an error
writes nothing, it is an error when the task's line is gone, and a plan changes
that line only. -/
def TaskOp.Touches (op : TaskOp) (env : CrontabEnv) (task : DiscoveredTask) : Prop :=
  ∀ apply, match op.run env task apply with
    | (.error _, now) => now = env.text
    | (.ok plan, now) => (now = env.text ∨ now = plan.after) ∧
        (∃ raw, task.rawLine = some raw ∧ raw ∈ splitLines env.text) ∧
        (op.Applies task → ∃ i raw new, TaskLine env.text task i ∧ task.rawLine = some raw ∧
          op.newLine task raw = .ok new ∧ OneLine env.text plan.after i new)

/-- The task that a scan finds at a line. -/
def taskAt (username : String) (hash : TaskHash) (text : Text) (i : Nat) :
    Option DiscoveredTask :=
  (parseCrontab text .user)[i]?.bind ((CrontabSource.user username).task hash)

/-- Disable, scan again, enable the task at the line that was disabled: the
text is as it was. -/
def RoundTrips (username : String) (hash : TaskHash) (text : Text) (task : DiscoveredTask) :
    Prop :=
  ∀ after, transformDisable text task = .ok after →
    ∃ i task', findJobLineIndex (splitLines text) task = .ok i ∧
      taskAt username hash after i = some task' ∧ transformEnable after task' = .ok text

/-- Lines are inserted between two lines, or at the end; the text has a
newline there afterwards. -/
structure Inserted (before after : Text) (block : List Text) : Prop where
  others : ∃ n ≤ (lines '\n' before).length,
    lines '\n' after = (lines '\n' before).take n ++ lines '\n' (unlines '\n' true block) ++
      (lines '\n' before).drop n ∧
    (Whole '\n' before ∨ n = (lines '\n' before).length)
  ended : Whole '\n' after

/-- The comment with the id of a new line, and the line. -/
def fenceEntry (hash : TaskHash) (command cronExpr : Text) : List Text :=
  ["# id: ".toList ++ hash.shortHash (cronExpr ++ ['|'] ++ command),
    cronExpr ++ [' '] ++ joinPercent command none]

/-- What a new task leaves of the crontab, and what its plan says: its lines
are inserted, with a fence around them or without. -/
def NewTouches (env : CrontabEnv) (hash : TaskHash) (command cronExpr : Text) : Prop :=
  ∀ apply, match newCronTask env hash command cronExpr apply with
    | (.error _, now) => now = env.text
    | (.ok plan, now) => (now = env.text ∨ now = plan.after) ∧
        ∃ block, Inserted env.text plan.after block ∧
          (block = fenceEntry hash command cronExpr ∨
            block = FENCE_BEGIN :: fenceEntry hash command cronExpr ++ [FENCE_END])

/-! ### When they do it -/

/-- The line ends in a bare newline, or is open. -/
def Bare (line : Text) : Prop := line.getLast? ≠ some '\r'

instance (line : Text) : Decidable (Bare line) :=
  inferInstanceAs (Decidable (line.getLast? ≠ some '\r'))

/-- When an operation touches the task's line only.  With the line still
there: the new one is a line; the last line is not empty; no other line ends in
a carriage return; and the task's is the first line that reads so, or nothing
changes.  With the line gone: no other line is at its number or has its
schedule and command, or no line can be made. -/
structure TaskOp.Safe (op : TaskOp) (text : Text) (task : DiscoveredTask) (raw : Text) : Prop where
  found : raw ∈ splitLines text → ∀ new, op.newLine task raw = .ok new →
    '\n' ∉ new ∧ (splitLines text).getLast? ≠ some [] ∧ ∃ i, TaskLine text task i ∧
      (∀ j l, j ≠ i → (lines '\n' text)[j]? = some l → Bare l) ∧
      (new = raw ∨ exactMatch (splitLines text) task = some i)
  gone : raw ∉ splitLines text → ∀ i,
    (numberMatch (splitLines text) task <|> contentMatch (splitLines text) task) = some i →
    ∀ new, op.newLine task ((splitLines text).getD i []) ≠ .ok new

/-- When a disabled line comes back: nothing is cut off it, and no line before
it reads as it does when disabled. -/
structure ComesBack (text : Text) (task : DiscoveredTask) (raw : Text) : Prop where
  bare : ∀ l ∈ lines '\n' text, Bare l
  trimmed : trimEnd raw = raw
  first : ∀ i, exactMatch (splitLines text) task = some i →
    ∀ j < i, (splitLines text)[j]? ≠ some (DISABLE_PREFIX ++ raw)

/-- The place before which a new line is put, if there is a fence. -/
def fenceEnd (text : Text) : Option Nat :=
  match (splitLines text).findIdx? (fun l => trim l == FENCE_BEGIN),
      (splitLines text).findIdx? (fun l => trim l == FENCE_END) with
  | some b, some e => if e > b then some e else none
  | _, _ => none

/-- The request for a new task is one for a job. -/
def NewAccepted (command cronExpr : Text) : Prop :=
  trim command ≠ [] ∧ trim cronExpr ≠ [] ∧ ∃ raw n job d o,
    (parseCrontab (cronExpr ++ [' '] ++ joinPercent command none) .user).head? =
      some (.job raw n job d o)

/-- When a new line touches nothing else: the crontab could be read, or has
nothing in it but a fence; no line ends in a carriage return; and when there is
a fence, the text ends in a newline and not in an empty line. -/
structure NewSafe (env : CrontabEnv) : Prop where
  read : env.readError ≠ none →
    env.text = [] ∨ env.text = unlines '\n' true [FENCE_BEGIN, FENCE_END]
  bare : env.readError = none → ∀ l ∈ lines '\n' env.text, Bare l
  fenced : env.readError = none → (fenceEnd env.text).isSome = true →
    Whole '\n' env.text ∧ (splitLines env.text).getLast? ≠ some []

/-! ### Splitting and joining -/

section Lines

variable {text : Text} {ls : List Text} {l : Text}

theorem splitOn_eq_lines (text : Text) (h : text ≠ []) :
    text.splitOn '\n' = lines '\n' text ++ if hadTrailingNewline text then [[]] else [] := by
  induction text with
  | nil => exact absurd rfl h
  | cons c text ih =>
    rw [List.splitOn_eq_splitOnP, List.splitOnP_cons_eq_if_modifyHead, ← List.splitOn_eq_splitOnP]
    by_cases ht : text = []
    · subst ht
      by_cases hc : c = '\n'
      · subst hc
        decide
      · have hl : lines '\n' [c] = [[c]] :=
          lines_of_not_mem (by simpa using Ne.symm hc) (by simp)
        simp [hc, hl, hadTrailingNewline]
    · have htr : hadTrailingNewline (c :: text) = hadTrailingNewline text := by
        unfold hadTrailingNewline
        rw [List.getLast?_cons_of_ne_nil ht]
      rw [htr, ih ht]
      by_cases hc : c = '\n'
      · subst hc
        simp
      · obtain ⟨l, ls, hl⟩ := List.exists_cons_of_ne_nil (lines_ne_nil ht)
        rw [lines_cons_of_ne hc, hl]
        simp [hc]

/-- **The lines that the code works on** are those of the text, without the
carriage returns at their ends. -/
theorem splitLines_eq (text : Text) : splitLines text = (lines '\n' text).map stripCr := by
  unfold splitLines
  split
  · next h => subst h; rfl
  · next h =>
    rw [splitOn_eq_lines text h]
    cases hadTrailingNewline text <;> simp

theorem hadTrailingNewline_iff (h : text ≠ []) :
    hadTrailingNewline text = true ↔ Whole '\n' text := by
  unfold hadTrailingNewline Whole
  obtain ⟨init, c, rfl⟩ := (List.eq_nil_or_concat text).resolve_left h
  simp

/-- Only the last line tells whether a newline is added. -/
theorem joinLines_append (hl : l ≠ []) (hnl : '\n' ∉ l) (trailing : Bool) :
    joinLines (ls ++ [l]) trailing = unlines '\n' trailing (ls ++ [l]) := by
  have hne : ls ++ [l] ≠ [] := by simp
  have hs : ['\n'].intercalate (ls ++ [l]) = unlines '\n' true ls ++ l := by
    have happ : unlines '\n' false (ls ++ [l]) = unlines '\n' true ls ++ unlines '\n' false [l] :=
      unlines_append (List.cons_ne_nil l [])
    rw [unlines_eq_intercalate false hne] at happ
    simpa [unlines] using happ
  have hopen : hadTrailingNewline (['\n'].intercalate (ls ++ [l])) = false := by
    rw [hs]
    unfold hadTrailingNewline
    rw [List.getLast?_append_of_ne_nil _ hl, List.getLast?_eq_some_getLast hl]
    exact decide_eq_false fun heq => hnl (Option.some.inj heq ▸ List.getLast_mem hl)
  unfold joinLines
  rw [unlines_eq_intercalate trailing hne]
  cases trailing <;> simp [hopen]

theorem joinLines_eq (h : ∀ l ∈ ls, '\n' ∉ l) (hne : ls ≠ []) (hlast : ls.getLast? ≠ some [])
    (trailing : Bool) : joinLines ls trailing = unlines '\n' trailing ls := by
  obtain ⟨init, l, rfl⟩ := (List.eq_nil_or_concat ls).resolve_left hne
  rw [List.concat_eq_append] at h hlast ⊢
  refine joinLines_append (fun hnil => hlast ?_) (h l (by simp)) trailing
  rw [hnil, List.getLast?_concat]

/-- An empty line at the end is lost. -/
theorem joinLines_blank (hne : ls ≠ []) (trailing : Bool) :
    joinLines (ls ++ [[]]) trailing = unlines '\n' true ls := by
  have hs : ['\n'].intercalate (ls ++ [[]]) = unlines '\n' true ls := by
    have happ : unlines '\n' false (ls ++ [[]]) = unlines '\n' true ls ++ unlines '\n' false [[]] :=
      unlines_append (List.cons_ne_nil [] [])
    rw [unlines_eq_intercalate false (by simp)] at happ
    simpa [unlines] using happ
  have hended : hadTrailingNewline (unlines '\n' true ls) = true := by
    refine (hadTrailingNewline_iff ?_).mpr (whole_unlines_true ls)
    rw [unlines_eq_intercalate true hne]
    simp
  unfold joinLines
  simp [hs, hended]

/-- A text that is put together from lines has these lines, if the last is not
empty. -/
theorem lines_joinLines (h : ∀ l ∈ ls, '\n' ∉ l) (hne : ls ≠ []) (hlast : ls.getLast? ≠ some [])
    (trailing : Bool) : lines '\n' (joinLines ls trailing) = ls ∧
      (Whole '\n' (joinLines ls trailing) ↔ trailing = true) := by
  rw [joinLines_eq h hne hlast]
  exact ⟨lines_unlines h hlast, whole_unlines trailing h hne hlast⟩

theorem bare_iff {l : Text} : stripCr l = l ↔ Bare l := by
  unfold stripCr Bare
  split
  · next h =>
    refine ⟨fun heq => ?_, fun hb => absurd h hb⟩
    have hlen := congrArg List.length heq
    rw [List.length_dropLast] at hlen
    cases l with
    | nil => cases h
    | cons c l => simp at hlen
  · next h => exact ⟨fun _ => h, fun _ => rfl⟩

theorem length_stripCr_le (l : Text) : (stripCr l).length ≤ l.length := by
  unfold stripCr
  split
  · rw [List.length_dropLast]
    exact Nat.sub_le _ _
  · exact Nat.le_refl _

theorem stripCr_subset (l : Text) : stripCr l ⊆ l := by
  unfold stripCr
  split
  · exact List.dropLast_subset l
  · exact fun _ h => h

theorem not_mem_of_mem_splitLines (h : l ∈ splitLines text) : '\n' ∉ l := by
  rw [splitLines_eq] at h
  obtain ⟨m, hm, rfl⟩ := List.mem_map.mp h
  exact fun hmem => not_mem_of_mem_lines hm (stripCr_subset m hmem)

theorem length_splitLines (text : Text) :
    (splitLines text).length = (lines '\n' text).length := by
  rw [splitLines_eq, List.length_map]

theorem getElem?_splitLines (text : Text) (i : Nat) :
    (splitLines text)[i]? = (lines '\n' text)[i]?.map stripCr := by
  rw [splitLines_eq, List.getElem?_map]

end Lines

/-! ### Tasks that were found -/

section Found

variable {hash : TaskHash} {username : String} {task : DiscoveredTask} {raw : Text}

theorem parseLine_job {raw raw' : Text} {n n' : Nat} {mode : CrontabMode} {job : ParsedJob}
    {d : Bool} {o : Option Text} (h : parseLine raw n mode = .job raw' n' job d o) :
    raw' = raw ∧ n' = n ∧ trim raw ≠ [] ∧
      (d = false ∧ o = none ∧ tryParseJob (trim raw) mode = some job ∨
        d = true ∧ ∃ rest, o = some rest ∧ tryParseJob rest mode = some job) := by
  unfold parseLine at h
  simp only at h
  split at h
  · cases h
  next htrim =>
  split at h
  · next rest _ =>
    split at h
    · next job' hjob =>
      injection h with h1 h2 h3 h4 h5
      subst h1 h2 h3 h4 h5
      exact ⟨rfl, rfl, htrim, .inr ⟨rfl, rest, rfl, hjob⟩⟩
    · cases h
  split at h
  · cases h
  split at h
  · cases h
  split at h
  · cases h
  split at h
  · next job' hjob =>
    injection h with h1 h2 h3 h4 h5
    subst h1 h2 h3 h4 h5
    exact ⟨rfl, rfl, htrim, .inl ⟨rfl, rfl, hjob⟩⟩
  · cases h

/-- What is known of a task that was found in the crontab of the user. -/
structure Readable (task : DiscoveredTask) (raw : Text) : Prop where
  rawLine : task.rawLine = some raw
  notBlank : trim raw ≠ []
  single : '\n' ∉ raw
  user : refuseNonUser task = none
  active : task.enabled = true → (tryParseJob (trim raw) .user).isSome = true
  marked : task.enabled = false → ∃ rest, task.disabledOriginal = some rest ∧
    (tryParseJob rest .user).isSome = true

theorem readable_of_mem {text : Text}
    (h : task ∈ tasksFromCrontabText (.user username) hash text) :
    ∃ raw, Readable task raw := by
  obtain ⟨line, hline, htask⟩ := List.mem_filterMap.mp h
  obtain ⟨i, hi, rfl⟩ := List.mem_mapIdx.mp hline
  have hmem : (splitLines text)[i] ∈ splitLines text := List.getElem_mem hi
  revert htask
  cases hparse : parseLine (splitLines text)[i] (lineNumber i)
      (CrontabSource.user username).mode with
  | job raw n job d o =>
    intro htask
    obtain ⟨rfl, rfl, htrim, hkind⟩ := parseLine_job hparse
    obtain rfl := Option.some.inj htask
    refine ⟨_, rfl, htrim, not_mem_of_mem_splitLines hmem, rfl, fun hen => ?_, fun hdis => ?_⟩
    · rcases hkind with ⟨rfl, rfl, hjob⟩ | ⟨rfl, -⟩
      · exact Option.isSome_iff_exists.mpr ⟨job, hjob⟩
      · cases hen
    · rcases hkind with ⟨rfl, -⟩ | ⟨rfl, rest, rfl, hjob⟩
      · cases hdis
      · exact ⟨rest, rfl, Option.isSome_iff_exists.mpr ⟨job, hjob⟩⟩
  | _ => intro htask; cases htask

theorem Readable.ne_nil (h : Readable task raw) : raw ≠ [] := by
  rintro rfl
  exact h.notBlank rfl

theorem tryParseJob_nil (mode : CrontabMode) : tryParseJob [] mode = none := rfl

/-- No operation makes an empty line. -/
theorem newLine_ne_nil (h : Readable task raw) {op : TaskOp} (hop : op.Applies task)
    {current new : Text} (hnew : op.newLine task current = .ok new) : new ≠ [] := by
  cases op with
  | disable =>
    obtain rfl := Except.ok.inj hnew
    exact fun hnil => absurd (List.append_eq_nil_iff.mp hnil).1 (by decide)
  | enable =>
    obtain ⟨rest, hrest, hjob⟩ := h.marked hop
    have hnew' : enabledLine task current = .ok rest := by
      unfold enabledLine
      rw [hrest]
      rfl
    obtain rfl := Except.ok.inj (hnew'.symm.trans hnew)
    rintro rfl
    rw [tryParseJob_nil] at hjob
    cases hjob
  | edit newCommand newCron =>
    simp only [TaskOp.newLine, editedLine] at hnew
    split at hnew
    · rw [← Except.ok.inj hnew]
      split <;> simp
    · cases hnew

end Found

/-! ### The task's line is replaced -/

section Touches

variable {text : Text} {task : DiscoveredTask} {raw : Text} {op : TaskOp} {env : CrontabEnv}

/-- The first of equal lines is found. -/
theorem exactMatch_eq (hraw : task.rawLine = some raw) (h : raw ∈ splitLines text) :
    ∃ i, exactMatch (splitLines text) task = some i ∧ (splitLines text)[i]? = some raw ∧
      ∀ j < i, (splitLines text)[j]? ≠ some raw := by
  unfold exactMatch
  rw [hraw]
  show ∃ i, (splitLines text).findIdx? (· == raw) = some i ∧ _
  cases hfind : (splitLines text).findIdx? (· == raw) with
  | none =>
    rw [List.findIdx?_eq_none_iff] at hfind
    exact absurd (hfind raw h) (by simp)
  | some i =>
    obtain ⟨hi, heq, hbefore⟩ := List.findIdx?_eq_some_iff_getElem.mp hfind
    refine ⟨i, rfl, ?_, fun j hj hjraw => ?_⟩
    · rw [List.getElem?_eq_getElem hi]
      simpa using heq
    · have hjlt : j < (splitLines text).length := Nat.lt_trans hj hi
      rw [List.getElem?_eq_getElem hjlt] at hjraw
      have := hbefore j hj
      simp [Option.some.inj hjraw] at this

theorem exactMatch_eq_none (hraw : task.rawLine = some raw) (h : raw ∉ splitLines text) :
    exactMatch (splitLines text) task = none := by
  unfold exactMatch
  rw [hraw]
  show (splitLines text).findIdx? (· == raw) = none
  rw [List.findIdx?_eq_none_iff]
  intro l hl
  simpa using fun heq : l = raw => h (heq ▸ hl)

theorem TaskLine.mem (hraw : task.rawLine = some raw) {i : Nat} (h : TaskLine text task i) :
    raw ∈ splitLines text ∧ (splitLines text)[i]? = some raw := by
  obtain ⟨raw', hraw', hi⟩ := h.reads
  obtain rfl := Option.some.inj (hraw'.symm.trans hraw)
  exact ⟨List.mem_of_getElem? hi, hi⟩

theorem except_bind_eq_ok {ε α β : Type} {x : Except ε α} {f : α → Except ε β} {b : β} :
    (x >>= f) = .ok b ↔ ∃ a, x = .ok a ∧ f a = .ok b := by
  cases x <;> simp [bind, Except.bind]

/-- What a rewrite comes to. -/
theorem rewriteLine_eq_ok {newLine : Text → Except String Text} {after : Text} :
    rewriteLine newLine text task = .ok after ↔
      ∃ i new, findJobLineIndex (splitLines text) task = .ok i ∧
        newLine ((splitLines text).getD i []) = .ok new ∧
        joinLines ((splitLines text).set i new) (hadTrailingNewline text) = after := by
  constructor
  · intro h
    obtain ⟨i, hi, h⟩ := except_bind_eq_ok.mp h
    obtain ⟨new, hnew, h⟩ := except_bind_eq_ok.mp h
    exact ⟨i, new, hi, hnew, Except.ok.inj h⟩
  · rintro ⟨i, new, hi, hnew, rfl⟩
    exact except_bind_eq_ok.mpr ⟨i, hi, except_bind_eq_ok.mpr ⟨new, hnew, rfl⟩⟩

theorem rewriteLine_found {newLine : Text → Except String Text} {after : Text} {i : Nat}
    (hexact : exactMatch (splitLines text) task = some i)
    (hi : (splitLines text)[i]? = some raw) :
    rewriteLine newLine text task = .ok after ↔ ∃ new, newLine raw = .ok new ∧
      joinLines ((splitLines text).set i new) (hadTrailingNewline text) = after := by
  have hfind : findJobLineIndex (splitLines text) task = .ok i := by
    unfold findJobLineIndex
    rw [hexact]
    rfl
  rw [rewriteLine_eq_ok]
  constructor
  · rintro ⟨j, new, hj, hnew, hafter⟩
    obtain rfl := Except.ok.inj (hfind.symm.trans hj)
    rw [List.getD_eq_getElem?_getD, hi] at hnew
    exact ⟨new, hnew, hafter⟩
  · rintro ⟨new, hnew, hafter⟩
    refine ⟨i, new, hfind, ?_, hafter⟩
    rw [List.getD_eq_getElem?_getD, hi]
    exact hnew

/-- The lines of a text in which a line was replaced by one line. -/
theorem lines_replaced {i : Nat} {new : Text} (htext : text ≠ [])
    (hsingle : '\n' ∉ new) (hlast : ((splitLines text).set i new).getLast? ≠ some []) :
    lines '\n' (joinLines ((splitLines text).set i new) (hadTrailingNewline text)) =
        (splitLines text).set i new ∧
      (Whole '\n' (joinLines ((splitLines text).set i new) (hadTrailingNewline text)) ↔
        Whole '\n' text) := by
  have hne : (splitLines text).set i new ≠ [] := by
    intro h
    have hlen := congrArg List.length h
    rw [List.length_set, length_splitLines] at hlen
    exact lines_ne_nil htext (List.length_eq_zero_iff.mp hlen)
  have hall : ∀ l ∈ (splitLines text).set i new, '\n' ∉ l := by
    intro l hl
    rcases List.mem_or_eq_of_mem_set hl with hl | rfl
    · exact not_mem_of_mem_splitLines hl
    · exact hsingle
  obtain ⟨hlines, hwhole⟩ := lines_joinLines hall hne hlast (hadTrailingNewline text)
  exact ⟨hlines, hwhole.trans (hadTrailingNewline_iff htext)⟩

/-- A last line that is empty is lost, and the text has a line less. -/
theorem length_lost {i : Nat} {new : Text} (hsingle : '\n' ∉ new)
    (htwo : 2 ≤ (splitLines text).length)
    (hlast : ((splitLines text).set i new).getLast? = some []) (trailing : Bool) :
    (lines '\n' (joinLines ((splitLines text).set i new) trailing)).length <
      (lines '\n' text).length := by
  obtain ⟨init, hinit⟩ := List.getLast?_eq_some_iff.mp hlast
  have hlen := congrArg List.length hinit
  rw [List.length_set, List.length_append, List.length_singleton] at hlen
  have hne : init ≠ [] := by
    rintro rfl
    rw [List.length_nil] at hlen
    omega
  have hall : ∀ l ∈ init, '\n' ∉ l := by
    intro l hl
    have hmem : l ∈ (splitLines text).set i new := by
      rw [hinit]
      exact List.mem_append_left _ hl
    rcases List.mem_or_eq_of_mem_set hmem with hmem | rfl
    · exact not_mem_of_mem_splitLines hmem
    · exact hsingle
  rw [hinit, joinLines_blank hne, lines_unlines_true hall, ← length_splitLines, hlen]
  exact Nat.lt_succ_self _

/-- The last line of a text after a replacement by a line that is not empty. -/
theorem getLast?_set_ne {i : Nat} {new : Text} (hnew : new ≠ [])
    (h : (splitLines text).getLast? ≠ some []) :
    ((splitLines text).set i new).getLast? ≠ some [] := by
  rw [List.getLast?_eq_getElem?] at h ⊢
  rw [List.length_set, List.getElem?_set]
  split
  · split
    · exact fun heq => hnew (Option.some.inj heq)
    · simp
  · exact h

/-- Replacing the line, when the others are bare. -/
theorem set_lines_eq {i : Nat} {new : Text}
    (hbare : ∀ j l, j ≠ i → (lines '\n' text)[j]? = some l → Bare l) :
    (splitLines text).set i new = (lines '\n' text).set i new := by
  apply List.ext_getElem?
  intro j
  rw [List.getElem?_set, List.getElem?_set, length_splitLines]
  by_cases hj : i = j
  · rw [if_pos hj, if_pos hj]
  · rw [if_neg hj, if_neg hj, getElem?_splitLines]
    cases hl : (lines '\n' text)[j]? with
    | none => rfl
    | some l => exact congrArg some (bare_iff.mpr (hbare j l (Ne.symm hj) hl))

theorem set_of_getElem? {ls : List Text} {i : Nat} {l : Text} (h : ls[i]? = some l) :
    ls.set i l = ls := by
  obtain ⟨hi, rfl⟩ := List.getElem?_eq_some_iff.mp h
  exact List.set_getElem_self hi

/-- **With the line still there, the condition is enough**: the rewrite is a
replacement of the task's line. -/
theorem oneLine_of_safe (h : Readable task raw) (hop : op.Applies task)
    (hsafe : op.Safe text task raw) (hmem : raw ∈ splitLines text) {after : Text}
    (hafter : rewriteLine (op.newLine task) text task = .ok after) :
    ∃ i new, TaskLine text task i ∧ op.newLine task raw = .ok new ∧ OneLine text after i new := by
  obtain ⟨c, hexact, hc, -⟩ := exactMatch_eq h.rawLine hmem
  obtain ⟨new, hnew, rfl⟩ := (rewriteLine_found hexact hc).mp hafter
  obtain ⟨hsingle, hlast, i, hi, hbare, hfirst⟩ := hsafe.found hmem new hnew
  have htext : text ≠ [] := by
    rintro rfl
    cases hmem
  obtain ⟨hlines, hwhole⟩ := lines_replaced (i := c) htext hsingle
    (getLast?_set_ne (newLine_ne_nil h hop hnew) hlast)
  refine ⟨i, new, hi, hnew, hsingle, ⟨[], .inl rfl, ?_⟩, hwhole⟩
  rw [hlines, List.append_nil, ← set_lines_eq hbare]
  rcases hfirst with rfl | hfirst
  · -- Nothing changes, whichever of the equal lines is written.
    rw [set_of_getElem? hc, set_of_getElem? (hi.mem h.rawLine).2]
  · obtain rfl := Option.some.inj (hexact.symm.trans hfirst)
    rfl

/-- **With the line still there, the condition is needed.** -/
theorem safe_of_oneLine (h : Readable task raw) (hop : op.Applies task) {new after : Text}
    (hafter : rewriteLine (op.newLine task) text task = .ok after)
    (hnew : op.newLine task raw = .ok new) {i : Nat} (hi : TaskLine text task i)
    (hone : OneLine text after i new) :
    (splitLines text).getLast? ≠ some [] ∧
      (∀ j l, j ≠ i → (lines '\n' text)[j]? = some l → Bare l) ∧
      (new = raw ∨ exactMatch (splitLines text) task = some i) := by
  obtain ⟨hmem, hraw⟩ := hi.mem h.rawLine
  obtain ⟨c, hexact, hc, -⟩ := exactMatch_eq h.rawLine hmem
  obtain ⟨new', hnew', rfl⟩ := (rewriteLine_found hexact hc).mp hafter
  obtain rfl := Except.ok.inj (hnew.symm.trans hnew')
  obtain ⟨cr, hcr, hlines⟩ := hone.others
  have htext : text ≠ [] := by
    rintro rfl
    cases hmem
  have hnil : new ≠ [] := newLine_ne_nil h hop hnew
  have hclt : c < (splitLines text).length := (List.getElem?_eq_some_iff.mp hc).1
  -- No line was lost, for there are as many as before.
  have hlast : ((splitLines text).set c new).getLast? ≠ some [] := by
    intro hblank
    by_cases htwo : 2 ≤ (splitLines text).length
    · have hlt := length_lost hone.single htwo hblank (hadTrailingNewline text)
      rw [hlines, List.length_set] at hlt
      exact Nat.lt_irrefl _ hlt
    · have hzero : c = 0 := by omega
      subst hzero
      obtain ⟨l, hl⟩ : ∃ l, splitLines text = [l] := List.length_eq_one_iff.mp (by omega)
      rw [hl] at hblank
      exact hnil (Option.some.inj hblank)
  have hset : (splitLines text).set c new = (lines '\n' text).set i (new ++ cr) := by
    rw [← hlines]
    exact (lines_replaced htext hone.single hlast).1.symm
  have hat (j : Nat) := congrArg (·[j]?) hset
  simp only [List.getElem?_set, ← length_splitLines] at hat
  have hilt : i < (splitLines text).length := (List.getElem?_eq_some_iff.mp hraw).1
  -- Where the two places differ, the new line is the old one.
  have hsame : c ≠ i → new = raw ∧ (lines '\n' text)[c]? = some new := by
    intro hne
    have hatc := hat c
    rw [if_pos rfl, if_pos hclt, if_neg (Ne.symm hne)] at hatc
    have hati := hat i
    rw [if_neg hne, if_pos rfl, if_pos hilt, hraw] at hati
    have hcr : stripCr new = raw := by
      rw [getElem?_splitLines, ← hatc] at hc
      exact Option.some.inj hc
    refine ⟨?_, hatc.symm⟩
    have heq : raw = new ++ cr := Option.some.inj hati
    have hle := length_stripCr_le new
    rw [hcr, heq, List.length_append] at hle
    have hcrnil : cr = [] := List.length_eq_zero_iff.mp (by omega)
    rw [heq, hcrnil, List.append_nil]
  refine ⟨fun hblank => ?_, fun j l hj hl => ?_, ?_⟩
  · rw [List.getLast?_eq_getElem?] at hblank
    rw [List.getLast?_eq_getElem?, List.length_set, List.getElem?_set] at hlast
    by_cases hcl : c = (splitLines text).length - 1
    · rw [← hcl, hc] at hblank
      exact h.ne_nil (Option.some.inj hblank)
    · rw [if_neg hcl] at hlast
      exact hlast hblank
  · by_cases hcj : c = j
    · subst hcj
      obtain ⟨hnewraw, hatc⟩ := hsame hj
      obtain rfl := Option.some.inj (hatc.symm.trans hl)
      rw [getElem?_splitLines, hatc, ← hnewraw] at hc
      exact bare_iff.mp (Option.some.inj hc)
    · have hatj := hat j
      rw [if_neg hcj, if_neg (Ne.symm hj), getElem?_splitLines, hl] at hatj
      exact bare_iff.mp (Option.some.inj hatj)
  · by_cases hci : c = i
    · exact .inr (hci ▸ hexact)
    · exact .inl (hsame hci).1

/-- A line that is gone is looked for by its number and its content. -/
theorem findJobLineIndex_gone (h : Readable task raw) (hgone : raw ∉ splitLines text) {i : Nat} :
    findJobLineIndex (splitLines text) task = .ok i ↔
      (numberMatch (splitLines text) task <|> contentMatch (splitLines text) task) = some i := by
  unfold findJobLineIndex
  rw [exactMatch_eq_none h.rawLine hgone]
  show (match (numberMatch (splitLines text) task <|> contentMatch (splitLines text) task) with
    | some i => Except.ok i
    | none => _) = _ ↔ _
  cases (numberMatch (splitLines text) task <|> contentMatch (splitLines text) task) with
  | some j =>
    exact ⟨fun h => congrArg some (Except.ok.inj h), fun h => congrArg _ (Option.some.inj h)⟩
  | none => exact ⟨nofun, nofun⟩

/-- **A rewrite replaces the task's line, by one line, exactly when it is
safe.** -/
theorem rewrites_iff (h : Readable task raw) (hop : op.Applies task) :
    (∀ after, rewriteLine (op.newLine task) text task = .ok after →
      ∃ i raw new, TaskLine text task i ∧ task.rawLine = some raw ∧
        op.newLine task raw = .ok new ∧ OneLine text after i new) ↔ op.Safe text task raw := by
  constructor
  · intro hall
    refine ⟨fun hmem new hnew => ?_, fun hgone i hfall new hnew => ?_⟩
    · obtain ⟨c, hexact, hc, -⟩ := exactMatch_eq h.rawLine hmem
      have hafter := (rewriteLine_found hexact hc).mpr ⟨new, hnew, rfl⟩
      obtain ⟨i, raw', new', hi, hraw', hnew', hone⟩ := hall _ hafter
      obtain rfl := Option.some.inj (h.rawLine.symm.trans hraw')
      obtain rfl := Except.ok.inj (hnew.symm.trans hnew')
      obtain ⟨hlast, hbare, hfirst⟩ := safe_of_oneLine h hop hafter hnew hi hone
      exact ⟨hone.single, hlast, i, hi, hbare, hfirst⟩
    · -- A fall-back finds a line, and it is written.
      have hfind := (findJobLineIndex_gone h hgone).mpr hfall
      have hafter := rewriteLine_eq_ok.mpr ⟨i, new, hfind, hnew, rfl⟩
      obtain ⟨j, raw', -, hj, -⟩ := hall _ hafter
      exact hgone (hj.mem h.rawLine).1
  · intro hsafe after hafter
    by_cases hmem : raw ∈ splitLines text
    · obtain ⟨i, new, hi, hnew, hone⟩ := oneLine_of_safe h hop hsafe hmem hafter
      exact ⟨i, raw, new, hi, h.rawLine, hnew, hone⟩
    · obtain ⟨i, new, hfind, hnew, -⟩ := rewriteLine_eq_ok.mp hafter
      exact absurd hnew (hsafe.gone hmem i ((findJobLineIndex_gone h hmem).mp hfind) new)

/-- What `finish_write_raw` plans and leaves. -/
theorem finishWriteRaw_cases (env : CrontabEnv) (action : String) (taskId : Option String)
    (target : String) (before after : Text) (apply : Bool) :
    (∃ e, finishWriteRaw env action taskId target before after apply = (.error e, env.text)) ∨
      ∃ plan now, finishWriteRaw env action taskId target before after apply = (.ok plan, now) ∧
        plan.after = after ∧ (now = env.text ∨ now = plan.after) := by
  unfold finishWriteRaw
  by_cases hsame : before = after
  · rw [if_pos hsame]
    exact .inr ⟨_, _, rfl, rfl, .inl rfl⟩
  rw [if_neg hsame]
  cases apply with
  | false => exact .inr ⟨_, _, rfl, rfl, .inl rfl⟩
  | true =>
    cases env.backup with
    | error e => exact .inl ⟨e, rfl⟩
    | ok path =>
      cases env.installError with
      | some e => exact .inl ⟨e, rfl⟩
      | none => exact .inr ⟨_, _, rfl, rfl, .inr rfl⟩

/-- A dry run is a plan. -/
theorem finishWriteRaw_dry (env : CrontabEnv) (action : String) (taskId : Option String)
    (target : String) (before after : Text) : ∃ plan,
    finishWriteRaw env action taskId target before after false = (.ok plan, env.text) ∧
      plan.after = after := by
  unfold finishWriteRaw
  dsimp only
  split
  · exact ⟨_, rfl, rfl⟩
  · exact ⟨_, rfl, rfl⟩

/-- An operation that applies is a rewrite. -/
theorem run_eq (env : CrontabEnv) (h : Readable task raw) (hop : op.Applies task) (apply : Bool) :
    ∃ action, op.run env task apply =
      applyTransform env action task (rewriteLine (op.newLine task) · task) apply := by
  cases op with
  | disable =>
    refine ⟨"disable", ?_⟩
    have hen : task.enabled = true := hop
    show disableTask env task apply = _
    simp only [disableTask, h.user, hen]
    rfl
  | enable =>
    refine ⟨"enable", ?_⟩
    have hen : task.enabled = false := hop
    show enableTask env task apply = _
    simp only [enableTask, h.user, hen]
    rfl
  | edit newCommand newCron =>
    refine ⟨"edit", ?_⟩
    have hnot : ¬(newCommand.isNone = true ∧ newCron.isNone = true) := by
      rintro ⟨h1, h2⟩
      rcases hop with hop | hop
      · rw [Option.isNone_iff_eq_none.mp h1] at hop
        cases hop
      · rw [Option.isNone_iff_eq_none.mp h2] at hop
        cases hop
    show editTask env task newCommand newCron apply = _
    simp only [editTask, h.user, if_neg hnot]
    rfl

/-- An operation that does not apply is an error or plans nothing. -/
theorem run_idle (env : CrontabEnv) (h : Readable task raw) (hop : ¬op.Applies task)
    (apply : Bool) :
    (op.Idles task ∧ ∃ plan, op.run env task apply = (.ok plan, env.text)) ∨
      (¬op.Idles task ∧ ∃ e, op.run env task apply = (.error e, env.text)) := by
  cases op with
  | disable =>
    have hen : task.enabled = false := Bool.eq_false_iff.mpr hop
    refine .inl ⟨hen, idlePlan "disable" task apply none (some "already disabled"), ?_⟩
    show disableTask env task apply = _
    simp only [disableTask, h.user, hen]
    rfl
  | enable =>
    have hen : task.enabled = true := Bool.not_eq_false _ ▸ hop
    refine .inl ⟨hen, idlePlan "enable" task apply none (some "already enabled"), ?_⟩
    show enableTask env task apply = _
    simp only [enableTask, h.user, hen]
    rfl
  | edit newCommand newCron =>
    have hnone : newCommand.isNone = true ∧ newCron.isNone = true := by
      simpa [TaskOp.Applies, not_or] using hop
    refine .inr ⟨id, "nothing to edit (pass --command and/or --cron)", ?_⟩
    show editTask env task newCommand newCron apply = _
    simp only [editTask, h.user, if_pos hnone]

theorem not_idles (hop : op.Applies task) : ¬op.Idles task := by
  cases op with
  | disable => exact fun h => absurd (h.symm.trans hop) nofun
  | enable => exact fun h => absurd (h.symm.trans hop) nofun
  | edit newCommand newCron => exact id

/-- **An operation touches the task's line only exactly when the rewrite is
safe**, or there is nothing to do and the line is there. -/
theorem touches_iff (h : Readable task raw) :
    op.Touches env task ↔ (op.Applies task → env.readError = none → op.Safe env.text task raw) ∧
      (op.Idles task → raw ∈ splitLines env.text) := by
  by_cases hop : op.Applies task
  · constructor
    · intro htouches
      refine ⟨fun _ hread => (rewrites_iff h hop).mp fun after hafter => ?_,
        fun hidle => absurd hidle (not_idles hop)⟩
      obtain ⟨action, hrun⟩ := run_eq env h hop false
      obtain ⟨plan, hdry, hplan⟩ := finishWriteRaw_dry env action (some task.id) task.source
        env.text after
      have heq : op.run env task false = (.ok plan, env.text) := by
        rw [hrun]
        simp only [applyTransform, readUserCrontab, hread, hafter, hdry]
      have htouch := htouches false
      rw [heq] at htouch
      rw [← hplan]
      exact htouch.2.2 hop
    · rintro ⟨hsafe, -⟩ apply
      obtain ⟨action, hrun⟩ := run_eq env h hop apply
      rw [hrun]
      unfold applyTransform readUserCrontab
      cases hread : env.readError with
      | some e => rfl
      | none =>
        dsimp only
        cases hafter : rewriteLine (op.newLine task) env.text task with
        | error e => rfl
        | ok after =>
          dsimp only
          have hone := (rewrites_iff h hop).mpr (hsafe hop hread) _ hafter
          rcases finishWriteRaw_cases env action (some task.id) task.source env.text after
            apply with
            ⟨e, he⟩ | ⟨plan, now, hplan, rfl, hnow⟩
          · rw [he]
          · rw [hplan]
            obtain ⟨i, raw', new, hi, hraw', hrest⟩ := hone
            exact ⟨hnow, ⟨raw', hraw', (hi.mem hraw').1⟩,
              fun _ => ⟨i, raw', new, hi, hraw', hrest⟩⟩
  · constructor
    · refine fun htouches => ⟨fun happ => absurd happ hop, fun hidle => ?_⟩
      rcases run_idle env h hop false with ⟨-, plan, hrun⟩ | ⟨hnot, -⟩
      · have htouch := htouches false
        rw [hrun] at htouch
        obtain ⟨raw', hraw', hmem⟩ := htouch.2.1
        obtain rfl := Option.some.inj (h.rawLine.symm.trans hraw')
        exact hmem
      · exact absurd hidle hnot
    · rintro ⟨-, hthere⟩ apply
      rcases run_idle env h hop apply with ⟨hidle, plan, hrun⟩ | ⟨-, e, hrun⟩
      · rw [hrun]
        exact ⟨.inl rfl, ⟨raw, h.rawLine, hthere hidle⟩, fun happ => absurd happ hop⟩
      · rw [hrun]

end Touches

/-! ### A disabled line is read back -/

section RoundTrip

variable {text : Text} {task : DiscoveredTask} {raw : Text} {env : CrontabEnv}
  {username : String} {hash : TaskHash}

theorem trimEnd_append {a b : Text} (h : trimEnd b ≠ []) : trimEnd (a ++ b) = a ++ trimEnd b := by
  unfold trimEnd List.rdropWhile at *
  rw [List.reverse_append, List.dropWhile_append]
  have hne : (b.reverse.dropWhile isWhiteSpace).isEmpty = false := by
    simpa using h
  simp [hne]

theorem trimEnd_concat {a : Text} {c : Char} (h : isWhiteSpace c = true) :
    trimEnd (a ++ [c]) = trimEnd a :=
  List.rdropWhile_concat_pos _ _ _ h

theorem splitWhitespace_cons {s : Text} {c : Char} (h : isWhiteSpace c = true) :
    splitWhitespace (c :: s) = splitWhitespace s := by
  unfold splitWhitespace
  rw [List.splitOnP_cons_eq_if_modifyHead, if_pos h]
  rfl

theorem splitWhitespace_concat {s : Text} {c : Char} (h : isWhiteSpace c = true) :
    splitWhitespace (s ++ [c]) = splitWhitespace s := by
  unfold splitWhitespace
  rw [List.splitOnP_append_cons _ _ h]
  simp

theorem splitWhitespace_trimEnd (s : Text) : splitWhitespace (trimEnd s) = splitWhitespace s := by
  induction s using List.reverseRecOn with
  | nil => rfl
  | append_singleton s c ih =>
    cases hc : isWhiteSpace c with
    | true => rw [trimEnd_concat hc, ih, splitWhitespace_concat hc]
    | false =>
      unfold trimEnd
      rw [List.rdropWhile_concat_neg _ _ _ (by simp [hc])]

theorem splitWhitespace_trimStart (s : Text) :
    splitWhitespace (trimStart s) = splitWhitespace s := by
  induction s with
  | nil => rfl
  | cons c s ih =>
    unfold trimStart at *
    cases hc : isWhiteSpace c with
    | true => rw [List.dropWhile_cons_of_pos hc, ih, splitWhitespace_cons hc]
    | false => rw [List.dropWhile_cons_of_neg (by simp [hc])]

/-- A job is read off the words of its line. -/
theorem tryParseJob_congr {s s' : Text} (h : splitWhitespace s = splitWhitespace s')
    (mode : CrontabMode) : tryParseJob s mode = tryParseJob s' mode := by
  unfold tryParseJob
  rw [h]

theorem tryParseJob_trimEnd (s : Text) (mode : CrontabMode) :
    tryParseJob (trimEnd s) mode = tryParseJob (trim s) mode := by
  apply tryParseJob_congr
  unfold trim
  rw [splitWhitespace_trimEnd, splitWhitespace_trimEnd, splitWhitespace_trimStart]

theorem trimEnd_stripCr (s : Text) : trimEnd (stripCr s) = trimEnd s := by
  unfold stripCr
  split
  · next h =>
    obtain ⟨init, rfl⟩ := List.getLast?_eq_some_iff.mp h
    rw [List.dropLast_concat, trimEnd_concat (by decide)]
  · rfl

theorem stripCr_append {a b : Text} (h : b ≠ []) : stripCr (a ++ b) = a ++ stripCr b := by
  unfold stripCr
  rw [List.getLast?_append_of_ne_nil _ h]
  split
  · rw [List.dropLast_append_of_ne_nil h]
  · rfl

theorem stripPrefix?_append (a b : Text) : stripPrefix? a (a ++ b) = some b := by
  unfold stripPrefix?
  rw [if_pos (List.isPrefixOf_iff_prefix.mpr (List.prefix_append a b)), List.drop_left]

/-- **A line that was disabled** is read as a job, with the line that it was,
up to the blanks at its end. -/
theorem parseLine_disabled {r : Text} {job : ParsedJob}
    (h : tryParseJob (trimEnd r) .user = some job) (n : Nat) :
    parseLine (DISABLE_PREFIX ++ r) n .user =
      .job (DISABLE_PREFIX ++ r) n job true (some (trimEnd r)) := by
  have hne : trimEnd r ≠ [] := fun hnil => by
    rw [hnil, tryParseJob_nil] at h
    cases h
  have htrim : trim (DISABLE_PREFIX ++ r) = DISABLE_PREFIX ++ trimEnd r := by
    have hstart : trimStart (DISABLE_PREFIX ++ r) = DISABLE_PREFIX ++ r := rfl
    unfold trim
    rw [hstart, trimEnd_append hne]
  unfold parseLine
  rw [htrim]
  have hnot : DISABLE_PREFIX ++ trimEnd r ≠ [] := by simp [hne]
  simp only [hnot, stripPrefix?_append, h]
  rfl

theorem disable_prefix_ne (r : Text) : DISABLE_PREFIX ++ r ≠ r := fun h => by
  have hlen := congrArg List.length h
  rw [List.length_append] at hlen
  have hpos : 0 < DISABLE_PREFIX.length := by decide
  omega

/-- **Disable**: the lines are what they were, but for the disabled one. -/
theorem splitLines_disabled (h : Readable task raw)
    (hsafe : TaskOp.Safe .disable text task raw) (hmem : raw ∈ splitLines text) {c : Nat}
    (hexact : exactMatch (splitLines text) task = some c) (hc : (splitLines text)[c]? = some raw)
    {after : Text} (hafter : transformDisable text task = .ok after) :
    splitLines after = (splitLines text).set c (DISABLE_PREFIX ++ stripCr raw) ∧
      hadTrailingNewline after = hadTrailingNewline text := by
  obtain ⟨new, hnew, rfl⟩ := (rewriteLine_found hexact hc).mp hafter
  obtain rfl := Except.ok.inj hnew
  obtain ⟨hsingle, hlast, i, -, hbare, hfirst⟩ := hsafe.found hmem _ rfl
  have hic := hfirst.resolve_left (disable_prefix_ne raw)
  obtain rfl := Option.some.inj (hic.symm.trans hexact)
  have htext : text ≠ [] := by
    rintro rfl
    cases hmem
  have hnil : DISABLE_PREFIX ++ raw ≠ [] := by simp [h.ne_nil]
  obtain ⟨hlines, hwhole⟩ := lines_replaced htext hsingle (getLast?_set_ne (i := i) hnil hlast)
  constructor
  · rw [splitLines_eq, hlines, List.map_set, stripCr_append h.ne_nil]
    -- The lines that are kept are bare already.
    apply List.ext_getElem?
    intro j
    rw [List.getElem?_set, List.getElem?_set, List.length_map]
    by_cases hj : i = j
    · rw [if_pos hj, if_pos hj]
    · rw [if_neg hj, if_neg hj, List.getElem?_map, getElem?_splitLines]
      cases hl : (lines '\n' text)[j]? with
      | none => rfl
      | some l =>
        have hstrip := bare_iff.mpr (hbare j l (Ne.symm hj) hl)
        show some (stripCr (stripCr l)) = some (stripCr l)
        rw [hstrip, hstrip]
  · have hafterne : joinLines ((splitLines text).set i (DISABLE_PREFIX ++ raw))
        (hadTrailingNewline text) ≠ [] := by
      intro hnilafter
      rw [hnilafter, lines_nil] at hlines
      have hlen := congrArg List.length hlines
      rw [List.length_set, length_splitLines] at hlen
      exact lines_ne_nil htext (List.length_eq_zero_iff.mp hlen.symm)
    have hiff := (hadTrailingNewline_iff hafterne).trans
      (hwhole.trans (hadTrailingNewline_iff htext).symm)
    exact Bool.eq_iff_iff.mpr hiff

/-- **Disable and scan**: the scan finds a task at the disabled line; enabling
it writes the first line that reads so. -/
theorem disable_scan (username : String) (hash : TaskHash) (h : Readable task raw)
    (hen : task.enabled = true)
    (hsafe : TaskOp.Safe .disable text task raw) (hmem : raw ∈ splitLines text) {c : Nat}
    (hexact : exactMatch (splitLines text) task = some c) (hc : (splitLines text)[c]? = some raw)
    {after : Text} (hafter : transformDisable text task = .ok after) :
    ∃ task' j, taskAt username hash after c = some task' ∧
      (splitLines after)[j]? = some (DISABLE_PREFIX ++ stripCr raw) ∧
      (∀ k < j, (splitLines after)[k]? ≠ some (DISABLE_PREFIX ++ stripCr raw)) ∧
      transformEnable after task' =
        .ok (joinLines ((splitLines after).set j (trimEnd raw)) (hadTrailingNewline after)) := by
  obtain ⟨hlines, -⟩ := splitLines_disabled h hsafe hmem hexact hc hafter
  have hclt : c < (splitLines text).length := (List.getElem?_eq_some_iff.mp hc).1
  have hat : (splitLines after)[c]? = some (DISABLE_PREFIX ++ stripCr raw) := by
    rw [hlines, List.getElem?_set_self hclt]
  obtain ⟨job, hjob⟩ := Option.isSome_iff_exists.mp (h.active hen)
  have hjob' : tryParseJob (trimEnd (stripCr raw)) .user = some job := by
    rw [trimEnd_stripCr, tryParseJob_trimEnd]
    exact hjob
  obtain ⟨task', htask', hraw', horig'⟩ : ∃ task', taskAt username hash after c = some task' ∧
      task'.rawLine = some (DISABLE_PREFIX ++ stripCr raw) ∧
      task'.disabledOriginal = some (trimEnd raw) := by
    unfold taskAt parseCrontab
    rw [List.getElem?_mapIdx, hat]
    show ∃ task', (CrontabSource.user username).task hash (parseLine _ _ .user) = some task' ∧ _
    rw [parseLine_disabled hjob', trimEnd_stripCr]
    exact ⟨_, rfl, rfl, rfl⟩
  obtain ⟨j, hj, hjraw, hfirst⟩ := exactMatch_eq hraw' (List.mem_of_getElem? hat)
  refine ⟨task', j, htask', hjraw, hfirst, ?_⟩
  refine (rewriteLine_found hj hjraw).mpr ⟨trimEnd raw, ?_, rfl⟩
  unfold enabledLine
  rw [horig']
  rfl

/-- Nothing is lost of a text whose lines are bare and whose last line is not
empty. -/
theorem joinLines_splitLines (hbare : ∀ l ∈ lines '\n' text, Bare l)
    (hlast : (splitLines text).getLast? ≠ some []) :
    joinLines (splitLines text) (hadTrailingNewline text) = text := by
  by_cases htext : text = []
  · subst htext
    rfl
  have hB : splitLines text = lines '\n' text := by
    rw [splitLines_eq]
    exact (List.map_congr_left fun l hl => bare_iff.mpr (hbare l hl)).trans (List.map_id _)
  have hne : splitLines text ≠ [] := by
    rw [hB]
    exact lines_ne_nil htext
  rw [joinLines_eq (fun l hl => not_mem_of_mem_splitLines hl) hne hlast, hB]
  exact unlines_lines (hadTrailingNewline_iff htext)

theorem length_le_stripCr (l : Text) : l.length ≤ (stripCr l).length + 1 := by
  unfold stripCr
  split
  · rw [List.length_dropLast]
    omega
  · exact Nat.le_succ _

theorem bare_trimEnd (s : Text) : Bare (trimEnd s) := by
  intro h
  unfold trimEnd at h
  obtain ⟨hne, hlast⟩ := List.mem_getLast?_eq_getLast (Option.mem_def.mpr h)
  have hnot := List.rdropWhile_last_not isWhiteSpace s hne
  rw [← hlast] at hnot
  exact hnot (by decide)

theorem trimEnd_ne_nil (h : Readable task raw) (hen : task.enabled = true) : trimEnd raw ≠ [] := by
  intro hnil
  have hjob := h.active hen
  rw [← tryParseJob_trimEnd, hnil, tryParseJob_nil] at hjob
  cases hjob

/-- Enabling the disabled line gives the lines of the text, if these are what
is written. -/
theorem lines_enabled (h : Readable task raw) (hen : task.enabled = true)
    (hsafe : TaskOp.Safe .disable text task raw) (hmem : raw ∈ splitLines text) {c j : Nat}
    (hexact : exactMatch (splitLines text) task = some c) (hc : (splitLines text)[c]? = some raw)
    {after : Text} (hafter : transformDisable text task = .ok after)
    (hback : joinLines ((splitLines after).set j (trimEnd raw)) (hadTrailingNewline after) = text) :
    lines '\n' text =
      ((splitLines text).set c (DISABLE_PREFIX ++ stripCr raw)).set j (trimEnd raw) := by
  obtain ⟨hlines, -⟩ := splitLines_disabled h hsafe hmem hexact hc hafter
  obtain ⟨-, hlast, -⟩ := hsafe.found hmem _ rfl
  have hlast' : (splitLines after).getLast? ≠ some [] := by
    rw [hlines]
    exact getLast?_set_ne (List.append_ne_nil_of_left_ne_nil (by decide) _) hlast
  have hafterne : after ≠ [] := by
    rintro rfl
    have hlen := congrArg List.length hlines
    rw [List.length_set] at hlen
    exact absurd (List.length_eq_zero_iff.mp hlen.symm) (List.ne_nil_of_mem hmem)
  have hsingle : '\n' ∉ trimEnd raw := fun hin =>
    h.single ((List.rdropWhile_prefix isWhiteSpace (l := raw)).subset hin)
  have hset : ((splitLines after).set j (trimEnd raw)).getLast? ≠ some [] :=
    getLast?_set_ne (trimEnd_ne_nil h hen) hlast'
  have hreplaced := (lines_replaced hafterne hsingle hset).1
  rw [hback, hlines] at hreplaced
  exact hreplaced

/-- **A line that was disabled comes back exactly when nothing is cut off it and
it is found again.** -/
theorem roundTrips_iff (h : Readable task raw) (hen : task.enabled = true)
    (hsafe : TaskOp.Safe .disable text task raw) :
    RoundTrips username hash text task ↔ (raw ∈ splitLines text → ComesBack text task raw) := by
  by_cases hmem : raw ∈ splitLines text
  · obtain ⟨c, hexact, hc, -⟩ := exactMatch_eq h.rawLine hmem
    have hafter : transformDisable text task = .ok _ :=
      (rewriteLine_found hexact hc).mpr ⟨_, rfl, rfl⟩
    have hfind : findJobLineIndex (splitLines text) task = .ok c := by
      unfold findJobLineIndex
      rw [hexact]
      rfl
    obtain ⟨task', j, htask', hj, hjfirst, henable⟩ :=
      disable_scan username hash h hen hsafe hmem hexact hc hafter
    obtain ⟨hlines, htrail⟩ := splitLines_disabled h hsafe hmem hexact hc hafter
    have hclt : c < (splitLines text).length := (List.getElem?_eq_some_iff.mp hc).1
    rw [hlines] at hj hjfirst
    constructor
    · intro hround _
      obtain ⟨i, task'', hi, htask'', hback⟩ := hround _ hafter
      obtain rfl := Except.ok.inj (hfind.symm.trans hi)
      obtain rfl := Option.some.inj (htask'.symm.trans htask'')
      have htext := lines_enabled h hen hsafe hmem hexact hc hafter
        (Except.ok.inj (henable.symm.trans hback))
      -- The line that was disabled is the one that is written.
      have hjc : j = c := by
        by_contra hne
        have hLc : (lines '\n' text)[c]? = some (DISABLE_PREFIX ++ stripCr raw) := by
          rw [htext, List.getElem?_set_ne hne, List.getElem?_set_self hclt]
        rw [getElem?_splitLines, hLc] at hc
        have hlen := congrArg List.length (Option.some.inj hc)
        have h1 := length_le_stripCr (DISABLE_PREFIX ++ stripCr raw)
        have h2 := length_le_stripCr raw
        rw [List.length_append] at h1
        have h3 : 2 < DISABLE_PREFIX.length := by decide
        omega
      subst hjc
      rw [List.set_set] at htext
      have hLc : (lines '\n' text)[j]? = some (trimEnd raw) := by
        rw [htext, List.getElem?_set_self hclt]
      have htrimmed : trimEnd raw = raw := by
        rw [getElem?_splitLines, hLc] at hc
        exact (bare_iff.mpr (bare_trimEnd raw)).symm.trans (Option.some.inj hc)
      have hbareraw : stripCr raw = raw := bare_iff.mpr (htrimmed ▸ bare_trimEnd raw)
      refine ⟨fun l hl => ?_, htrimmed, fun i hi k hk hkraw => ?_⟩
      · obtain ⟨k, hk⟩ := List.getElem?_of_mem hl
        by_cases hkj : j = k
        · subst hkj
          rw [← Option.some.inj (hLc.symm.trans hk)]
          exact bare_trimEnd raw
        · have hk' := hk
          rw [htext, List.getElem?_set_ne hkj, getElem?_splitLines, hk] at hk'
          exact bare_iff.mp (Option.some.inj hk')
      · obtain rfl := Option.some.inj (hi.symm.trans hexact)
        refine hjfirst k hk ?_
        rw [List.getElem?_set_ne (Nat.ne_of_gt hk), hkraw, hbareraw]
    · intro hcomes
      obtain ⟨hbare, htrimmed, hfirst⟩ := hcomes hmem
      have hbareraw : stripCr raw = raw := bare_iff.mpr (htrimmed ▸ bare_trimEnd raw)
      rw [hbareraw] at hj hjfirst hlines
      have hjc : j = c := by
        rcases Nat.lt_trichotomy j c with hlt | heq | hlt
        · rw [List.getElem?_set_ne (Nat.ne_of_gt hlt)] at hj
          exact absurd hj (hfirst c hexact j hlt)
        · exact heq
        · exact absurd (List.getElem?_set_self hclt) (hjfirst c hlt)
      subst hjc
      intro after' hafter'
      obtain rfl := Except.ok.inj (hafter.symm.trans hafter')
      refine ⟨j, task', hfind, htask', henable.trans ?_⟩
      rw [hlines, htrail, List.set_set, htrimmed, set_of_getElem? hc]
      exact congrArg _ (joinLines_splitLines hbare (hsafe.found hmem _ rfl).2.1)
  · refine ⟨fun _ hin => absurd hin hmem, fun _ after hafter => ?_⟩
    obtain ⟨i, new, hfind, hnew, -⟩ := rewriteLine_eq_ok.mp hafter
    exact absurd hnew (hsafe.gone hmem i ((findJobLineIndex_gone h hmem).mp hfind) new)

end RoundTrip

end Bellman
