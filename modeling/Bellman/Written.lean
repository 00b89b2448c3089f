/-
Bellman/Written.lean

What a written line of the crontab means.

A new job and an edited one are put together of a schedule and a command, with
a blank between them, and the line is read back as a check.  What it is read
as need not be what was asked for: it is read by its words, so a run of blanks
becomes one, words of the schedule that are too many begin the command, and
what comes after a newline is on another line.

    schedule  ' '  escaped command  '%'  payload with '%' for newlines

The percent signs are not among the trouble: a command and a payload that were
split off a line come back from the line that they are joined to
(`splitPercent_joinPercent_splitPercent`).

Main result: when a written line says what was asked for (`written_iff`).
-/
import Bellman.Fence
import Bellman.Lib.Words

namespace Bellman

open Text ProgramLogic
open OccurrenceKind (isWhiteSpace)

/-! ### Percent signs -/

section Percent

variable {c : Char} {s command : Text} {stdin : Option Text}

theorem splitPercent_cons (h : c ≠ '%') (hnext : c = '\\' → s.head? ≠ some '%') :
    splitPercent (c :: s) = (c :: (splitPercent s).1, (splitPercent s).2) := by
  conv_lhs => unfold splitPercent
  split
  · next heq => cases heq
  · next rest heq =>
    cases heq
    exact absurd rfl (hnext rfl)
  · next rest _ heq =>
    cases heq
    exact absurd rfl h
  · next heq =>
    cases heq
    rfl

/-- What can be split again: the payload has no percent sign, and the command
before it does not end in a backslash. -/
def Splittable (command : Text) (stdin : Option Text) : Prop :=
  ∀ payload, stdin = some payload → '%' ∉ payload ∧ command.getLast? ≠ some '\\'

theorem Splittable.tail {c : Char} (h : Splittable (c :: command) stdin) :
    Splittable command stdin := by
  intro payload hp
  obtain ⟨hpercent, hlast⟩ := h payload hp
  refine ⟨hpercent, fun hl => hlast ?_⟩
  cases command with
  | nil => cases hl
  | cons d command => rwa [List.getLast?_cons_cons]

theorem head?_joinPercent (h : Splittable ('\\' :: command) stdin) :
    (joinPercent command stdin).head? ≠ some '%' := by
  cases command with
  | nil =>
    cases stdin with
    | none => exact nofun
    | some payload => exact absurd rfl (h payload rfl).2
  | cons d command =>
    by_cases hd : d = '%'
    · subst hd
      exact nofun
    · unfold joinPercent
      rw [List.flatMap_cons, if_neg hd]
      exact fun heq => hd (Option.some.inj heq)

/-- **Splitting undoes joining.** -/
theorem splitPercent_joinPercent (h : Splittable command stdin) :
    splitPercent (joinPercent command stdin) = (command, stdin) := by
  induction command with
  | nil =>
    cases stdin with
    | none => rfl
    | some payload =>
      have hback : ∀ c ∈ payload,
          ((fun c => if c = '%' then '\n' else c) ∘ fun c => if c = '\n' then '%' else c) c =
            id c := by
        intro c hc
        have hne : c ≠ '%' := fun heq => (h payload rfl).1 (heq ▸ hc)
        by_cases hn : c = '\n'
        · subst hn
          rfl
        · show (if (if c = '\n' then '%' else c) = '%' then '\n' else _) = c
          rw [if_neg hn, if_neg hne]
      show ([], some ((payload.map _).map _)) = _
      rw [List.map_map, List.map_congr_left hback, List.map_id]
  | cons c command ih =>
    have ih := ih h.tail
    by_cases hc : c = '%'
    · subst hc
      show ('%' :: (splitPercent (joinPercent command stdin)).1,
        (splitPercent (joinPercent command stdin)).2) = _
      rw [ih]
    · have hcons : joinPercent (c :: command) stdin = c :: joinPercent command stdin := by
        unfold joinPercent
        rw [List.flatMap_cons, if_neg hc]
        rfl
      rw [hcons, splitPercent_cons hc, ih]
      rintro rfl
      exact head?_joinPercent h

/-- Before an unescaped percent sign there is nothing, where it comes first. -/
theorem head?_of_splitPercent {payload : Text} (h : splitPercent s = ([], some payload)) :
    s.head? = some '%' := by
  unfold splitPercent at h
  split at h
  · cases h
  · cases h
  · rfl
  · cases h

theorem splittable_splitPercent (s : Text) :
    Splittable (splitPercent s).1 (splitPercent s).2 := by
  induction s using splitPercent.induct with
  | case1 => exact nofun
  | case2 rest ih =>
    intro payload hp
    obtain ⟨hpercent, hlast⟩ := ih payload hp
    refine ⟨hpercent, ?_⟩
    show ('%' :: (splitPercent rest).1).getLast? ≠ _
    cases hc : (splitPercent rest).1 with
    | nil => decide
    | cons d command =>
      rw [List.getLast?_cons_cons, ← hc]
      exact hlast
  | case3 rest =>
    rintro payload ⟨⟩
    refine ⟨fun hmem => ?_, nofun⟩
    obtain ⟨c, -, hc⟩ := List.mem_map.mp hmem
    split at hc
    · cases hc
    · next hne => exact hne hc
  | case4 c rest hescaped hpercent ih =>
    have hc : c ≠ '%' := hpercent
    have hnext : c = '\\' → rest.head? ≠ some '%' := by
      rintro rfl hhead
      obtain ⟨rest, rfl⟩ := List.head?_eq_some_iff.mp hhead
      exact hescaped rest rfl rfl
    rw [splitPercent_cons hc hnext]
    intro payload hp
    obtain ⟨hpercent, hlast⟩ := ih payload hp
    refine ⟨hpercent, ?_⟩
    dsimp only
    cases hcommand : (splitPercent rest).1 with
    | nil =>
      have hhead := head?_of_splitPercent (Prod.ext hcommand hp)
      intro heq
      exact hnext (Option.some.inj heq) hhead
    | cons d command =>
      rw [List.getLast?_cons_cons, ← hcommand]
      exact hlast

/-- **A command and its payload come back**, where they were split off a
text. -/
theorem splitPercent_joinPercent_splitPercent (s : Text) :
    splitPercent (joinPercent (splitPercent s).1 (splitPercent s).2) = splitPercent s :=
  splitPercent_joinPercent (splittable_splitPercent s)

/-- A line is what its parts are joined to. -/
theorem joinPercent_splitPercent (h : '\n' ∉ s) :
    joinPercent (splitPercent s).1 (splitPercent s).2 = s := by
  have hcons : ∀ (c : Char) (command : Text) (stdin : Option Text), c ≠ '%' →
      joinPercent (c :: command) stdin = c :: joinPercent command stdin := by
    intro c command stdin hc
    unfold joinPercent
    rw [List.flatMap_cons, if_neg hc]
    rfl
  induction s using splitPercent.induct with
  | case1 => rfl
  | case2 rest ih =>
    show '\\' :: '%' :: joinPercent (splitPercent rest).1 (splitPercent rest).2 = _
    rw [ih fun hmem => h (List.mem_cons_of_mem _ (List.mem_cons_of_mem _ hmem))]
  | case3 rest =>
    have hback : ∀ c ∈ rest,
        ((fun c => if c = '\n' then '%' else c) ∘ fun c => if c = '%' then '\n' else c) c =
          id c := by
      intro c hc
      have hne : c ≠ '\n' := fun heq => h (List.mem_cons_of_mem _ (heq ▸ hc))
      by_cases hp : c = '%'
      · subst hp
        rfl
      · show (if (if c = '%' then '\n' else c) = '\n' then '%' else _) = c
        rw [if_neg hp, if_neg hne]
    show '%' :: (rest.map _).map _ = _
    rw [List.map_map, List.map_congr_left hback, List.map_id]
  | case4 c rest hescaped hpercent ih =>
    have hnext : c = '\\' → rest.head? ≠ some '%' := by
      rintro rfl hhead
      obtain ⟨rest, rfl⟩ := List.head?_eq_some_iff.mp hhead
      exact hescaped rest rfl rfl
    rw [splitPercent_cons hpercent hnext, hcons _ _ _ hpercent,
      ih fun hmem => h (List.mem_cons_of_mem _ hmem)]

end Percent

/-! ### What a line says -/

/-- The words of a text, with one blank between two of them. -/
def collapse (s : Text) : Text := joinTokens (splitWhitespace s)

/-- The schedule that an expression asks for: it is one name, or five fields
and nothing else. -/
def requestedSchedule (cron : Text) : Option CronSchedule :=
  match splitWhitespace cron with
  | [token] =>
    if token.head? = some '@' then (SpecialSchedule.parse token).map .special else none
  | [minute, hour, dom, month, dow] =>
    if [minute, hour, dom, month, dow].all looksLikeField then
      some (.fields minute hour dom month dow)
    else none
  | _ => none

def CrontabLine.job? : CrontabLine → Option ParsedJob
  | .job _ _ parsed _ _ => some parsed
  | _ => none

/-- The line reads as a job with the schedule that is asked for, the command
and the payload, at whatever number it stands. -/
def Says (line cron command : Text) (stdin : Option Text) : Prop :=
  ∃ job : ParsedJob, (∀ n, (parseLine (stripCr line) n .user).job? = some job) ∧
    requestedSchedule cron = some job.schedule ∧ job.command = command ∧ job.stdinPayload = stdin

/-- The job of a line, without the marker of a disabled one. -/
def jobText (line : Text) : Text :=
  (stripPrefix? DISABLE_PREFIX (trimStart line)).getD (trimStart line)

/-- How many words of a job are its schedule. -/
def scheduleWords (s : Text) : Nat :=
  if (splitWhitespace s).head?.bind List.head? = some '@' then 1 else 5

/-- What follows the schedule, to the end. -/
def commandPart (s : Text) : Text :=
  trimStart ((Words.dropWord isWhiteSpace)^[scheduleWords s] s)

/-- The command and its input as cron hands them to the shell. -/
def shellView (line : Text) : Text × Option Text := splitPercent (commandPart (jobText line))

/-- What a new task should do besides touching nothing else: its entry is a
comment and one line, and the line says what was asked for. -/
structure NewMeans (env : CrontabEnv) (hash : TaskHash) (command cronExpr : Text) : Prop where
  touches : NewTouches env hash command cronExpr
  single : NewAccepted command cronExpr →
    entryLines hash command cronExpr = fenceEntry hash command cronExpr
  means : NewAccepted command cronExpr →
    Says (cronExpr ++ [' '] ++ joinPercent command none) cronExpr command none

/-- What an edit should leave of the crontab, and what its plan says: one line
is new, and says what was asked for; and when only the schedule is edited, the
shell is handed what it was handed before. -/
def EditMeans (env : CrontabEnv) (task : DiscoveredTask) (newCommand newCron : Option Text) :
    Prop :=
  ∀ apply, match editTask env task newCommand newCron apply with
    | (.error _, now) => now = env.text
    | (.ok plan, now) => (now = env.text ∨ now = plan.after) ∧
        ∃ i raw new, TaskLine env.text task i ∧ task.rawLine = some raw ∧
          editedLine task newCommand newCron raw = .ok new ∧ OneLine env.text plan.after i new ∧
          Says new (newCron.getD task.scheduleExpr) (newCommand.getD task.command)
            task.stdinPayload ∧
          (newCommand = none → shellView new = shellView raw)

/-- What can be written: the schedule is one, and nothing else; the text that
follows it has no blanks but single ones inside; and the command does not end
in a backslash when there is a payload. -/
structure FitsLine (cron command : Text) (stdin : Option Text) : Prop where
  schedule : (requestedSchedule cron).isSome = true
  blanks : collapse (joinPercent command stdin) = joinPercent command stdin
  percent : Splittable command stdin

/-! ### Words of a line -/

section Reads

variable {cron s t e line command : Text} {stdin : Option Text} {sched : CronSchedule}
  {job : ParsedJob} {n : Nat}

theorem splitWhitespace_eq (s : Text) : splitWhitespace s = Words.words isWhiteSpace s := by
  unfold splitWhitespace Words.words
  apply List.filter_congr
  intro w _
  cases w <;> rfl

theorem collapse_eq (s : Text) : collapse s = Words.collapse isWhiteSpace ' ' s := by
  unfold collapse
  rw [splitWhitespace_eq]
  rfl

theorem isWhiteSpace_blank : isWhiteSpace ' ' = true := by decide

theorem newline_not_mem_collapse (s : Text) : '\n' ∉ collapse s := by
  rw [collapse_eq]
  intro h
  exact absurd (Words.eq_sep_of_mem_collapse h (by decide)) (by decide)

theorem trimStart_collapse (s : Text) : trimStart (collapse s) = collapse s := by
  rw [collapse_eq]
  exact Words.dropWhile_collapse s

theorem splitWhitespace_append (s e : Text) :
    splitWhitespace (s ++ ' ' :: e) = splitWhitespace s ++ splitWhitespace e := by
  rw [splitWhitespace_eq, splitWhitespace_eq, splitWhitespace_eq]
  exact Words.words_append_sep isWhiteSpace_blank s e

theorem splitWhitespace_trim (s : Text) : splitWhitespace (Text.trim s) = splitWhitespace s := by
  unfold Text.trim
  rw [splitWhitespace_trimEnd, splitWhitespace_trimStart]

theorem splitWhitespace_disabled (t : Text) : splitWhitespace (DISABLE_PREFIX ++ t) =
    "#".toList :: "bellman-disabled:".toList :: splitWhitespace t := by
  have hpre : DISABLE_PREFIX ++ t =
      "#".toList ++ ' ' :: ("bellman-disabled:".toList ++ ' ' :: t) := rfl
  rw [hpre, splitWhitespace_append, splitWhitespace_append]
  rfl

theorem marker_not_field (fields : List Text) (h : "bellman-disabled:".toList ∈ fields) :
    ¬fields.all looksLikeField = true := by
  intro hall
  exact absurd (List.all_eq_true.mp hall _ h) (by decide)

/-- A marker is not the schedule of a job. -/
theorem tryParseJob_disabled (h : splitWhitespace s = splitWhitespace (DISABLE_PREFIX ++ t)) :
    tryParseJob s .user = none := by
  rw [tryParseJob_congr h]
  unfold tryParseJob
  rw [splitWhitespace_disabled]
  dsimp only
  rw [if_neg (by decide)]
  split
  · next heq =>
    obtain ⟨rfl, -⟩ := List.cons.inj heq
    rw [if_neg (marker_not_field _ (by simp))]
  · rfl

/-- Nor is it the beginning of one that is asked for. -/
theorem not_disabled_of_requested (h : requestedSchedule cron = some sched) :
    ¬DISABLE_PREFIX <+: trimStart (cron ++ ' ' :: e) := by
  rintro ⟨t, ht⟩
  have hwords := splitWhitespace_trimStart (cron ++ ' ' :: e)
  rw [← ht, splitWhitespace_disabled, splitWhitespace_append] at hwords
  unfold requestedSchedule at h
  split at h
  · next token heq =>
    rw [heq] at hwords
    obtain ⟨rfl, -⟩ := List.cons.inj hwords
    cases h
  · next minute hour dom month dow heq =>
    rw [heq] at hwords
    obtain ⟨-, hwords⟩ := List.cons.inj hwords
    obtain ⟨rfl, -⟩ := List.cons.inj hwords
    rw [if_neg (marker_not_field _ (by simp))] at h
    cases h
  · cases h

/-- **A schedule that is asked for is read back**, and what follows it is the
command. -/
theorem tryParseJob_requested (h : requestedSchedule cron = some sched) (e : Text) :
    tryParseJob (cron ++ ' ' :: e) .user = parseCommand sched .user (splitWhitespace e) := by
  unfold tryParseJob
  rw [splitWhitespace_append]
  unfold requestedSchedule at h
  split at h
  · next token heq =>
    rw [heq]
    by_cases hat : token.head? = some '@'
    · rw [if_pos hat] at h
      obtain ⟨special, hspecial, rfl⟩ := Option.map_eq_some_iff.mp h
      show (if token.head? = some '@' then _ else _) = _
      rw [if_pos hat, hspecial]
      rfl
    · rw [if_neg hat] at h
      cases h
  · next minute hour dom month dow heq =>
    rw [heq]
    by_cases hall : [minute, hour, dom, month, dow].all looksLikeField = true
    · rw [if_pos hall] at h
      obtain rfl := Option.some.inj h
      have hat : minute.head? ≠ some '@' := by
        intro hat
        obtain ⟨rest, rfl⟩ := List.head?_eq_some_iff.mp hat
        simp [looksLikeField] at hall
      show (if minute.head? = some '@' then _ else _) = _
      rw [if_neg hat]
      show (if [minute, hour, dom, month, dow].all looksLikeField = true then _ else _) = _
      rw [if_pos hall]
      rfl
    · rw [if_neg hall] at h
      cases h
  · cases h

theorem length_requested (h : requestedSchedule cron = some sched) :
    (splitWhitespace cron).length = scheduleWords (cron ++ ' ' :: e) := by
  unfold scheduleWords
  rw [splitWhitespace_append]
  unfold requestedSchedule at h
  split at h
  · next token heq =>
    rw [heq]
    by_cases hat : token.head? = some '@'
    · show 1 = if token.head? = some '@' then 1 else 5
      rw [if_pos hat]
    · rw [if_neg hat] at h
      cases h
  · next minute hour dom month dow heq =>
    rw [heq]
    by_cases hall : [minute, hour, dom, month, dow].all looksLikeField = true
    · have hat : minute.head? ≠ some '@' := by
        intro hat
        obtain ⟨rest, rfl⟩ := List.head?_eq_some_iff.mp hat
        simp [looksLikeField] at hall
      show 5 = if minute.head? = some '@' then 1 else 5
      rw [if_neg hat]
    · rw [if_neg hall] at h
      cases h
  · cases h

/-- After the schedule that is asked for comes the rest. -/
theorem commandPart_requested (h : requestedSchedule cron = some sched) (e : Text) :
    commandPart (cron ++ ' ' :: e) = trimStart e := by
  unfold commandPart trimStart
  rw [← length_requested h, splitWhitespace_eq]
  exact Words.dropWhile_iterate_dropWord isWhiteSpace_blank cron e

theorem scheduleWords_congr (h : splitWhitespace s = splitWhitespace t) :
    scheduleWords s = scheduleWords t := by
  unfold scheduleWords
  rw [h]

theorem collapse_commandPart (s : Text) :
    collapse (commandPart s) = joinTokens ((splitWhitespace s).drop (scheduleWords s)) := by
  unfold collapse commandPart
  rw [splitWhitespace_trimStart, splitWhitespace_eq, splitWhitespace_eq,
    Words.words_iterate_dropWord]

theorem parseCommand_user {rest : List Text} (h : parseCommand sched .user rest = some job) :
    job.schedule = sched ∧ splitPercent (joinTokens rest) = (job.command, job.stdinPayload) := by
  cases rest with
  | nil => cases h
  | cons c cs =>
    obtain rfl := Option.some.inj h
    exact ⟨rfl, rfl⟩

/-- **A job's command** is what follows its schedule, with single blanks. -/
theorem splitPercent_commandPart (h : tryParseJob s .user = some job) :
    splitPercent (collapse (commandPart s)) = (job.command, job.stdinPayload) := by
  rw [collapse_commandPart]
  unfold scheduleWords
  unfold tryParseJob at h
  split at h
  · cases h
  · next token rest heq =>
    rw [heq]
    by_cases hat : token.head? = some '@'
    · rw [if_pos hat] at h
      obtain ⟨special, -, h⟩ := Option.bind_eq_some_iff.mp h
      show splitPercent (joinTokens ((token :: rest).drop
        (if token.head? = some '@' then 1 else 5))) = _
      rw [if_pos hat]
      exact (parseCommand_user h).2
    · rw [if_neg hat] at h
      show splitPercent (joinTokens ((token :: rest).drop
        (if token.head? = some '@' then 1 else 5))) = _
      rw [if_neg hat]
      split at h
      · split at h
        · exact (parseCommand_user h).2
        · cases h
      · cases h

/-- The number of a line does not matter. -/
theorem job?_parseLine (raw : Text) (n n' : Nat) (mode : CrontabMode) :
    (parseLine raw n mode).job? = (parseLine raw n' mode).job? := by
  unfold parseLine
  dsimp only
  split
  · rfl
  · split
    · split <;> rfl
    · split
      · rfl
      · split
        · rfl
        · split
          · rfl
          · split <;> rfl

end Reads

/-! ### A written line is read back -/

section Written

variable {cron command body line raw : Text} {stdin : Option Text} {sched : CronSchedule}
  {job : ParsedJob} {task : DiscoveredTask}

/-- The text is accepted as a job. -/
def ReadsAsJob (body : Text) : Prop :=
  ∃ raw n job d o, (parseCrontab body .user).head? = some (.job raw n job d o)

/-- A text of one line is that line. -/
theorem parseLine_of_readsAsJob (h : ReadsAsJob body) (hsingle : '\n' ∉ body) :
    ∃ raw n job d o, parseLine (stripCr body) n .user = .job raw n job d o := by
  obtain ⟨raw, n, job, d, o, hhead⟩ := h
  have hne : body ≠ [] := by
    rintro rfl
    cases hhead
  have hlines : splitLines body = [stripCr body] := by
    rw [splitLines_eq, lines_of_not_mem hsingle hne]
    rfl
  unfold parseCrontab at hhead
  rw [hlines] at hhead
  have hparse := Option.some.inj hhead
  obtain ⟨-, rfl, -⟩ := parseLine_job hparse
  exact ⟨_, _, _, _, _, hparse⟩

theorem trimStart_stripCr_lead (s : Text) : trimStart (stripCr s) <+: trimStart s := by
  unfold stripCr
  split
  · next h =>
    obtain ⟨init, rfl⟩ := List.getLast?_eq_some_iff.mp h
    rw [List.dropLast_concat]
    unfold trimStart
    rw [List.dropWhile_append]
    split
    · next hempty =>
      rw [List.isEmpty_iff.mp hempty]
      exact List.nil_prefix
    · exact List.prefix_append _ _
  · exact List.prefix_rfl

theorem trim_lead (s : Text) : Text.trim s <+: trimStart s :=
  List.rdropWhile_prefix isWhiteSpace _

theorem splitWhitespace_stripCr (s : Text) : splitWhitespace (stripCr s) = splitWhitespace s := by
  rw [← splitWhitespace_trimEnd, trimEnd_stripCr, splitWhitespace_trimEnd]

theorem stripPrefix?_eq_some {pre s rest : Text} :
    stripPrefix? pre s = some rest ↔ s = pre ++ rest := by
  constructor
  · unfold stripPrefix?
    split
    · next h =>
      rintro ⟨⟩
      obtain ⟨t, rfl⟩ := List.isPrefixOf_iff_prefix.mp h
      rw [List.drop_left]
    · exact nofun
  · rintro rfl
    exact stripPrefix?_append pre rest

theorem stripPrefix?_eq_none {pre s : Text} : stripPrefix? pre s = none ↔ ¬pre <+: s := by
  unfold stripPrefix?
  split
  · next h => exact ⟨nofun, fun hnot => absurd (List.isPrefixOf_iff_prefix.mp h) hnot⟩
  · next h => exact ⟨fun _ hpre => h (List.isPrefixOf_iff_prefix.mpr hpre), fun _ => rfl⟩

/-- A job that is disabled is on a line with the marker. -/
theorem parseLine_marked {raw raw' : Text} {n n' : Nat} {o : Option Text}
    (h : parseLine raw n .user = .job raw' n' job true o) :
    ∃ rest, Text.trim raw = DISABLE_PREFIX ++ rest ∧ tryParseJob rest .user = some job := by
  unfold parseLine at h
  dsimp only at h
  split at h
  · cases h
  · split at h
    · next rest hstrip =>
      split at h
      · next job' htry =>
        injection h with _ _ hsame
        rw [← hsame]
        exact ⟨rest, stripPrefix?_eq_some.mp hstrip, htry⟩
      · cases h
    · split at h
      · cases h
      · split at h
        · cases h
        · split at h
          · cases h
          · split at h <;> cases h

/-- **What is written after a schedule that is asked for**, on a line that
reads as a job, is read as that schedule and the words that follow it. -/
theorem reads_body (hsched : requestedSchedule cron = some sched) {e : Text}
    (hjob : ReadsAsJob (cron ++ ' ' :: e)) (hsingle : '\n' ∉ cron ++ ' ' :: e)
    (hline : line = cron ++ ' ' :: e ∨ line = DISABLE_PREFIX ++ (cron ++ ' ' :: e)) (n : Nat) :
    (parseLine (stripCr line) n .user).job? =
      some ⟨sched, none, (splitPercent (collapse e)).1, (splitPercent (collapse e)).2⟩ := by
  obtain ⟨raw, n', job, d, o, hparse⟩ := parseLine_of_readsAsJob hjob hsingle
  have hwords : splitWhitespace (stripCr (cron ++ ' ' :: e)) = splitWhitespace (cron ++ ' ' :: e) :=
    splitWhitespace_stripCr _
  have hnot : ¬DISABLE_PREFIX <+: trimStart (cron ++ ' ' :: e) := not_disabled_of_requested hsched
  obtain ⟨-, -, -, hkind⟩ := parseLine_job hparse
  -- The line is not a disabled one, so the job is what it reads as.
  have htry : tryParseJob (cron ++ ' ' :: e) .user = some job := by
    rcases hkind with ⟨-, -, htry⟩ | ⟨hd, rest, ho, htry⟩
    · rw [← htry]
      exact tryParseJob_congr ((splitWhitespace_trim _).trans hwords).symm .user
    · subst hd ho
      obtain ⟨t, ht, -⟩ := parseLine_marked hparse
      refine absurd (List.IsPrefix.trans ?_ (trimStart_stripCr_lead _)) hnot
      exact List.IsPrefix.trans ⟨t, ht.symm⟩ (trim_lead _)
  have hcommand := splitPercent_commandPart htry
  rw [commandPart_requested hsched] at hcommand
  have hcollapse : collapse (trimStart e) = collapse e := by
    unfold collapse
    rw [splitWhitespace_trimStart]
  rw [hcollapse] at hcommand
  have hsame : job =
      ⟨sched, none, (splitPercent (collapse e)).1, (splitPercent (collapse e)).2⟩ := by
    rw [tryParseJob_requested hsched] at htry
    cases hwe : splitWhitespace e with
    | nil =>
      rw [hwe] at htry
      cases htry
    | cons c cs =>
      rw [hwe] at htry
      obtain rfl := Option.some.inj htry
      rw [hcommand]
  rw [← hsame]
  rcases hline with rfl | rfl
  · rw [job?_parseLine _ n n', hparse]
    rfl
  · have hne : cron ++ ' ' :: e ≠ [] := by simp
    rw [stripCr_append hne]
    have htrimmed : tryParseJob (trimEnd (stripCr (cron ++ ' ' :: e))) .user = some job := by
      rw [← htry]
      exact tryParseJob_congr ((splitWhitespace_trimEnd _).trans hwords) .user
    rw [parseLine_disabled htrimmed]
    rfl

/-- **When a line says what was asked for.** -/
theorem says_iff
    (hjob : ∀ sched, requestedSchedule cron = some sched →
      ReadsAsJob (cron ++ ' ' :: joinPercent command stdin))
    (hsingle : '\n' ∉ cron ++ ' ' :: joinPercent command stdin)
    (hline : line = cron ++ ' ' :: joinPercent command stdin ∨
      line = DISABLE_PREFIX ++ (cron ++ ' ' :: joinPercent command stdin)) :
    Says line cron command stdin ↔ FitsLine cron command stdin := by
  constructor
  · rintro ⟨job, hreads, hsched, rfl, rfl⟩
    have hjob := (hreads 1).symm.trans (reads_body hsched (hjob _ hsched) hsingle hline 1)
    have hsplit : splitPercent (collapse (joinPercent job.command job.stdinPayload)) =
        (job.command, job.stdinPayload) := by
      have hsame := Option.some.inj hjob
      exact (congrArg (fun job : ParsedJob => (job.command, job.stdinPayload)) hsame).symm
    have hback := joinPercent_splitPercent
      (newline_not_mem_collapse (joinPercent job.command job.stdinPayload))
    have hpercent := splittable_splitPercent (collapse (joinPercent job.command job.stdinPayload))
    rw [hsplit] at hback hpercent
    exact ⟨by rw [hsched]; rfl, hback.symm, hpercent⟩
  · rintro ⟨hsched, hblanks, hpercent⟩
    obtain ⟨sched, hsched⟩ := Option.isSome_iff_exists.mp hsched
    refine ⟨_, reads_body hsched (hjob _ hsched) hsingle hline, hsched, ?_⟩
    rw [hblanks, splitPercent_joinPercent hpercent]
    exact ⟨rfl, rfl⟩

end Written

/-! ### New tasks -/

section New

variable {env : CrontabEnv} {hash : TaskHash} {command cronExpr : Text}

theorem cronLine_eq (cron e : Text) : cron ++ [' '] ++ e = cron ++ ' ' :: e := by
  rw [List.append_assoc]
  rfl

theorem entryLines_iff (hhash : ∀ t, '\n' ∉ hash.shortHash t) :
    entryLines hash command cronExpr = fenceEntry hash command cronExpr ↔
      '\n' ∉ cronExpr ++ [' '] ++ joinPercent command none := by
  constructor
  · intro heq hmem
    have hin : cronExpr ++ [' '] ++ joinPercent command none ∈
        entryLines hash command cronExpr := by
      rw [heq]
      exact List.mem_cons_of_mem _ List.mem_cons_self
    exact not_mem_of_mem_lines hin hmem
  · intro hsingle
    apply lines_unlines_true
    intro l hl
    rcases List.mem_cons.mp hl with rfl | hl
    · rw [List.mem_append, not_or]
      exact ⟨by decide, hhash _⟩
    · rw [List.mem_singleton.mp hl]
      exact hsingle

/-- **When a new task is written as it was asked for.** -/
theorem newMeans_iff (hhash : ∀ t, '\n' ∉ hash.shortHash t) :
    NewMeans env hash command cronExpr ↔ (NewAccepted command cronExpr →
      NewSafe env ∧ '\n' ∉ cronExpr ∧ FitsLine cronExpr command none) := by
  have hline (hacc : NewAccepted command cronExpr)
      (hsingle : '\n' ∉ cronExpr ++ [' '] ++ joinPercent command none) :
      Says (cronExpr ++ [' '] ++ joinPercent command none) cronExpr command none ↔
        FitsLine cronExpr command none := by
    have hjob : ReadsAsJob (cronExpr ++ [' '] ++ joinPercent command none) := hacc.2.2
    rw [cronLine_eq] at hsingle hjob ⊢
    exact says_iff (fun _ _ => hjob) hsingle (.inl rfl)
  constructor
  · rintro ⟨htouches, hsingle, hmeans⟩ hacc
    have hsingle := (entryLines_iff hhash).mp (hsingle hacc)
    refine ⟨(newTouches_iff hash).mp htouches hacc, ?_, (hline hacc hsingle).mp (hmeans hacc)⟩
    exact fun hmem => hsingle (List.mem_append_left _ (List.mem_append_left _ hmem))
  · intro hcond
    have hsingle (hacc : NewAccepted command cronExpr) :
        '\n' ∉ cronExpr ++ [' '] ++ joinPercent command none := by
      obtain ⟨-, hcron, hfits⟩ := hcond hacc
      rw [← hfits.blanks, List.append_assoc, List.mem_append, not_or]
      refine ⟨hcron, fun hmem => ?_⟩
      rcases List.mem_cons.mp hmem with hmem | hmem
      · exact absurd hmem (by decide)
      · exact newline_not_mem_collapse _ hmem
    exact ⟨(newTouches_iff hash).mpr fun hacc => (hcond hacc).1,
      fun hacc => (entryLines_iff hhash).mpr (hsingle hacc),
      fun hacc => (hline hacc (hsingle hacc)).mpr (hcond hacc).2.2⟩

end New

/-! ### Edited tasks -/

section Edit

variable {env : CrontabEnv} {username : String} {hash : TaskHash} {task : DiscoveredTask}
  {newCommand newCron : Option Text} {cron line new raw s t text : Text} {sched : CronSchedule}
  {job : ParsedJob}

theorem jobText_of_not (h : ¬DISABLE_PREFIX <+: trimStart line) :
    jobText line = trimStart line := by
  unfold jobText
  rw [stripPrefix?_eq_none.mpr h]
  rfl

theorem jobText_of_eq (h : trimStart line = DISABLE_PREFIX ++ s) : jobText line = s := by
  unfold jobText
  rw [stripPrefix?_eq_some.mpr h]
  rfl

/-- **A line reads as its job does.** -/
theorem tryParseJob_jobText {raw' : Text} {n n' : Nat} {d : Bool} {o : Option Text}
    (h : parseLine raw n .user = .job raw' n' job d o) :
    tryParseJob (jobText raw) .user = some job := by
  have hwords : splitWhitespace (Text.trim raw) = splitWhitespace (trimStart raw) :=
    splitWhitespace_trimEnd _
  obtain ⟨-, -, -, ⟨-, -, htry⟩ | ⟨rfl, -⟩⟩ := parseLine_job h
  · have hnot : ¬DISABLE_PREFIX <+: trimStart raw := by
      rintro ⟨t, ht⟩
      rw [← ht] at hwords
      rw [tryParseJob_disabled hwords] at htry
      cases htry
    rw [jobText_of_not hnot, ← htry]
    exact tryParseJob_congr hwords.symm .user
  · obtain ⟨rest, hrest, htry⟩ := parseLine_marked h
    obtain ⟨t, ht⟩ := List.IsPrefix.trans ⟨rest, hrest.symm⟩ (trim_lead raw)
    rw [jobText_of_eq ht.symm, ← htry]
    apply tryParseJob_congr
    rw [hrest, ← ht, splitWhitespace_disabled, splitWhitespace_disabled] at hwords
    exact ((List.cons.inj (List.cons.inj hwords).2).2).symm

/-- The command of a task that was found is what its line says. -/
theorem command_of_mem (h : task ∈ tasksFromCrontabText (.user username) hash text)
    (hraw : task.rawLine = some raw) :
    splitPercent (collapse (commandPart (jobText raw))) = (task.command, task.stdinPayload) := by
  obtain ⟨parsed, hmem, htask⟩ := List.mem_filterMap.mp h
  obtain ⟨i, hi, rfl⟩ := List.mem_mapIdx.mp hmem
  revert htask
  cases hparse : parseLine (splitLines text)[i] (lineNumber i)
      (CrontabSource.user username).mode with
  | job raw' n job d o =>
    intro htask
    obtain ⟨rfl, -⟩ := parseLine_job hparse
    obtain rfl := Option.some.inj htask
    obtain rfl := Option.some.inj hraw
    exact splitPercent_commandPart (tryParseJob_jobText hparse)
  | _ => intro htask; cases htask

theorem commandPart_trimStart (s : Text) : commandPart (trimStart s) = commandPart s := by
  unfold commandPart
  rw [scheduleWords_congr (splitWhitespace_trimStart s)]
  obtain ⟨k, hk⟩ : ∃ k, scheduleWords s = k + 1 := by
    unfold scheduleWords
    split
    · exact ⟨0, rfl⟩
    · exact ⟨4, rfl⟩
  rw [hk, Function.iterate_succ_apply, Function.iterate_succ_apply]
  unfold trimStart
  rw [Words.dropWord_dropWhile]

/-- What the shell is handed of a written line. -/
theorem shellView_body (hsched : requestedSchedule cron = some sched) {e : Text}
    (hline : line = cron ++ ' ' :: e ∨ line = DISABLE_PREFIX ++ (cron ++ ' ' :: e)) :
    shellView line = splitPercent (trimStart e) := by
  unfold shellView
  rw [← commandPart_requested hsched]
  rcases hline with rfl | rfl
  · rw [jobText_of_not (not_disabled_of_requested hsched), commandPart_trimStart]
  · have hstart : trimStart (DISABLE_PREFIX ++ (cron ++ ' ' :: e)) =
        DISABLE_PREFIX ++ (cron ++ ' ' :: e) := rfl
    rw [jobText_of_eq hstart]

/-- What is written by an edit. -/
theorem editedLine_ok (h : editedLine task newCommand newCron raw = .ok new) :
    let body := newCron.getD task.scheduleExpr ++
      ' ' :: joinPercent (newCommand.getD task.command) task.stdinPayload
    (new = body ∨ new = DISABLE_PREFIX ++ body) ∧
      ∀ sched, requestedSchedule (newCron.getD task.scheduleExpr) = some sched →
        ReadsAsJob body := by
  intro body
  have hbody : newCron.getD task.scheduleExpr ++ [' '] ++
      joinPercent (newCommand.getD task.command) task.stdinPayload = body := cronLine_eq _ _
  unfold editedLine at h
  dsimp only at h
  rw [List.append_assoc DISABLE_PREFIX, List.append_assoc DISABLE_PREFIX, hbody] at h
  split at h
  · next hhead =>
    obtain rfl := Except.ok.inj h
    by_cases hmarked : DISABLE_PREFIX.isPrefixOf (trimStart raw) = true
    · rw [if_pos hmarked, stripPrefix?_append] at hhead
      rw [if_pos hmarked]
      exact ⟨.inr rfl, fun _ _ => ⟨_, _, _, _, _, hhead⟩⟩
    · rw [if_neg hmarked] at hhead ⊢
      refine ⟨.inl rfl, fun sched hsched => ?_⟩
      have hnone : stripPrefix? DISABLE_PREFIX body = none := by
        rw [stripPrefix?_eq_none]
        rintro ⟨t, ht⟩
        apply not_disabled_of_requested hsched
          (e := joinPercent (newCommand.getD task.command) task.stdinPayload)
        show DISABLE_PREFIX <+: trimStart body
        rw [← ht]
        exact List.prefix_append DISABLE_PREFIX t
      rw [hnone] at hhead
      exact ⟨_, _, _, _, _, hhead⟩
  · cases h

theorem commandPart_subset (line : Text) : commandPart (jobText line) ⊆ line := by
  have hjob : (jobText line).Sublist line := by
    unfold jobText stripPrefix?
    have hstart : (trimStart line).Sublist line := List.dropWhile_sublist _
    split
    · exact (List.drop_sublist _ _).trans hstart
    · exact hstart
  exact (((List.dropWhile_sublist _).trans (Words.iterate_dropWord_sublist _ _)).trans hjob).subset

/-- **Editing the schedule only** hands the shell what it was handed before
exactly when there are no blanks but single ones in the command. -/
theorem shellView_iff (hnl : '\n' ∉ raw)
    (hfound : splitPercent (collapse (commandPart (jobText raw))) =
      (task.command, task.stdinPayload))
    (hsched : requestedSchedule (newCron.getD task.scheduleExpr) = some sched)
    (hnew : editedLine task none newCron raw = .ok new) :
    shellView new = shellView raw ↔
      collapse (commandPart (jobText raw)) = commandPart (jobText raw) := by
  have hback := joinPercent_splitPercent (newline_not_mem_collapse (commandPart (jobText raw)))
  rw [hfound] at hback
  have hview := shellView_body hsched (editedLine_ok hnew).1
  rw [Option.getD_none, hback, trimStart_collapse] at hview
  rw [hview]
  show splitPercent _ = splitPercent _ ↔ _
  constructor
  · intro heq
    have hpart : '\n' ∉ commandPart (jobText raw) := fun hmem => hnl (commandPart_subset raw hmem)
    have hself := joinPercent_splitPercent hpart
    rw [← heq, joinPercent_splitPercent (newline_not_mem_collapse _)] at hself
    exact hself
  · intro heq
    rw [heq]

/-- **When an edit is written as it was asked for.** -/
theorem editMeans_iff (h : Readable task raw)
    (hfound : splitPercent (collapse (commandPart (jobText raw))) =
      (task.command, task.stdinPayload)) :
    EditMeans env task newCommand newCron ↔
      ((newCommand.isSome = true ∨ newCron.isSome = true) → env.readError = none →
        TaskOp.Safe (.edit newCommand newCron) env.text task raw ∧
        (raw ∈ splitLines env.text → ∀ new, editedLine task newCommand newCron raw = .ok new →
          FitsLine (newCron.getD task.scheduleExpr) (newCommand.getD task.command)
              task.stdinPayload ∧
            (newCommand = none →
              collapse (commandPart (jobText raw)) = commandPart (jobText raw)))) := by
  have hline {new : Text} (hnew : editedLine task newCommand newCron raw = .ok new)
      (hsingle : '\n' ∉ new) :
      Says new (newCron.getD task.scheduleExpr) (newCommand.getD task.command)
          task.stdinPayload ∧ (newCommand = none → shellView new = shellView raw) ↔
        FitsLine (newCron.getD task.scheduleExpr) (newCommand.getD task.command)
            task.stdinPayload ∧
          (newCommand = none →
            collapse (commandPart (jobText raw)) = commandPart (jobText raw)) := by
    obtain ⟨hbody, hjob⟩ := editedLine_ok hnew
    have htold := says_iff hjob (by
      rcases hbody with rfl | rfl
      · exact hsingle
      · exact fun hmem => hsingle (List.mem_append_right _ hmem)) hbody
    rw [htold]
    refine and_congr_right fun hfits => forall_congr' fun hnone => ?_
    obtain ⟨sched, hsched⟩ := Option.isSome_iff_exists.mp hfits.schedule
    subst hnone
    exact shellView_iff h.single hfound hsched hnew
  constructor
  · intro hmeans hop hread
    have happ : TaskOp.Applies task (.edit newCommand newCron) := hop
    have hsafe : TaskOp.Safe (.edit newCommand newCron) env.text task raw := by
      refine ((touches_iff h).mp fun apply => ?_).1 happ hread
      have hstep := hmeans apply
      show match editTask env task newCommand newCron apply with
        | (.error _, now) => now = env.text
        | (.ok plan, now) => _
      revert hstep
      generalize editTask env task newCommand newCron apply = result
      obtain ⟨outcome, now⟩ := result
      cases outcome with
      | error e => exact id
      | ok plan =>
        rintro ⟨hnow, i, raw', new, hi, hraw', hnew, hone, -⟩
        exact ⟨hnow, ⟨raw', hraw', (hi.mem hraw').1⟩,
          fun _ => ⟨i, raw', new, hi, hraw', hnew, hone⟩⟩
    refine ⟨hsafe, fun hmem new hnew => ?_⟩
    obtain ⟨c, hexact, hc, -⟩ := exactMatch_eq h.rawLine hmem
    have hafter : rewriteLine (TaskOp.newLine task (.edit newCommand newCron)) env.text task =
        .ok _ := (rewriteLine_found hexact hc).mpr ⟨new, hnew, rfl⟩
    -- The plan of a dry run tells what is written.
    obtain ⟨action, hrun⟩ := run_eq env h happ false
    obtain ⟨plan, hdry, -⟩ := finishWriteRaw_dry env action (some task.id) task.source env.text _
    have heq : editTask env task newCommand newCron false = (.ok plan, env.text) := by
      refine Eq.trans hrun ?_
      simp only [applyTransform, readUserCrontab, hread, hafter]
      exact hdry
    have hstep := hmeans false
    rw [heq] at hstep
    obtain ⟨-, i, raw', new', hi, hraw', hnew', hone, htold⟩ := hstep
    obtain rfl := Option.some.inj (h.rawLine.symm.trans hraw')
    obtain rfl := Except.ok.inj (hnew.symm.trans hnew')
    exact (hline hnew hone.single).mp htold
  · intro hcond apply
    by_cases happ : TaskOp.Applies task (.edit newCommand newCron)
    · have htouches : TaskOp.Touches (.edit newCommand newCron) env task := (touches_iff h).mpr
        ⟨fun happ hread => (hcond happ hread).1, fun hidle => absurd hidle (not_idles happ)⟩
      have htouch := htouches apply
      obtain ⟨action, hrun⟩ := run_eq env h happ apply
      have hok {plan : WritePlan} {now : Text}
          (hplan : editTask env task newCommand newCron apply = (.ok plan, now)) :
          env.readError = none := by
        cases hread : env.readError with
        | none => rfl
        | some e =>
          rw [show editTask env task newCommand newCron apply = _ from hrun] at hplan
          simp only [applyTransform, readUserCrontab, hread] at hplan
          cases congrArg Prod.fst hplan
      revert htouch hok
      show (match editTask env task newCommand newCron apply with
        | (.error _, now) => now = env.text
        | (.ok plan, now) => _) → _
      generalize editTask env task newCommand newCron apply = result
      obtain ⟨outcome, now⟩ := result
      cases outcome with
      | error e => exact fun hnow _ => hnow
      | ok plan =>
        rintro ⟨hnow, -, hall⟩ hok
        obtain ⟨i, raw', new, hi, hraw', hnew, hone⟩ := hall happ
        obtain rfl := Option.some.inj (h.rawLine.symm.trans hraw')
        have hfits := (hcond happ (hok rfl)).2 (hi.mem hraw').1 new hnew
        exact ⟨hnow, i, raw, new, hi, hraw', hnew, hone, (hline hnew hone.single).mpr hfits⟩
    · rcases run_idle env h happ apply with ⟨hidle, -⟩ | ⟨-, e, he⟩
      · exact hidle.elim
      · have heq : editTask env task newCommand newCron apply = (.error e, env.text) := he
        rw [heq]

end Edit

/-! ### Main result -/

/-- **When a written line means what was asked for.**  A new task is written so
exactly when its insertion is safe and what was asked for fits a line; a task
that was found in the crontab, or in an earlier one, is edited so exactly when
the edit is safe, what was asked for fits, and, if only the schedule is edited,
there are no blanks in the command but single ones.  And a command and its
payload come back from the text that they are joined to. -/
theorem written_iff (username : String) (hash : TaskHash)
    (hhash : ∀ t, '\n' ∉ hash.shortHash t) :
    (∀ (env : CrontabEnv) (command cronExpr : Text), NewMeans env hash command cronExpr ↔
      (NewAccepted command cronExpr →
        NewSafe env ∧ '\n' ∉ cronExpr ∧ FitsLine cronExpr command none)) ∧
    (∀ (earlier : Text), ∀ task ∈ tasksFromCrontabText (.user username) hash earlier,
      ∃ raw, task.rawLine = some raw ∧
        ∀ (env : CrontabEnv) (newCommand newCron : Option Text),
          EditMeans env task newCommand newCron ↔
            ((newCommand.isSome = true ∨ newCron.isSome = true) → env.readError = none →
              TaskOp.Safe (.edit newCommand newCron) env.text task raw ∧
              (raw ∈ splitLines env.text →
                ∀ new, editedLine task newCommand newCron raw = .ok new →
                  FitsLine (newCron.getD task.scheduleExpr) (newCommand.getD task.command)
                      task.stdinPayload ∧
                    (newCommand = none →
                      collapse (commandPart (jobText raw)) = commandPart (jobText raw))))) ∧
    ∀ s : Text, splitPercent (joinPercent (splitPercent s).1 (splitPercent s).2) =
      splitPercent s := by
  refine ⟨fun env command cronExpr => newMeans_iff hhash, fun earlier task htask => ?_,
    splitPercent_joinPercent_splitPercent⟩
  obtain ⟨raw, hread⟩ := readable_of_mem htask
  exact ⟨raw, hread.rawLine, fun env newCommand newCron =>
    editMeans_iff hread (command_of_mem htask hread.rawLine)⟩

theorem newline_not_mem_sample (t : Text) : '\n' ∉ TaskHash.sample.shortHash t := by
  show '\n' ∉ "0".toList
  decide

/-- The backup is moved to another hour, and a task is added. -/
theorem written_backup :
    EditMeans { text := handText } backupTask none (some "0 7 * * 1".toList) ∧
      NewMeans { text := handText } TaskHash.sample "true".toList "0 1 * * *".toList := by
  obtain ⟨hnew, hedit, -⟩ := written_iff "me" TaskHash.sample newline_not_mem_sample
  obtain ⟨raw, hraw, hall⟩ := hedit handText backupTask backupTask_mem
  obtain rfl : backupLine = raw := Option.some.inj hraw
  have hbare : ∀ l ∈ lines '\n' handText, Bare l := by decide +kernel
  have hexact : exactMatch (splitLines handText) backupTask = some 2 := by decide +kernel
  constructor
  · rw [hall]
    refine fun _ _ => ⟨⟨fun _ new hnew => ?_, fun hgone => absurd (by decide +kernel) hgone⟩,
      fun _ new _ => ⟨⟨by decide +kernel, by decide +kernel, ?_⟩, fun _ => by decide +kernel⟩⟩
    · obtain rfl : "0 7 * * 1 backup %daily".toList = new := Except.ok.inj hnew
      refine ⟨by decide +kernel, by decide +kernel, 2, ⟨⟨_, rfl, by decide +kernel⟩, ?_⟩, ?_,
        .inr hexact⟩
      · intro n hn _ _
        obtain rfl : 3 = n := Option.some.inj hn
        rfl
      · exact fun j l _ hl => hbare l (List.mem_of_getElem? hl)
    · intro payload hp
      obtain rfl : "daily".toList = payload := Option.some.inj hp
      exact ⟨by decide +kernel, by decide +kernel⟩
  · rw [hnew]
    refine fun _ => ⟨⟨fun h => absurd rfl h, fun _ => hbare,
        fun _ h => absurd h (by decide +kernel)⟩,
      by decide +kernel, by decide +kernel, by decide +kernel, nofun⟩

def spacedLine : Text := "0 6 * * 1 echo 'a  b'".toList

def spacedTask : DiscoveredTask :=
  { backupTask with
    command := "echo 'a b'".toList
    stdinPayload := none
    lineNo := some 1
    rawLine := some spacedLine }

theorem spacedTask_mem :
    spacedTask ∈ tasksFromCrontabText (.user "me") TaskHash.sample (spacedLine ++ ['\n']) := by
  have htasks : tasksFromCrontabText (.user "me") TaskHash.sample (spacedLine ++ ['\n']) =
      [spacedTask] := rfl
  rw [htasks]
  exact List.mem_singleton_self _

/-- **Lines that mean something else**: of two blanks in a command one is read
back, whether the command is new or was there and its schedule is edited; a
sixth word of the schedule begins the command; what follows a newline is a job
of its own; and a backslash takes the payload into the command. -/
theorem written_astray :
    ¬NewMeans { text := [] } TaskHash.sample "echo 'a  b'".toList "0 1 * * *".toList ∧
      ¬NewMeans { text := [] } TaskHash.sample "true".toList "0 1 * * * nice".toList ∧
      ¬NewMeans { text := [] } TaskHash.sample "true\n0 2 * * * sync".toList "0 1 * * *".toList ∧
      ¬EditMeans { text := spacedLine ++ ['\n'] } spacedTask none (some "0 7 * * 1".toList) ∧
      ¬EditMeans { text := handText } backupTask (some "backup \\".toList) none := by
  have hnew {command cronExpr : Text}
      (hmeans : NewMeans { text := [] } TaskHash.sample command cronExpr)
      (hacc : NewAccepted command cronExpr) : FitsLine cronExpr command none :=
    ((newMeans_iff newline_not_mem_sample).mp hmeans hacc).2.2
  refine ⟨fun h => ?_, fun h => ?_, fun h => ?_, fun h => ?_, fun h => ?_⟩
  · have hfits := hnew h ⟨by decide +kernel, by decide +kernel, _, _, _, _, _, rfl⟩
    exact absurd hfits.blanks (by decide +kernel)
  · have hfits := hnew h ⟨by decide +kernel, by decide +kernel, _, _, _, _, _, rfl⟩
    exact absurd hfits.schedule (by decide +kernel)
  · have hfits := hnew h ⟨by decide +kernel, by decide +kernel, _, _, _, _, _, rfl⟩
    exact absurd hfits.blanks (by decide +kernel)
  · obtain ⟨raw, hread⟩ := readable_of_mem spacedTask_mem
    obtain rfl : spacedLine = raw := Option.some.inj hread.rawLine
    have hcond := (editMeans_iff hread (command_of_mem spacedTask_mem rfl)).mp h (.inr rfl) rfl
    have hview := (hcond.2 (by decide +kernel) _ rfl).2 rfl
    exact absurd hview (by decide +kernel)
  · obtain ⟨raw, hread⟩ := readable_of_mem backupTask_mem
    obtain rfl : backupLine = raw := Option.some.inj hread.rawLine
    have hcond := (editMeans_iff hread (command_of_mem backupTask_mem rfl)).mp h (.inl rfl) rfl
    have hfits := (hcond.2 (by decide +kernel) _ rfl).1
    exact absurd rfl (hfits.percent "daily".toList rfl).2

end Bellman
