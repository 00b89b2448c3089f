/-
Bellman/Crontab.lean

The lines of a crontab, and the tasks that are found in it.

A text is a list of characters.  It is split into lines, each without its
terminator, which may be a newline or a carriage return and a newline; each
line is read by itself as a blank, a comment, an assignment, a job, or none of
these.  A job that was disabled is a comment with a marker, after which the
line stands as it was.

The tasks of a crontab are its jobs, each with the line that it was read from
and the number of the line.  What is only shown about a task (when it runs
next, in words) is left out; of its id it is only said what it is made from.
-/
import Bellman.Lib.Lines
import Bellman.Occurrence

namespace Bellman

open OccurrenceKind (isWhiteSpace)

/-! ### Texts -/

abbrev Text : Type := List Char

instance : LawfulBEq Text := inferInstance

namespace Text

def trimStart (s : Text) : Text := s.dropWhile isWhiteSpace

def trimEnd (s : Text) : Text := s.rdropWhile isWhiteSpace

def trim (s : Text) : Text := trimEnd (trimStart s)

def splitWhitespace (s : Text) : List Text := (s.splitOnP isWhiteSpace).filter (· ≠ [])

/-- What follows a prefix. -/
def stripPrefix? (pre s : Text) : Option Text :=
  if pre.isPrefixOf s then some (s.drop pre.length) else none

/-- A line without the carriage return before its newline. -/
def stripCr (line : Text) : Text := if line.getLast? = some '\r' then line.dropLast else line

end Text

open Text

/-! ### Lines -/

def DISABLE_PREFIX : Text := "# bellman-disabled: ".toList
def DISABLE_ORIG_PREFIX : Text := "# bellman-disabled-orig: ".toList
def FENCE_BEGIN : Text := "# BEGIN bellman-managed".toList
def FENCE_END : Text := "# END bellman-managed".toList

def hadTrailingNewline (text : Text) : Bool := text.getLast? = some '\n'

/-- The lines, without their terminators; after a last newline there is no
line. -/
def splitLines (text : Text) : List Text :=
  if text = [] then []
  else
    let parts := text.splitOn '\n'
    (if hadTrailingNewline text then parts.dropLast else parts).map stripCr

def joinLines (lines : List Text) (trailing : Bool) : Text :=
  let s := ['\n'].intercalate lines
  if trailing && !hadTrailingNewline s then s ++ ['\n'] else s

/-! ### Jobs -/

/-- Whether there is a column for the user. -/
inductive CrontabMode where
  | user
  | system
  deriving Repr, DecidableEq

inductive SpecialSchedule where
  | reboot
  | yearly
  | monthly
  | weekly
  | daily
  | hourly
  deriving Repr, DecidableEq

namespace SpecialSchedule

def parse (token : Text) : Option SpecialSchedule :=
  match String.ofList (token.map Char.toLower) with
  | "@reboot" => some reboot
  | "@yearly" | "@annually" => some yearly
  | "@monthly" => some monthly
  | "@weekly" => some weekly
  | "@daily" | "@midnight" => some daily
  | "@hourly" => some hourly
  | _ => none

def asStr : SpecialSchedule → String
  | reboot => "@reboot"
  | yearly => "@yearly"
  | monthly => "@monthly"
  | weekly => "@weekly"
  | daily => "@daily"
  | hourly => "@hourly"

end SpecialSchedule

/-- Parts of a line, put together with single spaces. -/
def joinTokens (tokens : List Text) : Text := [' '].intercalate tokens

inductive CronSchedule where
  | special (s : SpecialSchedule)
  | fields (minute hour dom month dow : Text)
  deriving Repr, DecidableEq

def CronSchedule.expression : CronSchedule → Text
  | special s => s.asStr.toList
  | fields minute hour dom month dow => joinTokens [minute, hour, dom, month, dow]

structure ParsedJob where
  schedule : CronSchedule
  user : Option Text
  command : Text
  stdinPayload : Option Text

def looksLikeField (s : Text) : Bool :=
  !s.isEmpty && s.all fun c => c.isAlphanum || ['*', '/', ',', '-', '#'].contains c

/-- The command, and what the first unescaped `%` starts. -/
def splitPercent : Text → Text × Option Text
  | [] => ([], none)
  | '\\' :: '%' :: rest => ('%' :: (splitPercent rest).1, (splitPercent rest).2)
  | '%' :: rest => ([], some (rest.map fun c => if c = '%' then '\n' else c))
  | c :: rest => (c :: (splitPercent rest).1, (splitPercent rest).2)

def joinPercent (command : Text) (stdin : Option Text) : Text :=
  command.flatMap (fun c => if c = '%' then ['\\', '%'] else [c]) ++
    match stdin with
    | none => []
    | some payload => '%' :: payload.map fun c => if c = '\n' then '%' else c

/-- What comes after the schedule. -/
def parseCommand (schedule : CronSchedule) (mode : CrontabMode) (rest : List Text) :
    Option ParsedJob :=
  match mode, rest with
  | .user, c :: cs =>
    let (command, stdinPayload) := splitPercent (joinTokens (c :: cs))
    some { schedule, user := none, command, stdinPayload }
  | .system, user :: c :: cs =>
    let (command, stdinPayload) := splitPercent (joinTokens (c :: cs))
    some { schedule, user := some user, command, stdinPayload }
  | _, _ => none

def tryParseJob (trimmed : Text) (mode : CrontabMode) : Option ParsedJob :=
  match splitWhitespace trimmed with
  | [] => none
  | token :: rest =>
    if token.head? = some '@' then
      (SpecialSchedule.parse token).bind fun special => parseCommand (.special special) mode rest
    else
      match token, rest with
      | minute, hour :: dom :: month :: dow :: rest =>
        if [minute, hour, dom, month, dow].all looksLikeField then
          parseCommand (.fields minute hour dom month dow) mode rest
        else none
      | _, _ => none

/-- `NAME=value`. -/
def parseEnvAssignment (trimmed : Text) : Option (Text × Text) :=
  match trimmed.span (· ≠ '=') with
  | (key, '=' :: value) =>
    if key.head?.any (fun c => c.isAlpha || c == '_') && key.all (fun c => c.isAlphanum || c == '_')
    then some (key, value)
    else none
  | _ => none

/-! ### Reading a line -/

inductive CrontabLine where
  | blank (raw : Text) (lineNo : Nat)
  | comment (raw : Text) (lineNo : Nat)
  | env (raw : Text) (lineNo : Nat) (key value : Text)
  | job (raw : Text) (lineNo : Nat) (job : ParsedJob) (disabledByBellman : Bool)
      (originalLine : Option Text)
  | unknown (raw : Text) (lineNo : Nat)

def parseLine (raw : Text) (lineNo : Nat) (mode : CrontabMode) : CrontabLine :=
  let trimmed := trim raw
  if trimmed = [] then .blank raw lineNo
  else
    match stripPrefix? DISABLE_PREFIX trimmed with
    | some rest =>
      match tryParseJob rest mode with
      | some job => .job raw lineNo job true (some rest)
      | none => .comment raw lineNo
    | none =>
      if DISABLE_ORIG_PREFIX.isPrefixOf trimmed then .comment raw lineNo
      else if trimmed.head? = some '#' then .comment raw lineNo
      else
        match parseEnvAssignment trimmed with
        | some (key, value) => .env raw lineNo key value
        | none =>
          match tryParseJob trimmed mode with
          | some job => .job raw lineNo job false none
          | none => .unknown raw lineNo

/-- The number of a line, from one; 32 bits wide. -/
def lineNumber (i : Nat) : Nat := (i + 1) % 2 ^ 32

def parseCrontab (text : Text) (mode : CrontabMode) : List CrontabLine :=
  (splitLines text).mapIdx fun i raw => parseLine raw (lineNumber i) mode

/-! ### Tasks -/

inductive SourceKind where
  | cronUser
  | cronSystem
  | cronD
  | cronRunParts
  | anacron
  | systemdSystem
  | systemdUser
  | at
  | bellman
  | unsupported
  deriving Repr, DecidableEq

namespace SourceKind

def isSystemReadonly : SourceKind → Bool
  | cronSystem | cronD | cronRunParts | anacron | systemdSystem | unsupported => true
  | _ => false

/-- As messages name it. -/
def debug : SourceKind → String
  | cronUser => "CronUser"
  | cronSystem => "CronSystem"
  | cronD => "CronD"
  | cronRunParts => "CronRunParts"
  | anacron => "Anacron"
  | systemdSystem => "SystemdSystem"
  | systemdUser => "SystemdUser"
  | «at» => "At"
  | bellman => "Bellman"
  | unsupported => "Unsupported"

end SourceKind

structure DiscoveredTask where
  id : String
  sourceKind : SourceKind
  source : String
  command : Text
  stdinPayload : Option Text
  scheduleExpr : Text
  enabled : Bool
  writable : Bool
  writeBlockReason : Option String
  lineNo : Option Nat
  rawLine : Option Text
  disabledOriginal : Option Text

/-- The standard hasher, as far as ids are made with it. -/
structure TaskHash where
  taskId : SourceKind → List Text → String
  shortHash : Text → Text

/-- Where a crontab is from. -/
structure CrontabSource where
  mode : CrontabMode
  kind : SourceKind
  source : String
  defaultOwner : String
  writable : Bool
  writeBlock : Option String

/-- The task of a line, if it is a job. -/
def CrontabSource.task (src : CrontabSource) (hash : TaskHash) :
    CrontabLine → Option DiscoveredTask
  | .job raw lineNo job disabledByBellman originalLine =>
    let owner := job.user.getD src.defaultOwner.toList
    some
      { id := hash.taskId src.kind
          [src.source.toList, (toString lineNo).toList, owner, originalLine.getD raw]
        sourceKind := src.kind
        source := src.source
        command := job.command
        stdinPayload := job.stdinPayload
        scheduleExpr := job.schedule.expression
        enabled := !disabledByBellman
        writable := src.writable && src.kind = .cronUser
        writeBlockReason := if src.writable then none else src.writeBlock
        lineNo := some lineNo
        rawLine := some raw
        disabledOriginal := originalLine }
  | _ => none

def tasksFromCrontabText (src : CrontabSource) (hash : TaskHash) (text : Text) :
    List DiscoveredTask :=
  (parseCrontab text src.mode).filterMap (src.task hash)

/-- The crontab of the invoking user. -/
def CrontabSource.user (username : String) : CrontabSource where
  mode := .user
  kind := .cronUser
  source := "crontab:" ++ username
  defaultOwner := username
  writable := true
  writeBlock := none

end Bellman
