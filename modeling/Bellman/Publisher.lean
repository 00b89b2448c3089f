/-
Bellman/Publisher.lean

The publisher of the event log.

Every producer puts its events into the outbox of the store.  One process at
a time, the one that holds the lease, runs a publish cycle or the prune: it
recovers an interrupted rotation, reconciles the outbox with what is in the
log, appends what is pending, one line and one `fdatasync` at a time, and
rotates the file when it would grow too long.

The programs are written here as in the source, as procedures that make one
access to the store or to the disk at a time.  Any of them may fail, and
between any two of them the process may die; a write that does not succeed
leaves a part of its bytes at the end of the current file.
-/
import Bellman.EventLog
import Bellman.Lib.Outline
import Bellman.Lib.System

namespace Bellman

open ProgramLogic Job

/-! ### The rotation journal -/

/-- Errors from the event log. -/
inductive EventLogError where
  | io (text : String)
  | serialize (text : String)
  deriving Repr, DecidableEq

structure EventLogConfig where
  logsDir : String
  /-- In nanoseconds. -/
  retention : Nat
  maxCurrentBytes : Nat
  budgetBytes : Nat

inductive RotationPhase where
  | renamed
  | finalized
  | sourceRemoved
  deriving Repr, DecidableEq

structure RotationJournal where
  source : LogPath
  rotating : LogPath
  gzTmp : LogPath
  finalPath : LogPath
  phase : RotationPhase
  startedAt : Int
  deriving Repr, DecidableEq

/-- What retention removed in one pass. -/
structure RetainReport where
  aged : List String := []
  budget : List String := []
  bytesRemoved : Nat := 0

/-- One publish cycle's outcome. -/
structure PublishReport where
  leader : Bool := false
  published : Nat := 0
  rotated : Option LogPath := none
  error : Option EventLogError := none

def EventLogConfig.display (cfg : EventLogConfig) : LogPath → String
  | .current => cfg.logsDir ++ "/events.current.jsonl"
  | .rotating => cfg.logsDir ++ "/events.rotating.jsonl"
  | .archive name => cfg.logsDir ++ "/archive/" ++ name

/-! ### Calls -/

/-- The accesses of the publisher to the store and to the log directory. -/
inductive LogCall : Type → Type where
  | pendingEvents (limit : Nat) : LogCall (Except String (List (Uuid × String)))
  | markEventPublished (eventId : Uuid) : LogCall (Except EventLogError Unit)
  | enqueueEvent (kind : RunState) (note : EventNote) : LogCall (Except EventLogError Unit)
  | rotationJournal : LogCall (Except EventLogError (Option RotationJournal))
  | setRotationJournal (journal : RotationJournal) : LogCall (Except EventLogError Unit)
  | clearRotationJournal : LogCall (Except EventLogError Unit)
  | now : LogCall Int
  /-- The ISO year and week of the clock. -/
  | isoWeek : LogCall (Int × Nat)
  /-- The length of a file, none when it is not there. -/
  | metadata (p : LogPath) : LogCall (Option Nat)
  | read (p : LogPath) : LogCall (Option Bytes)
  /-- Open the current file for appending; it is created if it is not there. -/
  | openCurrent : LogCall (Except EventLogError Unit)
  /-- Write to the end of the current file. -/
  | write (bytes : Bytes) : LogCall (Except EventLogError Unit)
  /-- `fdatasync` of the current file, or `fsync` of a directory. -/
  | sync : LogCall (Except EventLogError Unit)
  | createArchiveDir : LogCall (Except EventLogError Unit)
  | rename (p q : LogPath) : LogCall (Except EventLogError Unit)
  | gzip (p q : LogPath) : LogCall (Except EventLogError Unit)
  /-- Remove a file; whether it was there. -/
  | remove (p : LogPath) : LogCall (Except EventLogError Bool)
  /-- The files of the archive directory. -/
  | readDir : LogCall (Except EventLogError (List (String × File)))
  /-- Remove an archive for good. -/
  | removeArchive (name : String) : LogCall (Except EventLogError Unit)

abbrev LogM (α : Type) : Type 1 := Job LogCall PublishReport EventLogError α

/-! ### Files -/

/-- The handle is opened again when it does not point at the live file. -/
def appendLineSynced (line : Bytes) : LogM Unit := do
  request .openCurrent
  request (.write line)
  request .sync

def currentLen : LogM Nat := do
  return (← query (.metadata .current)).getD 0

def fileExists (p : LogPath) : LogM Bool := do
  return (← query (.metadata p)).isSome

/-- `fs::remove_file`: a file that is not there is an error. -/
def removeFile (p : LogPath) : LogM Unit := do
  if ← request (.remove p) then return ()
  else throw (.io "No such file or directory (os error 2)")

def removeIfExists (p : LogPath) : LogM Unit := do
  let _ ← request (.remove p)

/-- `<year>-W<week>`, and from the second on with its number. -/
def archiveStem (year : Int) (week n : Nat) : String :=
  toString year ++ "-W" ++ (if week < 10 then "0" else "") ++ toString week ++
    (if n = 1 then "" else "." ++ toString n)

/-- `events-<year>-W<week>[.N].jsonl`. -/
def archiveCandidate (year : Int) (week n : Nat) : String :=
  "events-" ++ archiveStem year week n ++ ".jsonl"

/-- The first candidate that is neither there plain nor compressed. -/
def firstFree : List String → LogM String
  | [] => throw (.io "could not allocate unique archive name")
  | name :: names => do
    if ← fileExists (.archive name) then firstFree names
    else if ← fileExists (.archive (gzPathFor name)) then firstFree names
    else return name

def uniqueArchivePath : LogM String := do
  let now ← query .isoWeek
  firstFree ((List.range' 1 9999).map (archiveCandidate now.1 now.2))

/-- Verify that a gzip archive is fully decodable. -/
def verifyGzip (x : LogCodec) (p : LogPath) : LogM Bool := do
  return ((← query (.read p)).bind x.decompress).isSome

/-! ### Reconciliation -/

def pending : LogM (List (Uuid × String)) := do
  match ← query (.pendingEvents 10000) with
  | .ok rows => return rows
  | .error e => throw (.io ("read outbox: " ++ e))

/-- Mark the pending rows that are physically present. -/
def markPresent (present : List Uuid) : LogM Unit := do
  let rows ← pending
  rows.forM fun row =>
    if row.1 ∈ present then request (.markEventPublished row.1) else return ()

/-- The ids at the end of a file. -/
def tailIds (x : LogCodec) (p : LogPath) : LogM (List Uuid) := do
  return tailEventIds x (← query (.read p))

/-- The ids in the source of a rotation. -/
def rotatingIds (x : LogCodec) : LogM (List Uuid) := do
  match ← query .rotationJournal with
  | .ok (some journal) => tailIds x journal.rotating
  | _ => return []

def reconcileTail (x : LogCodec) : LogM Unit := do
  let current ← tailIds x .current
  let rotating ← rotatingIds x
  if current ++ rotating = [] then return () else markPresent (current ++ rotating)

/-! ### Rotation -/

/-- Finish the archive of an interrupted rotation from its source. -/
def recompress (journal : RotationJournal) : LogM Unit := do
  removeIfExists journal.gzTmp
  request (.gzip journal.rotating journal.gzTmp)
  request (.rename journal.gzTmp journal.finalPath)
  request .sync
  removeIfExists journal.rotating

/-- The final archive is there and verified. -/
def finalOk (x : LogCodec) (journal : RotationJournal) : LogM Bool := do
  if ← fileExists journal.finalPath then verifyGzip x journal.finalPath else return false

/-- Finish the archive; redundant files go. -/
def finishArchive (x : LogCodec) (journal : RotationJournal) : LogM Unit := do
  if ← finalOk x journal then
    removeIfExists journal.gzTmp
    removeIfExists journal.rotating
  else if ← fileExists journal.rotating then recompress journal
  else removeIfExists journal.gzTmp

def recoverFrom (x : LogCodec) (journal : RotationJournal) : LogM Unit := do
  request .sync
  let current ← tailIds x .current
  let rotating ← tailIds x journal.rotating
  markPresent (current ++ rotating)
  finishArchive x journal
  request .sync
  request .sync
  request .openCurrent
  request .sync
  request .clearRotationJournal

/-- Roll an interrupted rotation forward. -/
def recoverRotation (x : LogCodec) : LogM Unit := do
  match ← query .rotationJournal with
  | .ok (some journal) => recoverFrom x journal
  | _ => return ()

/-- The moves of a rotation, with intent recorded before each. -/
def rotate (journal : RotationJournal) : LogM Unit := do
  request (.setRotationJournal journal)
  request (.rename journal.source journal.rotating)
  request .sync
  request (.gzip journal.rotating journal.gzTmp)
  request (.rename journal.gzTmp journal.finalPath)
  request .sync
  request (.setRotationJournal { journal with phase := .finalized })
  removeFile journal.rotating
  request .sync
  request (.setRotationJournal { journal with phase := .sourceRemoved })
  request .openCurrent
  request .sync
  request .clearRotationJournal

def rotateJournaled (x : LogCodec) : LogM (Option LogPath) := do
  recoverRotation x
  request .sync
  if (← currentLen) = 0 then
    request .openCurrent
    return none
  else
    request .createArchiveDir
    let final := gzPathFor (← uniqueArchivePath)
    let startedAt ← query .now
    let journal : RotationJournal :=
      { source := .current
        rotating := .rotating
        gzTmp := .archive ("." ++ final ++ ".tmp")
        finalPath := .archive final
        phase := .renamed
        startedAt }
    rotate journal
    return some journal.finalPath

/-! ### The cycle -/

/-- The `pruned` note recording a rotation. -/
def rotationNote (cfg : EventLogConfig) (reason : String) (archive : LogPath)
    (archivesRemoved bytesRemoved : Nat) : EventNote :=
  { message := some "log_rotation"
    detail := some (.obj
      [("reason", .str reason), ("max_current_bytes", .num cfg.maxCurrentBytes),
        ("archived", .str (cfg.display archive)), ("archives_removed", .num archivesRemoved),
        ("bytes_removed", .num bytesRemoved)]) }

/-- Rotate when this line would take the current file past its limit. -/
def rotateIfFull (x : LogCodec) (cfg : EventLogConfig) (payload : String) : LogM Unit := do
  let lineLen := (utf8 payload).length + 1
  let len ← currentLen
  if 0 < len ∧ cfg.maxCurrentBytes < len + lineLen then
    match ← rotateJournaled x with
    | some archive =>
      modify fun report => { report with rotated := some archive }
      request (.enqueueEvent .pruned (rotationNote cfg "size_threshold" archive 0 0))
    | none => return ()
  else return ()

/-- Append one row and delete it. -/
def publishRow (x : LogCodec) (cfg : EventLogConfig) (row : Uuid × String) : LogM Unit := do
  rotateIfFull x cfg row.2
  appendLineSynced (utf8 row.2 ++ [NEWLINE])
  request (.markEventPublished row.1)
  modify fun report => { report with published := report.published + 1 }

def drain (x : LogCodec) (cfg : EventLogConfig) : LogM Unit := do
  let rows ← pending
  rows.forM (publishRow x cfg)

/-- `cycle_inner` of the leader. -/
def cycleInner (x : LogCodec) (cfg : EventLogConfig) : LogM Unit := do
  modify fun report => { report with leader := true }
  recoverRotation x
  reconcileTail x
  drain x cfg

/-! ### Retention -/

/-- Remove what interrupted rotations have left. -/
def cleanStrays (names : List String) : LogM Unit :=
  names.forM fun name => do
    if ".".toList.isPrefixOf name.toList && ".tmp".toList.isSuffixOf name.toList then
      let _ ← query (.removeArchive name)
      return ()
    else if "events-".toList.isPrefixOf name.toList && ".jsonl".toList.isSuffixOf name.toList then
      if ← fileExists (.archive (gzPathFor name)) then
        let _ ← query (.removeArchive name)
        return ()
      else return ()
    else return ()

/-- Oldest first: by time, then by name. -/
def oldestFirst (archives : List (String × File)) : List (String × File) :=
  archives.insertionSort fun a b =>
    a.2.mtime < b.2.mtime ∨ (a.2.mtime = b.2.mtime ∧ a.1 ≤ b.1)

/-- Remove archives until the total fits the budget. -/
def enforceBudget (cfg : EventLogConfig) : List (String × File) → Nat → RetainReport →
    LogM RetainReport
  | [], _, report => return report
  | (name, f) :: archives, total, report => do
    if total ≤ cfg.budgetBytes then return report
    else
      request (.removeArchive name)
      enforceBudget cfg archives (total - f.bytes.length)
        { report with
          bytesRemoved := report.bytesRemoved + f.bytes.length
          budget := report.budget ++ [name] }

/-- `SystemTime::checked_sub`: the seconds are 64 bits wide. -/
def checkedSub (now : Int) (d : Nat) : Option Int :=
  if -(2 ^ 63) * 1000000000 ≤ now - d then some (now - d) else none

/-- Archives that are older than this have aged out. -/
def retentionCutoff (cfg : EventLogConfig) (now : Int) : Int :=
  (checkedSub now cfg.retention).getD 0

def retain (cfg : EventLogConfig) : LogM RetainReport := do
  cleanStrays ((← request .readDir).map Prod.fst)
  let now ← query .now
  let entries ← request .readDir
  let aged := entries.filter fun a => isArchiveFile a.1 ∧ a.2.mtime < retentionCutoff cfg now
  aged.forM fun a => request (.removeArchive a.1)
  let archives := (← request .readDir).filter fun a => isArchiveFile a.1
  let total := (archives.map fun a => a.2.bytes.length).sum + (← currentLen)
  enforceBudget cfg (oldestFirst archives) total
    { aged := aged.map Prod.fst, bytesRemoved := (aged.map fun a => a.2.bytes.length).sum }

def rotateAndRetain (x : LogCodec) (cfg : EventLogConfig) :
    LogM (Option LogPath × RetainReport) := do
  recoverRotation x
  let archived ← rotateJournaled x
  let removed ← retain cfg
  return (archived, removed)

/-- What a process does with the lease. -/
inductive LogJob where
  | cycle
  | prune
  deriving Repr, DecidableEq

def LogJob.thread (x : LogCodec) (cfg : EventLogConfig) : LogJob → Thread LogCall Unit
  | cycle => (cycleInner x cfg).thread {}
  | prune => (rotateAndRetain x cfg).thread {}

/-! ### The world -/

/-- The pending rows: in the order of their time stamps, then of their ids. -/
def Store.pendingEvents (s : Store) (limit : Nat) : List EventRecord :=
  (s.eventOutbox.insertionSort fun a b =>
    a.loggedAt < b.loggedAt ∨ (a.loggedAt = b.loggedAt ∧ a.eventId.n ≤ b.eventId.n)).take limit

/-- The store, the rotation journal and the log directory. -/
structure LogWorld where
  store : Store
  journal : Option RotationJournal := none
  disk : Disk := ∅
  /-- The events that have been marked published. -/
  published : List EventRecord := []
  /-- The archives that retention has removed. -/
  removed : List (LogPath × Bytes) := []

namespace Disk

def put (d : Disk) (p : LogPath) (bytes : Bytes) (mtime : Int) : Disk := d.insert p ⟨bytes, mtime⟩

/-- The bytes of a file. -/
def bytes (d : Disk) (p : LogPath) : Option Bytes := (d.lookup p).map File.bytes

/-- The current file is created if it is not there. -/
def openCurrent (d : Disk) (mtime : Int) : Disk :=
  if (d.lookup .current).isSome then d else d.put .current [] mtime

def append (d : Disk) (bytes : Bytes) (mtime : Int) : Disk :=
  d.put .current ((d.bytes .current).getD [] ++ bytes) mtime

/-- The file `p` becomes the file `q`. -/
def move (d : Disk) (p q : LogPath) (f : File) : Disk := (d.erase p).insert q f

variable {d : Disk} {p q r : LogPath} {f : File} {b : Bytes} {mtime : Int}

@[simp] theorem lookup_put_self : (d.put p b mtime).lookup p = some ⟨b, mtime⟩ :=
  AList.lookup_insert d

theorem lookup_put_ne (h : r ≠ p) : (d.put p b mtime).lookup r = d.lookup r :=
  AList.lookup_insert_ne h

@[simp] theorem lookup_move_self : (d.move p q f).lookup q = some f :=
  AList.lookup_insert _

theorem lookup_move_ne (hq : r ≠ q) (hp : r ≠ p) : (d.move p q f).lookup r = d.lookup r :=
  (AList.lookup_insert_ne hq).trans (AList.lookup_erase_ne hp)

theorem lookup_move_source (h : p ≠ q) : (d.move p q f).lookup p = none :=
  (AList.lookup_insert_ne h).trans (AList.lookup_erase p d)

theorem lookup_openCurrent (h : p ≠ .current) : (d.openCurrent mtime).lookup p = d.lookup p := by
  unfold openCurrent
  split
  · rfl
  · exact lookup_put_ne h

theorem lookup_append_ne (h : p ≠ .current) : (d.append b mtime).lookup p = d.lookup p :=
  lookup_put_ne h

end Disk

namespace LogWorld

variable (w : LogWorld)

def onDisk (f : Disk → Disk) : LogWorld := { w with disk := f w.disk }

def enqueue (kind : RunState) (loggedAt : Int) (subject : EventSubject) (note : EventNote) :
    LogWorld :=
  { w with store := ((emit kind loggedAt subject note).run w.store).2 }

@[simp] theorem onDisk_disk (f : Disk → Disk) : (w.onDisk f).disk = f w.disk := rfl

@[simp] theorem onDisk_journal (f : Disk → Disk) : (w.onDisk f).journal = w.journal := rfl

def mark (eventId : Uuid) : LogWorld :=
  { w with
    store := ((markEventPublished eventId).run w.store).2
    published := w.published ++ w.store.eventOutbox.filter fun e => e.eventId = eventId }

def removeArchive (name : String) : LogWorld :=
  { w with
    disk := w.disk.erase (.archive name)
    removed := w.removed ++
      ((w.disk.bytes (.archive name)).map fun b => (LogPath.archive name, b)).toList }

end LogWorld

/-- The luck of a call. -/
structure LogLuck where
  /-- The call fails, with this error. -/
  fault : Option EventLogError := none
  /-- How many bytes of a write that fails have reached the file. -/
  kept : Nat := 0
  /-- What a compression that fails leaves in its target. -/
  torn : Option Bytes := none
  clock : Int := 0
  week : Int × Nat := (1970, 1)

/-- The world after the call: `w'`, or `w` when it fails. -/
def LogLuck.decide (l : LogLuck) (w w' : LogWorld) : Except EventLogError Unit × LogWorld :=
  match l.fault with
  | none => (.ok (), w')
  | some e => (.error e, w)

/-- Move a file, whose absence is an error. -/
def LogWorld.moveFile (w : LogWorld) (l : LogLuck) (p : LogPath) (f : File → LogWorld) :
    Except EventLogError Unit × LogWorld :=
  match w.disk.lookup p with
  | some file => l.decide w (f file)
  | none => (.error (.io "No such file or directory (os error 2)"), w)

/-- How the calls are answered.  Reads see what is there; everything else
may fail. -/
def logAnswer (x : LogCodec) : {β : Type} → LogCall β → LogLuck → LogWorld → β × LogWorld
  | _, .pendingEvents limit, _, w =>
    (.ok ((w.store.pendingEvents limit).map fun e => (e.eventId, x.toStr e)), w)
  | _, .markEventPublished eventId, l, w => l.decide w (w.mark eventId)
  | _, .enqueueEvent kind note, l, w => l.decide w (w.enqueue kind l.clock {} note)
  | _, .rotationJournal, _, w => (.ok w.journal, w)
  | _, .setRotationJournal journal, l, w => l.decide w { w with journal := some journal }
  | _, .clearRotationJournal, l, w => l.decide w { w with journal := none }
  | _, .now, l, w => (l.clock, w)
  | _, .isoWeek, l, w => (l.week, w)
  | _, .metadata p, _, w => ((w.disk.bytes p).map List.length, w)
  | _, .read p, _, w => (w.disk.bytes p, w)
  | _, .openCurrent, l, w => l.decide w (w.onDisk (·.openCurrent l.clock))
  | _, .write bytes, l, w =>
    match l.fault with
    | none => (.ok (), w.onDisk (·.append bytes l.clock))
    | some e => (.error e, w.onDisk (·.append (bytes.take l.kept) l.clock))
  | _, .sync, l, w => l.decide w w
  | _, .createArchiveDir, l, w => l.decide w w
  | _, .rename p q, l, w => w.moveFile l p fun f => w.onDisk (·.move p q f)
  | _, .gzip p q, l, w =>
    match w.disk.lookup p, l.fault with
    | some f, none => (.ok (), w.onDisk (·.put q (x.compress f.bytes) l.clock))
    | some _, some e =>
      (.error e, w.onDisk fun d => l.torn.elim d fun b => d.put q b l.clock)
    | none, _ => (.error (.io "No such file or directory (os error 2)"), w)
  | _, .remove p, l, w =>
    match l.fault with
    | none => (.ok (w.disk.lookup p).isSome, w.onDisk (·.erase p))
    | some e => (.error e, w)
  | _, .readDir, l, w =>
    match l.fault with
    | none => (.ok (w.disk.entries.filterMap fun
        | ⟨.archive name, f⟩ => some (name, f)
        | _ => none), w)
    | some e => (.error e, w)
  | _, .removeArchive name, l, w => w.moveFile l (.archive name) fun _ => w.removeArchive name

/-! ### Runs -/

/-- The world, and the thread of the process that holds the lease: it is at
its end when nobody does. -/
structure LogState where
  world : LogWorld
  leader : Thread LogCall Unit

inductive LogStep where
  /-- Some process enqueues an event. -/
  | enqueue (kind : RunState) (loggedAt : Int) (subject : EventSubject) (note : EventNote)
  /-- Some process opens the log. -/
  | openLog (clock : Int)
  /-- A process gets the lease. -/
  | elect (job : LogJob)
  /-- The leader makes its next call. -/
  | call (luck : LogLuck)
  /-- The leader's process dies. -/
  | crash

/-- One step; none if it cannot be taken. -/
def logNext (x : LogCodec) (cfg : EventLogConfig) (s : LogState) : LogStep → Option LogState
  | .enqueue kind loggedAt subject note =>
    some { s with world := s.world.enqueue kind loggedAt subject note }
  | .openLog clock => some { s with world := s.world.onDisk (·.openCurrent clock) }
  | .elect job =>
    match s.leader with
    | .ret _ => some { s with leader := job.thread x cfg }
    | .call _ _ => none
  | .call luck =>
    match s.leader with
    | .ret _ => none
    | .call e k =>
      some { world := (logAnswer x e luck s.world).2, leader := k (logAnswer x e luck s.world).1 }
  | .crash => some { s with leader := .ret () }

/-- The publishers of a data directory, over any number of processes and
crashes. -/
def logSystem (x : LogCodec) (cfg : EventLogConfig) : System LogState LogStep where
  init s := s.leader = .ret () ∧ s.world.store.eventOutbox = [] ∧ s.world.journal = none ∧
    s.world.disk = ∅ ∧ s.world.published = [] ∧ s.world.removed = []
  step s i t := logNext x cfg s i = some t

/-! ### Sample runs -/

section Sample

/-- A log that no rotation is made of. -/
def EventLogConfig.roomy : EventLogConfig where
  logsDir := "logs"
  retention := 0
  maxCurrentBytes := 1048576
  budgetBytes := 1048576

def LogState.start : LogState := ⟨{ store := {} }, .ret ()⟩

theorem LogState.start_init (x : LogCodec) (cfg : EventLogConfig) :
    (logSystem x cfg).init LogState.start :=
  ⟨rfl, rfl, rfl, rfl, rfl, rfl⟩

/-- The steps that can be taken, one after the other. -/
def LogState.after (x : LogCodec) (cfg : EventLogConfig) (steps : List LogStep) : LogState :=
  steps.foldl (fun s i => (logNext x cfg s i).getD s) LogState.start

theorem run_after (x : LogCodec) (cfg : EventLogConfig) (steps : List LogStep) :
    (logSystem x cfg).Run LogState.start (System.traceEnabled (logNext x cfg) LogState.start steps)
      (LogState.after x cfg steps) :=
  System.run_traceEnabled (fun _ _ _ h => h) LogState.start steps

def LogStep.event : LogStep := .enqueue .pruned 0 {} {}

/-- A publish cycle whose calls all succeed. -/
def LogStep.smoothCycle : List LogStep := .elect .cycle :: List.replicate 9 (.call {})

end Sample

end Bellman
