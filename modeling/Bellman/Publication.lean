/-
Bellman/Publication.lean

The publication of fire notifications.

A fire stores one transport projection for its run: where the notification
goes, what it says, and its place in the database-wide publication order.
From then on the projection is worked on by *attempts* (of the fire itself,
of the pump, of the reconciler) and by *pickups*, which run in several
threads and processes.  Each is a program here, written as in the source,
that makes one store access, one file access or one lock operation at a
time; the threads are interleaved with one another, with the commits of the
daemon, and with the apps, which may take a file away at any moment.

The calls of the store are single statements: what they do to the rows is
said once (`updateProjection`), with the guard on the state that each of
them has.
-/
import Bellman.Lib.Thread
import Bellman.Story

namespace Bellman

open ProgramLogic
open TransportProjection (PENDING PUBLISHED OBSOLETE PICKED_UP KIND_FILE KIND_IPC)

/-! ### Notifications -/

/-- A fire notification for one run of one timer. -/
structure FireNotification where
  schema : String
  kind : String
  occurrenceKind : String
  timerId : Uuid
  timerName : String
  appName : String
  runId : Uuid
  scheduledFor : Int
  firedAt : Int
  statusPath : String
  replyPath : Option String
  ipc : Option String

/-- How notifications are written and read, and where run files are. -/
structure NotificationCodec where
  fromStr : String → Option FireNotification
  toStr : FireNotification → Option String
  toStrPretty : FireNotification → String
  /-- `<slots>/fires/fire-<run id>.json`. -/
  fireFile : Uuid → String
  /-- The reply stub of a run, in the folder of its timer. -/
  replyFile : String → Uuid → String

/-- The file name in a target path: its last component, without those that
name no step; none when that is `..`. -/
def targetFileName (target : String) : Option String :=
  match ((target.toList.splitOn '/').filter fun c => c ≠ [] ∧ c ≠ ['.']).getLast? with
  | some name => if name = ['.', '.'] then none else some (String.ofList name)
  | none => none

/-! ### Statements on projections -/

namespace TransportProjection

/-- Pending or published. -/
def isLive (p : TransportProjection) : Bool := p.state == PENDING || p.state == PUBLISHED

end TransportProjection

/-- Update the projection of a run if its state is one of these; how many
rows were changed. -/
def updateProjection (runId : Uuid) (states : List String)
    (f : TransportProjection → TransportProjection) : StoreM Nat :=
  modifyGet fun s =>
    let hit (p : TransportProjection) := p.runId = runId ∧ p.state ∈ states
    ((s.transportProjections.filter fun p => hit p).length,
      { s with transportProjections :=
          s.transportProjections.map fun p => if hit p then f p else p })

def markTransportPublished (runId : Uuid) (now : Int) : StoreM Unit := do
  let _ ← updateProjection runId [PENDING] fun p =>
    { p with state := PUBLISHED, publishedAt := some now }

def markTransportObsolete (runId : Uuid) : StoreM Unit := do
  let _ ← updateProjection runId [PENDING, PUBLISHED] fun p => { p with state := OBSOLETE }

def requeueTransportProjection (runId : Uuid) (now : Int) : StoreM Unit := do
  let _ ← updateProjection runId [PUBLISHED] fun p =>
    { p with state := PENDING, nextAttemptAt := now }

def deferTransportProjection (runId : Uuid) (attempts : Nat) (nextAttemptAt : Int) :
    StoreM Unit := do
  let _ ← updateProjection runId [PENDING] fun p => { p with attempts, nextAttemptAt }

def convertProjectionToFile (runId : Uuid) (targetPath payload : String) : StoreM Bool := do
  let n ← updateProjection runId [PENDING, PUBLISHED] fun p =>
    { p with kind := KIND_FILE, targetPath, payload, state := PENDING }
  return n == 1

def markTransportPickedUp (runId : Uuid) : StoreM Unit := do
  let _ ← updateProjection runId [PENDING, PUBLISHED] fun p => { p with state := PICKED_UP }

namespace Store

/-- The transport projection for one run. -/
def transportProjection (s : Store) (runId : Uuid) : Option TransportProjection :=
  s.transportProjections.find? (·.runId == runId)

/-- The durable cursor of a target path, 0 when never assigned. -/
def targetCursor (s : Store) (targetPath : String) : Nat :=
  ((s.targetCursors.find? (·.1 == targetPath)).map Prod.snd).getD 0

/-- In publication order. -/
def inOrder (ps : List TransportProjection) : List TransportProjection :=
  ps.mergeSort fun p q => p.publicationOrder ≤ q.publicationOrder

/-- Pending projections eligible for an attempt now. -/
def dueTransportProjections (s : Store) (now : Int) (limit : Nat) : List TransportProjection :=
  (inOrder (s.transportProjections.filter fun p =>
    p.state = PENDING ∧ p.nextAttemptAt ≤ now)).take limit

/-- All live projections, oldest first. -/
def liveTransportProjections (s : Store) (limit : Nat) : List TransportProjection :=
  (inOrder (s.transportProjections.filter (·.isLive))).take limit

/-- The live projections of a timer whose run has at most that sequence. -/
def liveProjectionsThrough (s : Store) (timerId : Uuid) (throughSequence : Nat) :
    List TransportProjection :=
  inOrder (s.transportProjections.filter fun p => p.timerId = timerId ∧ p.isLive = true ∧
    (s.getRun p.runId).any fun c => c.eventSequence ≤ throughSequence)

end Store

/-! ### Calls -/

/-- The store accesses of the publication code. -/
inductive StoreCall : Type → Type where
  | targetCursor (targetPath : String) : StoreCall Nat
  | transportProjection (runId : Uuid) : StoreCall (Option TransportProjection)
  | dueTransportProjections (now : Int) (limit : Nat) : StoreCall (List TransportProjection)
  | liveTransportProjections (limit : Nat) : StoreCall (List TransportProjection)
  | liveProjectionsThrough (timerId : Uuid) (throughSequence : Nat) :
      StoreCall (List TransportProjection)
  | getRunState (runId : Uuid) : StoreCall (Option RunStateRow)
  | getRun (runId : Uuid) : StoreCall (Option RunClaim)
  | getTimer (timerId : Uuid) : StoreCall (Option Timer)
  | lastAckedSequence (timerId : Uuid) : StoreCall Nat
  | markTransportPublished (runId : Uuid) (now : Int) : StoreCall Unit
  | markTransportObsolete (runId : Uuid) : StoreCall Unit
  | markTransportPickedUp (runId : Uuid) : StoreCall Unit
  | requeueTransportProjection (runId : Uuid) (now : Int) : StoreCall Unit
  | deferTransportProjection (runId : Uuid) (attempts : Nat) (nextAttemptAt : Int) : StoreCall Unit
  | convertProjectionToFile (runId : Uuid) (targetPath payload : String) : StoreCall Bool
  | setRunTransport (runId : Uuid) (transport : String) : StoreCall Unit

/-- The statement that a call runs. -/
def StoreCall.prog : {α : Type} → StoreCall α → StoreM α
  | _, targetCursor targetPath => do return (← get).targetCursor targetPath
  | _, transportProjection runId => do return (← get).transportProjection runId
  | _, dueTransportProjections now limit => do return (← get).dueTransportProjections now limit
  | _, liveTransportProjections limit => do return (← get).liveTransportProjections limit
  | _, liveProjectionsThrough timerId throughSequence => do
    return (← get).liveProjectionsThrough timerId throughSequence
  | _, getRunState runId => do return (← get).getRunState runId
  | _, getRun runId => do return (← get).getRun runId
  | _, getTimer timerId => do return (← get).getTimer timerId
  | _, lastAckedSequence timerId => do return (← get).lastAckedSequence timerId
  | _, markTransportPublished runId now => Bellman.markTransportPublished runId now
  | _, markTransportObsolete runId => Bellman.markTransportObsolete runId
  | _, markTransportPickedUp runId => Bellman.markTransportPickedUp runId
  | _, requeueTransportProjection runId now => Bellman.requeueTransportProjection runId now
  | _, deferTransportProjection runId attempts nextAttemptAt =>
    Bellman.deferTransportProjection runId attempts nextAttemptAt
  | _, convertProjectionToFile runId targetPath payload =>
    Bellman.convertProjectionToFile runId targetPath payload
  | _, setRunTransport runId transport => Bellman.setRunTransport runId transport

/-- The timer gate and the lock of a target.  In the source a lock is one
of a fixed set of shards, which only makes them coarser. -/
inductive Lock where
  | timer (id : Uuid)
  | target (path : String)
  deriving Repr, DecidableEq

inductive SendOutcome where
  | queued
  | noClient
  deriving Repr, DecidableEq

inductive FileRead where
  | missing
  | failed
  | bytes (content : String)

/-- The calls of the publication code.  A store access may fail; then its
answer is `none` and nothing has changed. -/
inductive PubCall : Type → Type 1 where
  | store {α : Type} (c : StoreCall α) : PubCall (Option α)
  | now : PubCall Int
  | fileExists (path : String) : PubCall Bool
  | readFile (path : String) : PubCall FileRead
  | writeTarget (proj : TransportProjection) (n : FireNotification) : PubCall Bool
  | removeFile (path : String) : PubCall Unit
  | lock (l : Lock) : PubCall Bool
  | unlock (l : Lock) : PubCall Unit
  /-- The payload of a projection, to the clients that hold its timer. -/
  | send (proj : TransportProjection) : PubCall SendOutcome
  | hasClient (timerId : Uuid) : PubCall Bool
  | folderFor (timerId : Uuid) : PubCall (Option String)
  | createReplyStub (folder : String) (runId : Uuid) (appName : String) : PubCall Bool
  | writeStatus (timerId : Uuid) : PubCall Unit

abbrev PubM (α : Type) : Type 1 := Thread PubCall α

def ask {α : Type} (c : PubCall α) : PubM α := Thread.perform c

def onDb {α : Type} (c : StoreCall α) : PubM (Option α) := ask (.store c)

/-! ### Attempts -/

def MAX_BACKOFF_SECS : Nat := 60
def MAX_ATTEMPTS : Nat := 16

/-- What one publication attempt decided. -/
inductive Attempt where
  | published
  | deferred
  | obsolete
  deriving Repr, DecidableEq

/-- Pickup, read off the lifecycle row. -/
def hasPickupSignal (row : RunStateRow) : Bool :=
  row.acknowledgedAt.isSome || row.heartbeatAt.isSome || row.completedAt.isSome ||
    row.failedAt.isSome || row.progress.isSome

def markObsolete (proj : TransportProjection) : PubM Attempt := do
  let _ ← onDb (.markTransportObsolete proj.runId)
  return .obsolete

def defer (proj : TransportProjection) : PubM Attempt := do
  let attempts := min (proj.attempts + 1) (2 ^ 32 - 1)
  if attempts > MAX_ATTEMPTS then markObsolete proj
  else
    let secs := min (2 ^ min attempts 6) MAX_BACKOFF_SECS
    let now ← ask .now
    let _ ← onDb (.deferTransportProjection proj.runId attempts (now + secs * NS))
    return .deferred

/-- Run `body` under a lock; `failed` when the lock file cannot be had. -/
def withLock {α : Type} (l : Lock) (failed body : PubM α) : PubM α := do
  if ← ask (.lock l) then
    let a ← body
    ask (.unlock l)
    return a
  else failed

def writeTarget (proj : TransportProjection) (n : FireNotification) : PubM Attempt := do
  if (targetFileName proj.targetPath).isNone then markObsolete proj
  else if ← ask (.writeTarget proj n) then
    let now ← ask .now
    let _ ← onDb (.markTransportPublished proj.runId now)
    return .published
  else defer proj

/-- `record_pickup`: compare before delete, under the publisher lock. -/
def recordPickup (x : NotificationCodec) (proj : TransportProjection) : PubM Unit := do
  let _ ← onDb (.markTransportPickedUp proj.runId)
  if ← ask (.fileExists proj.targetPath) then
    withLock (.timer proj.timerId) (return ()) <| withLock (.target proj.targetPath) (return ()) do
      match ← ask (.readFile proj.targetPath) with
      | .bytes content =>
        if (x.fromStr content).any fun cur => cur.runId ≠ proj.runId then return ()
        else ask (.removeFile proj.targetPath)
      | _ => ask (.removeFile proj.targetPath)
  else return ()

/-- The file adapter of `attempt`. -/
def attemptFile (x : NotificationCodec) (proj : TransportProjection) (n : FireNotification) :
    PubM Attempt := do
  let replyMissing ← (match n.replyPath with
    | some p => do return !(← ask (.fileExists p))
    | none => return true : PubM Bool)
  let status ← ask (.fileExists n.statusPath)
  if !status || replyMissing then defer proj
  else
    withLock (.timer proj.timerId) (defer proj) <|
      withLock (.target proj.targetPath) (defer proj) do
        match ← ask (.readFile proj.targetPath) with
        | .missing => writeTarget proj n
        | .failed => defer proj
        | .bytes content =>
          match x.fromStr content with
          | some cur =>
            -- The same run suppresses the immediate rewrite.
            if cur.runId = proj.runId then defer proj
            else
              match ← onDb (.transportProjection cur.runId) with
              | some (some newer) =>
                if newer.publicationOrder > proj.publicationOrder then markObsolete proj
                else writeTarget proj n
              | _ => writeTarget proj n
          | none => writeTarget proj n

/-- `attempt_ipc`; the fallback is there when a server is. -/
def attemptIpc (x : NotificationCodec)
    (handle : Option (TransportProjection → FireNotification → PubM Attempt))
    (proj : TransportProjection) (n : FireNotification) : PubM Attempt := do
  if !(← ask (.fileExists n.statusPath)) then defer proj
  else
    let row ← onDb (.getRunState proj.runId)
    if row.any fun row => row.any hasPickupSignal then
      recordPickup x proj
      return .published
    else
      match handle with
      | none => defer proj
      | some ipcFallback =>
        match ← ask (.send proj) with
        | .queued =>
          let now ← ask .now
          let _ ← onDb (.markTransportPublished proj.runId now)
          return .published
        | .noClient =>
          let timer ← onDb (.getTimer proj.timerId)
          if timer.any fun timer => timer.any fun timer => timer.transport = .auto then
            ipcFallback proj n
          else defer proj

/-- `attempt`. -/
def attempt (x : NotificationCodec)
    (handle : Option (TransportProjection → FireNotification → PubM Attempt))
    (proj : TransportProjection) : PubM Attempt := do
  match x.fromStr proj.payload with
  | none => markObsolete proj
  | some n =>
    -- The cursor first.
    let cursor := (← onDb (.targetCursor proj.targetPath)).getD 0
    if cursor > proj.publicationOrder then markObsolete proj
    else if proj.kind = KIND_IPC then attemptIpc x handle proj n
    else attemptFile x proj n

/-- `ipc_fallback`: the same run through the file adapter. -/
def ipcFallback (x : NotificationCodec) (proj : TransportProjection) (n : FireNotification) :
    PubM Attempt := do
  let folder ← ask (.folderFor proj.timerId)
  let row ← onDb (.getRunState proj.runId)
  match folder, row with
  | some folder, some (some row) =>
    if ← ask (.createReplyStub folder proj.runId row.appName) then
      let m := { n with replyPath := some (x.replyFile folder proj.runId) }
      match x.toStr m with
      | none => defer proj
      | some payload =>
        match ← onDb (.convertProjectionToFile proj.runId (x.fireFile proj.runId) payload) with
        | some true =>
          let _ ← onDb (.setRunTransport proj.runId "ipc_fallback")
          ask (.writeStatus proj.timerId)
          match ← onDb (.transportProjection proj.runId) with
          | some (some converted) => attempt x none converted
          | _ => return .deferred
        | some false => return .published
        | none => defer proj
    else defer proj
  | _, _ => defer proj

/-- The fallback, when an IPC server is live. -/
def ipcHandle (x : NotificationCodec) (live : Bool) :
    Option (TransportProjection → FireNotification → PubM Attempt) :=
  if live then some (ipcFallback x) else none

/-! ### The pump and the pickups -/

/-- One projection of the pickup sweep. -/
def sweepOne (x : NotificationCodec) (live : Bool) (proj : TransportProjection) : PubM Unit := do
  match ← onDb (.getRun proj.runId) with
  | some (some claim) =>
    let acked := (← onDb (.lastAckedSequence proj.timerId)).any fun a => claim.eventSequence ≤ a
    let row ← onDb (.getRunState proj.runId)
    if acked || row.any fun row => row.any hasPickupSignal then recordPickup x proj
    else
      let again ← onDb (.getRunState proj.runId)
      if again.any fun row => row.any fun row => row.noAckAt.isSome then
        let _ ← markObsolete proj
      else
        let gone ← (if proj.kind = KIND_IPC ∧ proj.state = PUBLISHED then
            if live then do return !(← ask (.hasClient proj.timerId)) else return true
          else return false : PubM Bool)
        if gone then
          let timer ← onDb (.getTimer proj.timerId)
          if timer.any fun timer => timer.any fun timer => timer.transport = .auto then
            match x.fromStr proj.payload with
            | some n => let _ ← ipcFallback x proj n
            | none => return ()
          else
            let now ← ask .now
            let _ ← onDb (.requeueTransportProjection proj.runId now)
        else if proj.kind = KIND_FILE ∧ proj.state = PUBLISHED then
          if ← ask (.fileExists proj.targetPath) then return ()
          else
            let now ← ask .now
            let _ ← onDb (.requeueTransportProjection proj.runId now)
        else return ()
  | _ => return ()

/-- `sweep_pickups`. -/
def sweepPickups (x : NotificationCodec) (live : Bool) (limit : Nat) : PubM Unit := do
  match ← onDb (.liveTransportProjections limit) with
  | some ps => Thread.forEach (sweepOne x live) ps
  | none => return ()

/-- `pump`: attempt what is due, then sweep. -/
def pump (x : NotificationCodec) (live : Bool) (limit : Nat) : PubM Unit := do
  let now ← ask .now
  match ← onDb (.dueTransportProjections now limit) with
  | some due =>
    Thread.forEach (fun proj => do let _ ← attempt x (ipcHandle x live) proj) due
    sweepPickups x live limit
  | none => return ()

/-- `record_pickup_through`. -/
def recordPickupThrough (x : NotificationCodec) (timerId : Uuid) (throughSequence : Nat) :
    PubM Unit := do
  match ← onDb (.liveProjectionsThrough timerId throughSequence) with
  | some ps => Thread.forEach (recordPickup x) ps
  | none => return ()

/-- `record_run_pickup`. -/
def recordRunPickup (x : NotificationCodec) (runId : Uuid) : PubM Unit := do
  match ← onDb (.transportProjection runId) with
  | some (some p) =>
    if p.isLive then
      match ← onDb (.transportProjection runId) with
      | some (some proj) => recordPickup x proj
      | _ => return ()
    else return ()
  | _ => return ()

/-- `record_no_ack`. -/
def recordNoAck (runId : Uuid) : PubM Unit := do
  let _ ← onDb (.markTransportObsolete runId)

/-- The projection part of the reconciler, for the current run of a timer. -/
def reconcileProjection (x : NotificationCodec) (live : Bool) (runId : Uuid) : PubM Unit := do
  match ← onDb (.transportProjection runId) with
  | some (some proj) =>
    let now ← ask .now
    if proj.state = PENDING ∧ proj.nextAttemptAt ≤ now then
      let _ ← attempt x (ipcHandle x live) proj
    else if proj.kind = KIND_FILE ∧ proj.state = PUBLISHED then
      if ← ask (.fileExists proj.targetPath) then return ()
      else
        let _ ← onDb (.requeueTransportProjection proj.runId now)
        let _ ← attempt x (ipcHandle x live) proj
    else return ()
  | _ => return ()

/-- What threads are started for. -/
inductive PubJob where
  | pump (live : Bool) (limit : Nat)
  | reconcile (live : Bool) (runId : Uuid)
  | recordPickupThrough (timerId : Uuid) (throughSequence : Nat)
  | recordRunPickup (runId : Uuid)
  | recordNoAck (runId : Uuid)

def PubJob.thread (x : NotificationCodec) : PubJob → PubM Unit
  | pump live limit => Bellman.pump x live limit
  | reconcile live runId => reconcileProjection x live runId
  | recordPickupThrough timerId throughSequence =>
    Bellman.recordPickupThrough x timerId throughSequence
  | recordRunPickup runId => Bellman.recordRunPickup x runId
  | recordNoAck runId => Bellman.recordNoAck runId

/-! ### The system -/

/-- The store with the engine's memory, the files, and the locks held. -/
structure PubWorld where
  memory : ReplyState := {}
  files : String → Option String := fun _ => none
  locks : List Lock := []

/-- What the program does not decide: whether an operation fails, the
clock, and the clients at the socket. -/
structure Luck where
  fails : Bool := false
  clock : Int := 0
  sent : SendOutcome := .noClient
  connected : Bool := false
  folder : Option String := none

def PubWorld.withFile (w : PubWorld) (path : String) (content : Option String) : PubWorld :=
  { w with files := fun p => if p = path then content else w.files p }

/-- How a call is answered. -/
def PubCall.answer (x : NotificationCodec) : {α : Type} → PubCall α → Luck → PubWorld →
    Option (α × PubWorld)
  | _, store c, l, w =>
    if l.fails then some (none, w)
    else
      match c.prog.run w.memory.store with
      | (.ok a, s) => some (some a, { w with memory := { w.memory with store := s } })
      | (.error _, _) => some (none, w)
  | _, now, l, w => some (l.clock, w)
  | _, fileExists path, _, w => some ((w.files path).isSome, w)
  | _, readFile path, l, w =>
    if l.fails then some (.failed, w)
    else some (((w.files path).map FileRead.bytes).getD .missing, w)
  | _, writeTarget proj n, l, w =>
    if l.fails then some (false, w)
    else some (true, w.withFile proj.targetPath (some (x.toStrPretty n)))
  | _, removeFile path, l, w =>
    if l.fails then some ((), w) else some ((), w.withFile path none)
  | _, lock k, l, w =>
    if l.fails then some (false, w)
    else if k ∈ w.locks then none
    else some (true, { w with locks := k :: w.locks })
  | _, unlock k, _, w => some ((), { w with locks := w.locks.erase k })
  | _, send _, l, w => some (l.sent, w)
  | _, hasClient _, l, w => some (l.connected, w)
  | _, folderFor _, l, w => some (l.folder, w)
  | _, createReplyStub folder runId _, l, w =>
    if l.fails then some (false, w)
    else
      let path := x.replyFile folder runId
      some (true, w.withFile path (some ((w.files path).getD "")))
  | _, writeStatus _, _, w => some ((), w)

def pubMachine (x : NotificationCodec) : Machine PubCall PubWorld Luck where
  answer := PubCall.answer x

/-- The world and the threads at work. -/
structure Publication where
  world : PubWorld := {}
  threads : List (PubM Unit) := []

inductive PubStep where
  /-- A commit of the daemon, other than a fire. -/
  | commit (c : Commit)
  /-- A fire, under the gate of its timer, and its immediate attempt. -/
  | fire (f : Firing) (live : Bool)
  | start (job : PubJob)
  /-- A thread makes its next call. -/
  | call (i : Nat) (l : Luck)
  /-- An app takes a file away, or a file is written by somebody else. -/
  | disk (path : String) (content : Option String)
  | crash

section

variable [Calendar] (cfg : FireConfig) (x : NotificationCodec)

/-- The attempt of a fire on the projection that it has committed. -/
def firedThreads (f : Firing) (live : Bool) (r : ReplyState) : List (PubM Unit) :=
  match (fireTx cfg f).run r with
  | (.ok (claim, _), r') =>
    match r'.store.transportProjection claim.runId with
    | some proj => [do let _ ← attempt x (ipcHandle x live) proj]
    | none => []
  | _ => []

/-- One step of the publication. -/
def publicationNext (s : Publication) : PubStep → Option Publication
  | .commit c =>
    if c.claims then none
    else some { s with world := { s.world with memory := c.after cfg s.world.memory } }
  | .fire f live =>
    if .timer f.timer.id ∈ s.world.locks then none
    else some
      { world := { s.world with memory := Commit.after cfg (.fire f) s.world.memory }
        threads := s.threads ++ firedThreads cfg x f live s.world.memory }
  | .start job => some { s with threads := s.threads ++ [job.thread x] }
  | .call i l =>
    (Pool.next (pubMachine x) s.world s.threads i l).map fun next =>
      { world := next.1, threads := next.2 }
  | .disk path content => some { s with world := s.world.withFile path content }
  | .crash => some
      { world := { s.world with
          memory := Commit.crash.after cfg s.world.memory
          locks := [] } }

/-- The publication of notifications, from an empty database.  A fire has
read its timer under the gate. -/
def publication : System Publication PubStep where
  init s := s = {}
  step s i s' := publicationNext cfg x s i = some s' ∧
    ∀ f live, i = .fire f live → f.Gated s.world.memory.store

end

/-- The call that a step makes. -/
def madeCall (e : System.Event Publication PubStep) : Option (Sigma PubCall) :=
  match e.label with
  | .call i _ =>
    match e.pre.threads[i]? with
    | some (.call c _) => some ⟨_, c⟩
    | _ => none
  | _ => none

/-- The projection whose notification a step writes to its target. -/
def wrote (e : System.Event Publication PubStep) : Option TransportProjection :=
  match e.label with
  | .call i l =>
    match e.pre.threads[i]? with
    | some (.call (.writeTarget proj _) _) => if l.fails then none else some proj
    | _ => none
  | _ => none

end Bellman
