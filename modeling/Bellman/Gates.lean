/-
Bellman/Gates.lean

The gates: the locks between the processes, and the order they are taken in.

A timer has one of 256 gate shards, a publication target one of 64, and the
quarantine has a lock of its own.  The locks are files: whoever acquires one
waits until it is free, and waits for ever if it holds the lock itself, for
itself or for another timer of the shard.

Every operation that takes a gate is a program here, with all that decides
on a gate: what it reads of the store, what its transactions return, and
whether a lock file can be had.  What takes no lock and decides on none (the
projections into the timer folders, the texts of the artifacts) is left out;
what is found in files is left to chance.

The rule is that a timer's gate is taken first, and then the lock of a
target or of the quarantine, never two of one class.  One operation breaks
it.  A request to delete a timer holds the gate of the timer until it is
through, its ack hook takes the gate of the same timer, and only the look-up
before it keeps the two apart: the timer should be gone by then.

Main results: no step of a run breaks the rule, and no deadlock is reached,
exactly as long as no hook finds the timer whose gate its request holds
(`gates_disciplined_iff`); a delete that is delivered again after its timer
was added again does (`redelivered_delete_deadlocks`).
-/
import Bellman.Lib.Locking
import Bellman.Barrier
import Bellman.Publication
import Bellman.Processing

namespace Bellman

open ProgramLogic Prog Thread
open TransportProjection (PENDING PUBLISHED KIND_FILE)

/-! ### The locks -/

/-- A lock file: a shard of the timers, a shard of the targets, the
quarantine. -/
inductive Gate where
  | timer (shard : Nat)
  | target (shard : Nat)
  | quarantine
  deriving Repr, DecidableEq

def GATE_SHARDS : Nat := 256
def PUB_SHARDS : Nat := 64

/-- `shard_path`: the first byte of the id. -/
def Uuid.shard (id : Uuid) : Nat := id.n / 2 ^ 120 % GATE_SHARDS

/-- `target_shard_path`: a hash of the path. -/
def targetShard (target : String) : Nat :=
  (fnv1a64 target.toUTF8.toList).toNat % PUB_SHARDS

/-- The file of a lock. -/
def Lock.gate : Lock → Gate
  | timer id => .timer id.shard
  | target path => .target (targetShard path)

/-- The lock order: the gate of a timer before all others. -/
def Gate.rank : Gate → Nat
  | timer _ => 0
  | target _ | quarantine => 1

/-! ### The calls -/

/-- What a look at a reply file comes to. -/
inductive ReplyFound where
  | nothing
  | condemned (reason : String)
  | reply (doc : ReplyDocument) (digest : String)

/-- The calls of the operations. -/
inductive GateCall : Type → Type 1 where
  | pub {α : Type} (c : PubCall α) : GateCall α
  | lockQuarantine : GateCall Bool
  | unlockQuarantine : GateCall Unit
  /-- Work in the quarantine folder; whether an artifact was made. -/
  | quarantine : GateCall Bool
  | listTimers : GateCall (List Timer)
  /-- The latest claim of a timer. -/
  | currentClaim (timerId : Uuid) : GateCall (Option RunClaim)
  /-- A transaction, from what is in the store and on the two clocks. -/
  | commit (c : Store → Int → Int → Commit) : GateCall Unit
  | ingest (timer : Timer) (doc : ReplyDocument) (digest : String) :
      GateCall (Option IngestOutcome)
  /-- The reply files of a timer, with the run in the name of each. -/
  | replies (timerId : Uuid) : GateCall (List (Uuid × ReplyFound))
  | barrierRead (timer : Timer) (prev : Uuid) : GateCall ReplyFound
  /-- The transaction of a fire: its projection, and whether the reply of the
  barrier was rejected. -/
  | fireTx (f : Firing) : GateCall (Option (Option TransportProjection × Bool))
  | dueDeadlines : GateCall (List (Uuid × List (Uuid × DeadlineKind)))
  | execute (req : SlotRequest) (operation : SlotOperation) (requestId : String) :
      GateCall (Option SlotResponse)
  /-- The look-up of the timer in the ack hook. -/
  | hookTimer (timerId : Uuid) : GateCall (Option Timer)

abbrev GateM (α : Type) : Type 1 := Thread GateCall α

/-- The publication code among the operations. -/
def liftPub {α : Type} (m : PubM α) : GateM α := m.lift GateCall.pub

def askStore {α : Type} (c : StoreCall α) : GateM (Option α) := perform (.pub (.store c))

/-- Run `body` under the gate of a timer. -/
def withGate {α : Type} (timerId : Uuid) (failed body : GateM α) : GateM α :=
  bracket (.pub (.lock (.timer timerId))) (.pub (.unlock (.timer timerId))) failed body

/-- `quarantine_locked`. -/
def withQuarantine {α : Type} (failed body : GateM α) : GateM α :=
  bracket .lockQuarantine .unlockQuarantine failed body

/-! ### The operations -/

/-- `condemn_bytes`, `condemn_unread`: an artifact, and a log line for it if
it is new. -/
def condemn (timer : Timer) (runId : Uuid) (reason : String) : GateM Unit := do
  if ← withQuarantine (return false) (perform .quarantine) then
    perform (.commit fun _ now _ => .logRejection timer (some runId) reason now)
  else return ()

/-- `project_fire`: all under the gate but the attempt, which takes it
itself. -/
def fireUnderGate (x : NotificationCodec) (live : Bool) (f : Firing) : GateM Unit := do
  let proj ← withGate f.timer.id (return none) do
    match ← perform (.currentClaim f.timer.id) with
    | none =>
      match ← perform (.fireTx { f with barrier := none }) with
      | some (proj, _) => return proj
      | none => return none
    | some prev =>
      let barrier ← (do
        match ← perform (.barrierRead f.timer prev.runId) with
        | .reply doc digest => return some (doc, digest)
        | .condemned reason =>
          condemn f.timer prev.runId reason
          return none
        | .nothing => return none : GateM (Option (ReplyDocument × String)))
      match ← perform (.fireTx { f with barrier }) with
      | some (proj, rejected) =>
        if rejected then
          let _ ← withQuarantine (return false) (perform .quarantine)
          return proj
        else return proj
      | none => return none
  match proj with
  | some proj => liftPub do let _ ← attempt x (ipcHandle x live) proj
  | none => return ()

/-- One reply file in the scan. -/
def handleReply (timer : Timer) : Uuid × ReplyFound → GateM Unit
  | (_, .nothing) => return ()
  | (runId, .condemned reason) => condemn timer runId reason
  | (runId, .reply doc digest) => do
    match ← perform (.ingest timer doc digest) with
    | some (.rejected why) => condemn timer runId why.asStr
    | _ => return ()

/-- `poll_timer`. -/
def pollTimer (timer : Timer) : GateM Unit :=
  withGate timer.id (return ()) do forEach (handleReply timer) (← perform (.replies timer.id))

/-- One deadline of the sweep. -/
def expireOne (timer : Timer) : Uuid × DeadlineKind → GateM Unit
  | (runId, .pickup) => perform (.commit fun _ now _ => .expirePickup timer runId now)
  | (runId, .watchdog) => perform (.commit fun _ now mono => .expireWatchdog timer runId now mono)

/-- `expire_all_deadlines`: each timer under its own gate. -/
def expireAllDeadlines : GateM Unit := do
  forEach (fun due => withGate due.1 (return ()) do
    match ← askStore (.getTimer due.1) with
    | some (some timer) => forEach (expireOne timer) due.2
    | _ => return ()) (← perform .dueDeadlines)

/-- `poll_once`. -/
def pollOnce : GateM Unit := do
  forEach pollTimer (← perform .listTimers)
  expireAllDeadlines

/-- `handle_due_deadline`, past the look at the deadline book. -/
def handleDueDeadline (runId : Uuid) (kind : DeadlineKind) : GateM Unit := do
  match ← askStore (.getRunState runId) with
  | some (some row) =>
    match ← askStore (.getTimer row.timerId) with
    | some (some timer) => withGate timer.id (return ()) (expireOne timer (runId, kind))
    | _ => return ()
  | _ => return ()

/-- `handle_reply_frame`; bytes that do not parse are only logged. -/
def handleReplyFrame (timer : Timer) : Option (ReplyDocument × String) → GateM Unit
  | none => perform (.commit fun _ now _ => .logRejection timer none "invalid JSON" now)
  | some (doc, digest) =>
    withGate timer.id (return ()) do
      match ← perform (.ingest timer doc digest) with
      | some (.rejected why) =>
        perform (.commit fun _ now _ => .logRejection timer doc.runId why.asStr now)
      | _ => return ()

/-- `reconcile_timer`: the projection that is to be attempted. -/
def reconcileTimer (timer : Timer) : GateM (Option TransportProjection) :=
  withGate timer.id (return none) do
    match ← perform (.pub (.folderFor timer.id)) with
    | none => return none
    | some _ =>
      match ← perform (.currentClaim timer.id) with
      | none => return none
      | some claim =>
        match ← askStore (.getRunState claim.runId) with
        | some (some _) =>
          match ← askStore (.transportProjection claim.runId) with
          | some (some proj) =>
            let now ← perform (.pub .now)
            if proj.state = PENDING ∧ proj.nextAttemptAt ≤ now then return some proj
            else if proj.kind = KIND_FILE ∧ proj.state = PUBLISHED then
              if ← perform (.pub (.fileExists proj.targetPath)) then return none
              else
                let _ ← askStore (.requeueTransportProjection proj.runId now)
                return some proj
            else return none
          | _ => return none
        | _ => return none

/-- `reconcile`: the gate is released before the attempt. -/
def reconcile (x : NotificationCodec) (live : Bool) : GateM Unit := do
  forEach (fun timer => do
    match ← reconcileTimer timer with
    | some proj => liftPub do let _ ← attempt x (ipcHandle x live) proj
    | none => return ()) (← perform .listTimers)

/-- `startup_scan`. -/
def startupScan (x : NotificationCodec) (live : Bool) : GateM Unit := do
  pollOnce
  let _ ← withQuarantine (return false) (perform .quarantine)
  reconcile x live

/-- `rm`. -/
def removeByHand (timerId : Uuid) : GateM Unit := do
  match ← askStore (.getTimer timerId) with
  | some (some timer) =>
    withGate timer.id (return ()) do
      perform (.commit fun s now _ => .deleteTimerLifecycle timer (s.getTimerOwner timer.id) now)
  | _ => return ()

/-- The last part of `run_prune`: the retention of the quarantine. -/
def pruneQuarantine : GateM Unit := do
  let _ ← withQuarantine (return false) (perform .quarantine)

/-- `reply_ack_hook`. -/
def ackHook (timerId : Uuid) (through : Nat) : GateM Unit := do
  match ← perform (.hookTimer timerId) with
  | none => return ()
  | some timer =>
    withGate timerId (return ()) do
      perform (.commit fun _ now _ => .ackThrough timer through now)

section

variable [Wire]

/-- `process_work_file` from the transaction on. -/
def executeAndHook (hasTree : Bool) (req : SlotRequest) (operation : SlotOperation)
    (requestId : String) : GateM Unit := do
  match ← perform (.execute req operation requestId) with
  | none => return ()
  | some response =>
    if hasTree ∧ response.status = .ok then
      match req.acks with
      | some (timerId, through) => ackHook timerId through
      | none => return ()
    else return ()

/-- `process_work_file`: a delete takes the gate of the timer that it finds,
and holds it to the end. -/
def processWorkFile (hasTree : Bool) (slotId : String) (req : SlotRequest) : GateM Unit :=
  match req.identify slotId with
  | .error _ => return ()
  | .ok (requestId, operation) =>
    match if hasTree ∧ operation = .delete then req.names else none with
    | none => executeAndHook hasTree req operation requestId
    | some timerId => do
      match ← askStore (.getTimer timerId) with
      | some (some timer) =>
        withGate timer.id (return ()) (executeAndHook hasTree req operation requestId)
      | _ => executeAndHook hasTree req operation requestId

/-- What parties are started for. -/
inductive GateJob where
  | fire (f : Firing) (live : Bool)
  | publication (job : PubJob)
  | poll
  | deadline (runId : Uuid) (kind : DeadlineKind)
  | replyFrame (timer : Timer) (frame : Option (ReplyDocument × String))
  | reconcile (live : Bool)
  | startup (live : Bool)
  | slot (slotId : String) (req : SlotRequest)
  | rm (timerId : Uuid)
  | prune

def GateJob.thread (x : NotificationCodec) (hasTree : Bool) : GateJob → GateM Unit
  | fire f live => fireUnderGate x live f
  | publication job => liftPub (job.thread x)
  | poll => pollOnce
  | deadline runId kind => handleDueDeadline runId kind
  | replyFrame timer frame => handleReplyFrame timer frame
  | reconcile live => Bellman.reconcile x live
  | startup live => startupScan x live
  | slot slotId req => processWorkFile hasTree slotId req
  | rm timerId => removeByHand timerId
  | prune => pruneQuarantine

/-! ### The system -/

/-- The store with the memory of the engine, the table of slot requests, and
the files. -/
structure GateWorld where
  pub : PubWorld := {}
  slotRequests : List SlotRequestRecord := []

/-- What the programs do not decide. -/
structure GateLuck extends Luck where
  mono : Int := 0
  found : ReplyFound := .nothing
  replies : List (Uuid × ReplyFound) := []
  rejected : Bool := false
  created : Bool := false
  due : List (Uuid × List (Uuid × DeadlineKind)) := []

namespace GateWorld

def memory (w : GateWorld) : ReplyState := w.pub.memory

def store (w : GateWorld) : Store := w.pub.memory.store

def put (w : GateWorld) (memory : ReplyState) : GateWorld :=
  { w with pub := { w.pub with memory } }

/-- The database. -/
def db (w : GateWorld) : SlotStore := ⟨w.store, w.slotRequests⟩

def putDb (w : GateWorld) (db : SlotStore) : GateWorld :=
  { w.put { w.memory with store := db.store } with slotRequests := db.slotRequests }

end GateWorld

variable [Calendar]

/-- How a call is answered.  Locks are granted by the crowd; here it is only
said whether the file can be had. -/
def GateCall.answer (cfg : FireConfig) (x : NotificationCodec) (maxEvents : Nat) :
    {α : Type} → GateCall α → GateLuck → GateWorld → Option (α × GateWorld)
  | _, .pub (.lock _), l, w => some (!l.fails, w)
  | _, .pub (.unlock _), _, w => some ((), w)
  | _, .pub c, l, w => (c.answer x l.toLuck w.pub).map fun out => (out.1, { w with pub := out.2 })
  | _, .lockQuarantine, l, w => some (!l.fails, w)
  | _, .unlockQuarantine, _, w => some ((), w)
  | _, .quarantine, l, w => some (l.created, w)
  | _, .listTimers, l, w => some (if l.fails then [] else w.store.listTimers, w)
  | _, .currentClaim timerId, l, w =>
    some (if l.fails then none else (w.store.runsForTimer timerId).getLast?, w)
  | _, .commit c, l, w =>
    some ((), if l.fails then w else w.put ((c w.store l.clock l.mono).after cfg w.memory))
  | _, .ingest timer doc digest, l, w =>
    match (Bellman.ingest cfg.reply timer doc digest l.clock l.mono l.clock).run w.memory with
    | (.ok out, r) => some (some out, w.put r)
    | (.error _, r) => some (none, w.put r)
  | _, .replies _, l, w => some (l.replies, w)
  | _, .barrierRead _ _, l, w => some (l.found, w)
  | _, .fireTx f, l, w =>
    let fired : ReplyM (RunClaim × Option Uuid) := do Bellman.fireTx cfg (← f.prepare)
    match fired.run w.memory with
    | (.ok (claim, _), r) =>
      some (some (r.store.transportProjection claim.runId, l.rejected), w.put r)
    | (.error _, r) => some (none, w.put r)
  | _, .dueDeadlines, l, w => some (l.due, w)
  | _, .execute req operation requestId, l, w =>
    match (executeRequest req operation requestId maxEvents l.clock).run w.db with
    | (.ok row, db) => some (some row.response, w.putDb db)
    | (.error _, db) => some (none, w.putDb db)
  | _, .hookTimer timerId, l, w =>
    some (if l.fails then none else w.store.getTimer timerId, w)

def gateMachine (cfg : FireConfig) (x : NotificationCodec) (maxEvents : Nat) :
    Machine GateCall GateWorld GateLuck where
  answer := GateCall.answer cfg x maxEvents

end

def PubCall.lockOp : {α : Type} → PubCall α → LockOp Gate α
  | _, lock l => .acquire l.gate id
  | _, unlock l => .release l.gate
  | _, _ => .none

def GateCall.lockOp : {α : Type} → GateCall α → LockOp Gate α
  | _, pub c => c.lockOp
  | _, lockQuarantine => .acquire .quarantine id
  | _, unlockQuarantine => .release .quarantine
  | _, _ => .none

/-- The locks, as the operations use them. -/
def gates : Locks GateCall Gate where
  op := GateCall.lockOp
  rank := Gate.rank

abbrev Gating := Crowd GateCall Gate GateWorld

inductive GateStep where
  /-- A commit of any process. -/
  | commit (c : Commit)
  /-- A file is written or taken away by somebody else. -/
  | disk (path : String) (content : Option String)
  | start (job : GateJob)
  /-- A party makes its next call. -/
  | call (i : Nat) (l : GateLuck)
  /-- A party comes to its end before its time; its locks are released. -/
  | die (i : Nat)

section

variable [Wire] [Calendar] (cfg : FireConfig) (x : NotificationCodec) (maxEvents : Nat)
  (hasTree : Bool)

def gatesNext (s : Gating) : GateStep → Option Gating
  | .commit c => some { s with world := s.world.put (c.after cfg s.world.memory) }
  | .disk path content =>
    some { s with world := { s.world with pub := s.world.pub.withFile path content } }
  | .start job => some { s with parties := s.parties ++ [{ todo := job.thread x hasTree }] }
  | .call i l => s.call gates (gateMachine cfg x maxEvents) i l
  | .die i => some { s with parties := s.parties.eraseIdx i }

/-- The operations of all processes, in any order. -/
def gating : System Gating GateStep where
  init s := s = { world := {} }
  step s i s' := gatesNext cfg x maxEvents hasTree s i = some s'

end

/-- The step is an ack hook that finds its timer, under a gate that covers
the timer and is held by the request itself. -/
def findsHeld (e : System.Event Gating GateStep) : Bool :=
  match e.label with
  | .call i l =>
    match e.pre.parties[i]? with
    | some ⟨.call (.hookTimer timerId) _, held⟩ =>
      !l.fails && held.contains (.timer timerId.shard) &&
        (e.pre.world.store.getTimer timerId).isSome
    | _ => false
  | _ => false

/-! ### The publication keeps the order -/

/-- The locks of the publication code. -/
def pubGates : Locks PubCall Gate where
  op := PubCall.lockOp
  rank := Gate.rank

/-- From these locks to the same, in order, whatever is answered. -/
def PubKeeps {α : Type} (held : List Gate) (m : PubM α) : Prop :=
  m.Orderly pubGates (fun _ _ => True) (fun _ _ _ _ => True) held held

section Publication

variable {α β : Type} {x : NotificationCodec} {proj : TransportProjection}
  {n : FireNotification} {held : List Gate}

theorem pubKeeps_ask {e : PubCall β} (he : e.lockOp = .none) : PubKeeps held (Bellman.ask e) :=
  orderly_perform he fun _ => trivial

theorem pubKeeps_pure (a : α) : PubKeeps held (pure a) := rfl

theorem PubKeeps.bind {m : PubM α} {f : α → PubM β} (hm : PubKeeps held m)
    (hf : ∀ a, PubKeeps held (f a)) : PubKeeps held (m >>= f) :=
  Orderly.bind hm hf

theorem PubKeeps.ite {c : Prop} [Decidable c] {m m' : PubM α} (hm : PubKeeps held m)
    (hm' : PubKeeps held m') : PubKeeps held (if c then m else m') :=
  Orderly.ite (fun _ => hm) fun _ => hm'

theorem PubKeeps.withLock {l : Lock} {failed body : PubM α}
    (hrank : ∀ h ∈ held, h.rank < l.gate.rank) (hfailed : PubKeeps held failed)
    (hbody : PubKeeps (l.gate :: held) body) : PubKeeps held (Bellman.withLock l failed body) :=
  Orderly.bracket rfl rfl (fun _ _ => trivial) (fun _ _ => trivial) hrank hfailed hbody

/-- **The gate, then the lock of the target.** -/
theorem PubKeeps.withBoth {timerId : Uuid} {target : String} {failed failed' body : PubM α}
    (hfailed : PubKeeps [] failed)
    (hfailed' : PubKeeps [(Lock.timer timerId).gate] failed')
    (hbody : PubKeeps [(Lock.target target).gate, (Lock.timer timerId).gate] body) :
    PubKeeps [] (Bellman.withLock (.timer timerId) failed
      (Bellman.withLock (.target target) failed' body)) := by
  refine PubKeeps.withLock (by simp) hfailed (PubKeeps.withLock ?_ hfailed' hbody)
  intro h hh
  obtain rfl := List.mem_singleton.mp hh
  exact Nat.zero_lt_one

theorem markObsolete_keeps : PubKeeps held (markObsolete proj) :=
  (pubKeeps_ask rfl).bind fun _ => pubKeeps_pure _

theorem defer_keeps : PubKeeps held (defer proj) :=
  .ite markObsolete_keeps <|
    (pubKeeps_ask rfl).bind fun _ => (pubKeeps_ask rfl).bind fun _ => pubKeeps_pure _

theorem writeTarget_keeps : PubKeeps held (writeTarget proj n) := by
  refine .ite markObsolete_keeps ((pubKeeps_ask rfl).bind fun _ => .ite ?_ defer_keeps)
  exact (pubKeeps_ask rfl).bind fun _ => (pubKeeps_ask rfl).bind fun _ => pubKeeps_pure _

theorem recordPickup_keeps : PubKeeps [] (recordPickup x proj) := by
  refine (pubKeeps_ask rfl).bind fun _ => (pubKeeps_ask rfl).bind fun _ =>
    .ite ?_ (pubKeeps_pure _)
  apply PubKeeps.withBoth (pubKeeps_pure _) (pubKeeps_pure _)
  refine (pubKeeps_ask rfl).bind fun b => ?_
  split
  · exact .ite (pubKeeps_pure _) (pubKeeps_ask rfl)
  · exact pubKeeps_ask rfl

theorem attemptFile_keeps : PubKeeps [] (attemptFile x proj n) := by
  refine PubKeeps.bind ?_ fun missing => (pubKeeps_ask rfl).bind fun status =>
    .ite defer_keeps ?_
  · split
    · exact (pubKeeps_ask rfl).bind fun _ => pubKeeps_pure _
    · exact pubKeeps_pure _
  apply PubKeeps.withBoth defer_keeps defer_keeps
  refine (pubKeeps_ask rfl).bind fun b => ?_
  split
  · exact writeTarget_keeps
  · exact defer_keeps
  · split
    · refine .ite defer_keeps ((pubKeeps_ask rfl).bind fun newer => ?_)
      split
      · exact .ite markObsolete_keeps writeTarget_keeps
      · exact writeTarget_keeps
    · exact writeTarget_keeps

/-- The fallback is called with no lock held. -/
def FallbackKeeps
    (handle : Option (TransportProjection → FireNotification → PubM Attempt)) : Prop :=
  ∀ fallback, handle = some fallback → ∀ proj n, PubKeeps [] (fallback proj n)

theorem attemptIpc_keeps {handle : Option (TransportProjection → FireNotification → PubM Attempt)}
    (hh : FallbackKeeps handle) : PubKeeps [] (attemptIpc x handle proj n) := by
  refine (pubKeeps_ask rfl).bind fun status => .ite defer_keeps ?_
  refine (pubKeeps_ask rfl).bind fun row =>
    .ite (recordPickup_keeps.bind fun _ => pubKeeps_pure _) ?_
  cases handle with
  | none => exact defer_keeps
  | some fallback =>
    refine (pubKeeps_ask rfl).bind fun out => ?_
    split
    · exact (pubKeeps_ask rfl).bind fun _ => (pubKeeps_ask rfl).bind fun _ => pubKeeps_pure _
    · exact (pubKeeps_ask rfl).bind fun _ => .ite (hh fallback rfl proj n) defer_keeps

theorem attempt_keeps {handle : Option (TransportProjection → FireNotification → PubM Attempt)}
    (hh : FallbackKeeps handle) : PubKeeps [] (attempt x handle proj) := by
  unfold attempt
  split
  · exact markObsolete_keeps
  · exact (pubKeeps_ask rfl).bind fun _ => .ite markObsolete_keeps
      (.ite (attemptIpc_keeps hh) attemptFile_keeps)

theorem ipcFallback_keeps : PubKeeps [] (ipcFallback x proj n) := by
  refine (pubKeeps_ask rfl).bind fun folder => (pubKeeps_ask rfl).bind fun row => ?_
  split
  · refine (pubKeeps_ask rfl).bind fun _ => .ite ?_ defer_keeps
    dsimp only
    split
    · exact defer_keeps
    · refine (pubKeeps_ask rfl).bind fun done => ?_
      split
      · refine (pubKeeps_ask rfl).bind fun _ => (pubKeeps_ask rfl).bind fun _ =>
          (pubKeeps_ask rfl).bind fun conv => ?_
        split
        · exact attempt_keeps fun _ h => by cases h
        · exact pubKeeps_pure _
      · exact pubKeeps_pure _
      · exact defer_keeps
  · exact defer_keeps

theorem ipcHandle_keeps (live : Bool) : FallbackKeeps (ipcHandle x live) := by
  intro fallback h proj n
  cases live with
  | true =>
    obtain rfl := Option.some.inj h
    exact ipcFallback_keeps
  | false => cases h

theorem attempted_keeps (live : Bool) (proj : TransportProjection) :
    PubKeeps [] (do let _ ← attempt x (ipcHandle x live) proj : PubM Unit) :=
  (attempt_keeps (ipcHandle_keeps live)).bind fun _ => pubKeeps_pure _

theorem sweepOne_keeps (live : Bool) : PubKeeps [] (sweepOne x live proj) := by
  refine (pubKeeps_ask rfl).bind fun claim => ?_
  split
  · refine (pubKeeps_ask rfl).bind fun acked => (pubKeeps_ask rfl).bind fun row =>
      .ite recordPickup_keeps ?_
    refine (pubKeeps_ask rfl).bind fun again =>
      .ite (markObsolete_keeps.bind fun _ => pubKeeps_pure _) ?_
    refine PubKeeps.bind ?_ fun gone => .ite ?_ (.ite ?_ (pubKeeps_pure _))
    · exact .ite (.ite ((pubKeeps_ask rfl).bind fun _ => pubKeeps_pure _) (pubKeeps_pure _))
        (pubKeeps_pure _)
    · refine (pubKeeps_ask rfl).bind fun timer => .ite ?_ ?_
      · split
        · exact ipcFallback_keeps.bind fun _ => pubKeeps_pure _
        · exact pubKeeps_pure _
      · exact (pubKeeps_ask rfl).bind fun _ => (pubKeeps_ask rfl).bind fun _ => pubKeeps_pure _
    · refine (pubKeeps_ask rfl).bind fun there => .ite (pubKeeps_pure _) ?_
      exact (pubKeeps_ask rfl).bind fun _ => (pubKeeps_ask rfl).bind fun _ => pubKeeps_pure _
  · exact pubKeeps_pure _

/-- **Attempts, pickups, the pump**: no lock is held before or after. -/
theorem PubJob.keeps (job : PubJob) : PubKeeps [] (job.thread x) := by
  cases job with
  | pump live limit =>
    refine (pubKeeps_ask rfl).bind fun now => (pubKeeps_ask rfl).bind fun due => ?_
    split
    · refine PubKeeps.bind (Orderly.forEach fun proj _ => attempted_keeps live proj) fun _ =>
        (pubKeeps_ask rfl).bind fun ps => ?_
      split
      · exact Orderly.forEach fun proj _ => sweepOne_keeps live
      · exact pubKeeps_pure _
    · exact pubKeeps_pure _
  | reconcile live runId =>
    refine (pubKeeps_ask rfl).bind fun p => ?_
    split
    · refine (pubKeeps_ask rfl).bind fun now =>
        .ite (attempted_keeps live _) (.ite ?_ (pubKeeps_pure _))
      exact (pubKeeps_ask rfl).bind fun there => .ite (pubKeeps_pure _)
        ((pubKeeps_ask rfl).bind fun _ => attempted_keeps live _)
    · exact pubKeeps_pure _
  | recordPickupThrough timerId throughSequence =>
    refine (pubKeeps_ask rfl).bind fun ps => ?_
    split
    · exact Orderly.forEach fun proj _ => recordPickup_keeps
    · exact pubKeeps_pure _
  | recordRunPickup runId =>
    refine (pubKeeps_ask rfl).bind fun p => ?_
    split
    · refine .ite ((pubKeeps_ask rfl).bind fun q => ?_) (pubKeeps_pure _)
      split
      · exact recordPickup_keeps
      · exact pubKeeps_pure _
    · exact pubKeeps_pure _
  | recordNoAck runId => exact (pubKeeps_ask rfl).bind fun _ => pubKeeps_pure _

end Publication

/-! ### The operations keep the order -/

/-- What can be answered: a row is found under its own id. -/
def GateCall.Possible : {β : Type} → GateCall β → β → Prop
  | _, .pub (.store (.getTimer timerId)), found => ∀ timer, found = some (some timer) →
    timer.id = timerId
  | _, _, _ => True

/-- A hook that is held by the gate of its timer finds no timer. -/
def HookMeets (held : List Gate) : {β : Type} → GateCall β → β → Prop
  | _, .hookTimer timerId, found => .timer timerId.shard ∈ held → found = none
  | _, _, _ => True

/-- A call that works on no lock, and is not the look-up of the hook. -/
def GateCall.isPlain : {β : Type} → GateCall β → Bool
  | _, .pub (.lock _) | _, .pub (.unlock _) | _, .lockQuarantine | _, .unlockQuarantine |
    _, .hookTimer _ => false
  | _, _ => true

/-- From these locks to the same, in order, as long as the hooks meet their
condition. -/
def GateKeeps {α : Type} (held : List Gate) (m : GateM α) : Prop :=
  m.Orderly gates GateCall.Possible HookMeets held held

section Operations

variable {α β : Type} {x : NotificationCodec} {held : List Gate} {timer : Timer}

theorem gateKeeps_perform {e : GateCall β} (he : e.isPlain = true) :
    GateKeeps held (perform e) := by
  apply orderly_perform
  · cases e with
    | pub c =>
      cases c with
      | lock l => cases he
      | unlock l => cases he
      | _ => rfl
    | lockQuarantine => cases he
    | unlockQuarantine => cases he
    | _ => rfl
  · intro b
    cases e with
    | hookTimer timerId => cases he
    | _ => trivial

theorem gateKeeps_pure (a : α) : GateKeeps held (pure a) := rfl

theorem GateKeeps.bind {m : GateM α} {f : α → GateM β} (hm : GateKeeps held m)
    (hf : ∀ a, GateKeeps held (f a)) : GateKeeps held (m >>= f) :=
  Orderly.bind hm hf

theorem GateKeeps.ite {c : Prop} [Decidable c] {m m' : GateM α} (hm : GateKeeps held m)
    (hm' : GateKeeps held m') : GateKeeps held (if c then m else m') :=
  Orderly.ite (fun _ => hm) fun _ => hm'

theorem liftPub_keeps {m : PubM α} (h : PubKeeps held m) : GateKeeps held (liftPub m) :=
  Orderly.lift h (fun _ => rfl) rfl (fun _ _ _ => trivial) fun _ _ _ _ => Iff.rfl

theorem askStore_keeps (c : StoreCall α) : GateKeeps held (askStore c) :=
  gateKeeps_perform rfl

/-- The gate of a timer is taken first. -/
theorem withGate_keeps {timerId : Uuid} {failed body : GateM α} (hfailed : GateKeeps [] failed)
    (hbody : GateKeeps [.timer timerId.shard] body) :
    GateKeeps [] (withGate timerId failed body) :=
  Orderly.bracket rfl rfl (fun _ _ => trivial) (fun _ _ => trivial) (by simp) hfailed hbody

/-- The lock of the quarantine comes after it. -/
theorem withQuarantine_keeps {shards : List Nat} {failed body : GateM α}
    (hfailed : GateKeeps (shards.map .timer) failed)
    (hbody : GateKeeps (.quarantine :: shards.map .timer) body) :
    GateKeeps (shards.map .timer) (withQuarantine failed body) := by
  refine Orderly.bracket rfl rfl (fun _ _ => trivial) (fun _ _ => trivial) ?_ hfailed hbody
  intro h hh
  obtain ⟨shard, -, rfl⟩ := List.mem_map.mp hh
  exact Nat.zero_lt_one

theorem quarantine_keeps (shards : List Nat) :
    GateKeeps (shards.map .timer) (withQuarantine (return false) (perform .quarantine)) :=
  withQuarantine_keeps (gateKeeps_pure _) (gateKeeps_perform rfl)

theorem condemn_keeps {shard : Nat} (runId : Uuid) (reason : String) :
    GateKeeps [.timer shard] (condemn timer runId reason) :=
  (quarantine_keeps [shard]).bind fun _ =>
    .ite (gateKeeps_perform rfl) (gateKeeps_pure _)

theorem fireUnderGate_keeps (live : Bool) (f : Firing) :
    GateKeeps [] (fireUnderGate x live f) := by
  have hattempt : ∀ proj : Option TransportProjection, GateKeeps [] (match proj with
      | some proj => liftPub do let _ ← attempt x (ipcHandle x live) proj
      | none => return () : GateM Unit) := by
    intro proj
    cases proj with
    | some proj => exact liftPub_keeps (attempted_keeps live proj)
    | none => exact gateKeeps_pure _
  refine GateKeeps.bind (withGate_keeps (gateKeeps_pure _) ?_) hattempt
  refine (gateKeeps_perform rfl).bind fun prev => ?_
  split
  · refine (gateKeeps_perform rfl).bind fun out => ?_
    split <;> exact gateKeeps_pure _
  · refine GateKeeps.bind ?_ fun barrier => (gateKeeps_perform rfl).bind
      fun out => ?_
    · -- The barrier may condemn what it reads.
      refine (gateKeeps_perform rfl).bind fun found => ?_
      split
      · exact gateKeeps_pure _
      · exact (condemn_keeps _ _).bind fun _ => gateKeeps_pure _
      · exact gateKeeps_pure _
    · split
      · exact .ite ((quarantine_keeps [f.timer.id.shard]).bind
          fun _ => gateKeeps_pure _) (gateKeeps_pure _)
      · exact gateKeeps_pure _

theorem pollTimer_keeps (timer : Timer) : GateKeeps [] (pollTimer timer) := by
  refine withGate_keeps (gateKeeps_pure _) ((gateKeeps_perform rfl).bind
    fun replies => Orderly.forEach fun reply _ => ?_)
  obtain ⟨runId, found⟩ := reply
  cases found with
  | nothing => exact gateKeeps_pure _
  | condemned reason => exact condemn_keeps runId reason
  | reply doc digest =>
    refine (gateKeeps_perform rfl).bind fun out => ?_
    split
    · exact condemn_keeps runId _
    · exact gateKeeps_pure _

theorem expireOne_keeps (due : Uuid × DeadlineKind) : GateKeeps held (expireOne timer due) := by
  obtain ⟨runId, kind⟩ := due
  cases kind with
  | pickup => exact gateKeeps_perform rfl
  | watchdog => exact gateKeeps_perform rfl

theorem pollOnce_keeps : GateKeeps [] pollOnce := by
  refine (gateKeeps_perform rfl).bind fun timers =>
    GateKeeps.bind (Orderly.forEach fun timer _ => pollTimer_keeps timer) fun _ => ?_
  refine (gateKeeps_perform rfl).bind fun due => Orderly.forEach fun d _ => ?_
  refine withGate_keeps (gateKeeps_pure _) ((askStore_keeps _).bind fun timer => ?_)
  split
  · exact Orderly.forEach fun run _ => expireOne_keeps run
  · exact gateKeeps_pure _

theorem handleDueDeadline_keeps (runId : Uuid) (kind : DeadlineKind) :
    GateKeeps [] (handleDueDeadline runId kind) := by
  refine (askStore_keeps _).bind fun row => ?_
  split
  · refine (askStore_keeps _).bind fun timer => ?_
    split
    · exact withGate_keeps (gateKeeps_pure _) (expireOne_keeps _)
    · exact gateKeeps_pure _
  · exact gateKeeps_pure _

theorem handleReplyFrame_keeps (frame : Option (ReplyDocument × String)) :
    GateKeeps [] (handleReplyFrame timer frame) := by
  cases frame with
  | none => exact gateKeeps_perform rfl
  | some frame =>
    refine withGate_keeps (gateKeeps_pure _) ((gateKeeps_perform rfl).bind
      fun out => ?_)
    split
    · exact gateKeeps_perform rfl
    · exact gateKeeps_pure _

theorem reconcileTimer_keeps : GateKeeps [] (reconcileTimer timer) := by
  refine withGate_keeps (gateKeeps_pure _) ((gateKeeps_perform rfl).bind
    fun folder => ?_)
  split
  · exact gateKeeps_pure _
  refine (gateKeeps_perform rfl).bind fun claim => ?_
  split
  · exact gateKeeps_pure _
  refine (askStore_keeps _).bind fun row => ?_
  split
  · refine (askStore_keeps _).bind fun proj => ?_
    split
    · refine (gateKeeps_perform rfl).bind fun now =>
        .ite (gateKeeps_pure _) (.ite ?_ (gateKeeps_pure _))
      exact (gateKeeps_perform rfl).bind fun there =>
        .ite (gateKeeps_pure _) ((askStore_keeps _).bind fun _ => gateKeeps_pure _)
    · exact gateKeeps_pure _
  · exact gateKeeps_pure _

theorem reconcile_keeps (live : Bool) : GateKeeps [] (reconcile x live) := by
  refine (gateKeeps_perform rfl).bind fun timers =>
    Orderly.forEach fun timer _ => reconcileTimer_keeps.bind fun proj => ?_
  split
  · exact liftPub_keeps (attempted_keeps live _)
  · exact gateKeeps_pure _

theorem removeByHand_keeps (timerId : Uuid) : GateKeeps [] (removeByHand timerId) := by
  refine (askStore_keeps _).bind fun timer => ?_
  split
  · exact withGate_keeps (gateKeeps_pure _) (gateKeeps_perform rfl)
  · exact gateKeeps_pure _

/-- **The hook**: under a gate that covers its timer it has to find none, and
when it finds one it is stuck. -/
theorem ackHook_keeps {timerId : Uuid} {through : Nat}
    (hheld : held = [] ∨ held = [.timer timerId.shard]) :
    GateKeeps held (ackHook timerId through) := by
  refine Orderly.perform_bind rfl (fun found _ hmeets => ?_) fun found _ hmeets => ?_
  · cases found with
    | none => exact gateKeeps_pure _
    | some timer =>
      rcases hheld with rfl | rfl
      · exact withGate_keeps (gateKeeps_pure _) (gateKeeps_perform rfl)
      · cases hmeets (List.mem_singleton_self _)
  · obtain ⟨hmem, hfound⟩ := Classical.not_imp.mp hmeets
    cases found with
    | none => exact absurd rfl hfound
    | some timer => exact ⟨_, hmem, rfl⟩

variable [Wire]

/-- The ack of a payload is for the timer that the payload names. -/
theorem names_of_acks {req : SlotRequest} {timerId : Uuid} {through : Nat}
    (h : req.acks = some (timerId, through)) : req.names = some timerId := by
  unfold SlotRequest.acks at h
  unfold SlotRequest.names
  obtain ⟨payload, hpayload, h⟩ := Option.bind_eq_some_iff.mp h
  obtain ⟨n, -, h⟩ := Option.bind_eq_some_iff.mp h
  obtain ⟨named, hnamed, heq⟩ := Option.map_eq_some_iff.mp h
  rw [hpayload, ← (Prod.mk.inj heq).1]
  exact hnamed

theorem executeAndHook_keeps {hasTree : Bool} {req : SlotRequest} {operation : SlotOperation}
    {requestId : String}
    (hheld : held = [] ∨ ∃ timerId, req.names = some timerId ∧ held = [.timer timerId.shard]) :
    GateKeeps held (executeAndHook hasTree req operation requestId) := by
  refine (gateKeeps_perform rfl).bind fun response => ?_
  split
  · exact gateKeeps_pure _
  refine .ite ?_ (gateKeeps_pure _)
  split
  · next timerId through hacks =>
    apply ackHook_keeps
    refine hheld.imp_right ?_
    rintro ⟨named, hnamed, rfl⟩
    rw [Option.some.inj (hnamed.symm.trans (names_of_acks hacks))]
  · exact gateKeeps_pure _

theorem processWorkFile_keeps (hasTree : Bool) (slotId : String) (req : SlotRequest) :
    GateKeeps [] (processWorkFile hasTree slotId req) := by
  unfold processWorkFile
  split
  · exact gateKeeps_pure _
  split
  · exact executeAndHook_keeps (.inl rfl)
  · next timerId hnamed =>
    have hnames : req.names = some timerId := by
      split at hnamed
      · exact hnamed
      · cases hnamed
    refine Orderly.perform_bind rfl (fun found hpossible _ => ?_) fun found _ h => absurd trivial h
    cases found with
    | none => exact executeAndHook_keeps (.inl rfl)
    | some found =>
      cases found with
      | none => exact executeAndHook_keeps (.inl rfl)
      | some timer =>
        refine withGate_keeps (gateKeeps_pure _) (executeAndHook_keeps (.inr ⟨timerId, hnames, ?_⟩))
        rw [hpossible timer rfl]

/-- **Every operation** starts and ends with no lock, and keeps the order as
long as the hooks meet their condition. -/
theorem GateJob.keeps (hasTree : Bool) (job : GateJob) :
    GateKeeps [] (job.thread x hasTree) := by
  cases job with
  | fire f live => exact fireUnderGate_keeps live f
  | publication job => exact liftPub_keeps job.keeps
  | poll => exact pollOnce_keeps
  | deadline runId kind => exact handleDueDeadline_keeps runId kind
  | replyFrame timer frame => exact handleReplyFrame_keeps frame
  | reconcile live => exact reconcile_keeps live
  | startup live =>
    exact pollOnce_keeps.bind fun _ => (quarantine_keeps []).bind fun _ =>
      reconcile_keeps live
  | slot slotId req => exact processWorkFile_keeps hasTree slotId req
  | rm timerId => exact removeByHand_keeps timerId
  | prune => exact (quarantine_keeps []).bind fun _ => gateKeeps_pure _

end Operations

/-! ### Every run -/

section Runs

variable [Wire] [Calendar] {cfg : FireConfig} {x : NotificationCodec} {maxEvents : Nat}
  {hasTree : Bool} {s s' : Gating}

theorem possible_of_answer {β : Type} (e : GateCall β) {l : GateLuck} {w w' : GateWorld} {b : β}
    (h : e.answer cfg x maxEvents l w = some (b, w')) : e.Possible b := by
  cases e with
  | pub c =>
    cases c with
    | store c =>
      cases c with
      | getTimer timerId =>
        rintro timer rfl
        have hfound : w.store.getTimer timerId = some timer := by
          have hb := congrArg (Option.map Prod.fst) h
          cases hfails : l.fails with
          | true => simp [GateCall.answer, PubCall.answer, hfails] at hb
          | false =>
            simp only [GateCall.answer, PubCall.answer, hfails] at hb
            exact Option.some.inj (Option.some.inj hb)
        exact (Rows.key_of_find? Timer.id hfound).2
      | _ => trivial
    | _ => trivial
  | _ => trivial

/-- What a call of the hook meets is that it does not find its timer. -/
theorem findsHeld_iff {e : System.Event Gating GateStep} {i : Nat} {l : GateLuck} {β : Type}
    {c : GateCall β} {k : β → Thread GateCall Unit} {held : List Gate} {b : β}
    (hlabel : e.label = .call i l) (hi : e.pre.parties[i]? = some ⟨.call c k, held⟩)
    (ha : c.answer cfg x maxEvents l e.pre.world = some (b, e.post.world)) :
    findsHeld e = false ↔ HookMeets held c b := by
  unfold findsHeld
  rw [hlabel]
  dsimp only
  rw [hi]
  cases c with
  | hookTimer timerId =>
    have hb : (if l.fails then none else e.pre.world.store.getTimer timerId) = b :=
      (Prod.mk.inj (Option.some.inj ha)).1
    rw [← hb]
    show _ ↔ (Gate.timer timerId.shard ∈ held → _ = none)
    cases l.fails <;> simp [Decidable.imp_iff_not_or]
  | _ => exact ⟨fun _ => trivial, fun _ => rfl⟩

/-- **The step**: the parties stay orderly when no hook finds its timer, and
one of them is stuck when a hook does. -/
theorem gatesNext_orderly {step : GateStep} (h : gatesNext cfg x maxEvents hasTree s step = some s')
    (hs : s.Orderly gates GateCall.Possible HookMeets) :
    (findsHeld ⟨s, step, s'⟩ = false → s'.Orderly gates GateCall.Possible HookMeets) ∧
    (findsHeld ⟨s, step, s'⟩ = true → s'.Deadlocked gates) := by
  cases step with
  | commit c =>
    cases h
    exact ⟨fun _ => hs, fun hf => by cases hf⟩
  | disk path content =>
    cases h
    exact ⟨fun _ => hs, fun hf => by cases hf⟩
  | start job =>
    cases h
    refine ⟨fun _ p hp => ?_, fun hf => by cases hf⟩
    rcases List.mem_append.mp hp with hp | hp
    · exact hs p hp
    · obtain rfl := List.mem_singleton.mp hp
      exact job.keeps hasTree
  | die i =>
    cases h
    exact ⟨fun _ p hp => hs p (List.mem_of_mem_eraseIdx hp), fun hf => by cases hf⟩
  | call i l =>
    obtain ⟨β, c, k, held, b, hi, ha, hkeep, hstuck⟩ := Crowd.call_orderly h hs
      fun c b ha => possible_of_answer c ha
    have hiff := findsHeld_iff (e := ⟨s, .call i l, s'⟩) rfl hi ha
    refine ⟨fun hf => hkeep (hiff.mp hf), fun hf => ?_⟩
    have hnot : ¬HookMeets held c b := fun hm => by
      rw [hiff.mpr hm] at hf
      cases hf
    obtain ⟨p, hp, hstuck⟩ := hstuck hnot
    exact Crowd.deadlocked_of_stuck hp hstuck

/-- **The run**: the parties are orderly until a hook finds its timer. -/
theorem orderly_of_run {tr : List (System.Event Gating GateStep)}
    (h : (gating cfg x maxEvents hasTree).Run { world := {} } tr s)
    (hf : ∀ e ∈ tr, findsHeld e = false) :
    ∀ e ∈ tr, e.pre.Orderly gates GateCall.Possible HookMeets ∧
      e.post.Orderly gates GateCall.Possible HookMeets := by
  have hsteps := h.invariant_steps (G := fun e => findsHeld e = false)
    (I := fun s => s.Orderly gates GateCall.Possible HookMeets) hf
    (fun p hp => (List.not_mem_nil hp).elim)
    fun s i t hstep hfalse hs => (gatesNext_orderly hstep hs).1 hfalse
  exact fun e he => (hsteps e he).2

/-- **The gates are taken in order, and there is no deadlock, exactly as long as
no ack hook finds the timer whose gate its own request holds.** -/
theorem gates_disciplined_iff {tr : List (System.Event Gating GateStep)}
    (h : (gating cfg x maxEvents hasTree).Run { world := {} } tr s) :
    (∀ e ∈ tr, e.post.Disciplined gates ∧ ¬e.post.Deadlocked gates) ↔
      ∀ e ∈ tr, findsHeld e = false := by
  constructor
  · intro hall
    -- Up to the first hook that finds its timer, the parties are orderly.
    have hgo := h.trace_induction (J := fun tr s => (∀ e ∈ tr, ¬e.post.Deadlocked gates) →
      (∀ e ∈ tr, findsHeld e = false) ∧ s.Orderly gates GateCall.Possible HookMeets)
      (fun _ => ⟨fun e he => (List.not_mem_nil he).elim, fun p hp => (List.not_mem_nil hp).elim⟩)
      ?_
    · exact (hgo fun e he => (hall e he).2).1
    · intro tr s step s' _ hstep ih hnever
      obtain ⟨hfalse, hs⟩ := ih fun e he => hnever e (List.mem_append_left _ he)
      obtain ⟨hkeep, hstuck⟩ := gatesNext_orderly hstep hs
      have hlast : findsHeld ⟨s, step, s'⟩ = false := by
        cases hf : findsHeld ⟨s, step, s'⟩ with
        | false => rfl
        | true =>
          have hin : (⟨s, step, s'⟩ : System.Event Gating GateStep) ∈ tr ++ [⟨s, step, s'⟩] := by
            simp
          exact absurd (hstuck hf) (hnever _ hin)
      refine ⟨fun e he => ?_, hkeep hlast⟩
      rcases List.mem_append.mp he with he | he
      · exact hfalse e he
      · obtain rfl := List.mem_singleton.mp he
        exact hlast
  · intro hf e he
    have hdisciplined := (orderly_of_run h hf e he).2.disciplined
    exact ⟨hdisciplined, hdisciplined.not_deadlocked⟩

end Runs

/-! ### A delete that comes again -/

section Sample

attribute [local instance] Wire.plain Calendar.utcOnly

/-- A codec that reads nothing. -/
def NotificationCodec.blank : NotificationCodec where
  fromStr _ := none
  toStr _ := none
  toStrPretty _ := ""
  fireFile _ := ""
  replyFile _ _ := ""

/-- One step, for an app's lamp. -/
def gatesNextSample (s : Gating) (step : GateStep) : Option Gating :=
  gatesNext .sample .blank 64 true s step

/-- The steps of a run, from nothing. -/
def gateTrace (steps : List GateStep) : List (System.Event Gating GateStep) :=
  System.traceEnabled gatesNextSample { world := {} } steps

theorem gateTrace_run (steps : List GateStep) :
    (gating .sample .blank 64 true).Run { world := {} } (gateTrace steps)
      (steps.foldl (fun s i => (gatesNextSample s i).getD s) { world := {} }) :=
  System.run_traceEnabled (fun _ _ _ h => h) _ steps

/-- A worker takes up a request file, and makes so many calls. -/
def GateStep.slotFile (i calls : Nat) (slotId : String) (req : SlotRequest) : List GateStep :=
  .start (.slot slotId { req with slotId }) :: List.replicate calls (.call i {})

/-- The lamp is added, and deleted by a request with an ack. -/
def lampGone : List GateStep :=
  GateStep.slotFile 0 1 "0001" (.sampleAdd "a" "lamp") ++
    GateStep.slotFile 1 5 "0002" (.sample "d" "lamp" .delete [("ack_through", .num 5)])

/-- It is added anew, and the request to delete it comes again. -/
def lampGoneAgain : List GateStep :=
  lampGone ++ GateStep.slotFile 2 1 "0003" (.sampleAdd "b" "lamp") ++
    GateStep.slotFile 3 4 "0004" (.sample "d" "lamp" .delete [("ack_through", .num 5)])

theorem gates_disciplined_lampGone :
    (gateTrace lampGone).isEmpty = false ∧
      ∀ e ∈ gateTrace lampGone, e.post.Disciplined gates ∧ ¬e.post.Deadlocked gates := by
  refine ⟨by decide +kernel, ?_⟩
  exact (gates_disciplined_iff (gateTrace_run lampGone)).mpr (by decide +kernel)

/-- **A delete that is delivered again waits for itself**: it holds the gate of
the timer that it finds, and its hook asks for it. -/
theorem redelivered_delete_deadlocks :
    ∃ tr s, (gating .sample .blank 64 true).Run { world := {} } tr s ∧
      s.Deadlocked gates ∧ ¬s.Disciplined gates ∧
      ∃ p ∈ s.parties, .timer SlotRequest.sampleId.shard ∈ p.held ∧
        p.todo.wants gates = some (.timer SlotRequest.sampleId.shard) := by
  have hstuck : ∃ p ∈ (lampGoneAgain.foldl (fun s i => (gatesNextSample s i).getD s)
      { world := {} }).parties, .timer SlotRequest.sampleId.shard ∈ p.held ∧
        p.todo.wants gates = some (.timer SlotRequest.sampleId.shard) := by
    decide +kernel
  refine ⟨_, _, gateTrace_run lampGoneAgain, ?_, ?_, hstuck⟩
  · obtain ⟨p, hp, hheld, hwants⟩ := hstuck
    exact Crowd.deadlocked_of_stuck hp ⟨_, hheld, hwants⟩
  · obtain ⟨p, hp, hheld, hwants⟩ := hstuck
    exact fun h => Nat.lt_irrefl _ (h p hp _ hwants _ hheld)

end Sample

end Bellman
