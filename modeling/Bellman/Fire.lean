/-
Bellman/Fire.lean

The fire transaction, and the ends of a run that other transactions write.

A fire commits everything about a firing at once: what the previous run's
app still had to say, the supersession of that run if it is unresolved, the
new claim with its event, the overlap disposition, and for an app-owned
timer the lifecycle row and the delivery record.  The overlap policy is
decided here, from the older claims that are unfinished, and never again at
dequeue.

`finishClaim` is how a worker closes a claim: the ledger row and the
outcome event commit together.  The deletes close the lifecycle of the open
run and leave the claim to the dispatcher.
-/
import Bellman.Reply

namespace Bellman

open ProgramLogic ReplyM

/-! ### Fire kinds -/

/-- How a slot is delivered: in time, late within grace, standing in for a
backlog, or as one step of a replay. -/
inductive FireKind where
  | onTime
  | late (lateness : Int)
  | coalesced (missedCount : Nat)
  | catchUp (index : Nat)
  deriving Repr, DecidableEq

/-- `fire_state`: the lifecycle state a fire opens with. -/
def fireState : FireKind → RunState
  | .onTime | .catchUp _ => .fired
  | .late _ => .firedLate
  | .coalesced _ => .coalesced

/-- What a fire's event says beyond its kind and run. -/
def FireKind.note : FireKind → EventNote
  | .onTime => {}
  | .late lateness => { durationMs := some (lateness.tdiv 1000000) }
  | .coalesced missedCount => { count := some missedCount }
  | .catchUp index => { count := some index, message := some "catch_up" }

/-! ### Closing a claim -/

/-- How a worker's job ended. -/
inductive JobEnd where
  | delivered (message : String) (attempts : Nat)
  | failed (error : String) (attempts : Nat)
  | cancelled
  | timerDeleted
  deriving Repr, DecidableEq

namespace JobEnd

def outcome : JobEnd → RunOutcome
  | delivered .. => .wakeDelivered
  | failed .. | cancelled | timerDeleted => .wakeFailed

def reason : JobEnd → String
  | delivered message _ => message
  | failed error _ => error
  | cancelled => "overlap_replace"
  | timerDeleted => "timer_deleted"

/-- What the outcome event says beyond its kind and run. -/
def note : JobEnd → EventNote
  | delivered message attempts => { message := some message, count := some attempts }
  | failed error attempts =>
    { error := some error
      message := some "FAILED"
      count := some attempts
      detail := some (.obj [("status", .str "FAILED")]) }
  | cancelled => { message := some "overlap_replace" }
  | timerDeleted => { message := some "timer_deleted" }

end JobEnd

/-- `finish_claim`: the worker's completion transaction.  A claim that
something else already finished keeps its outcome, and no event is written.
The event names the timer, whose name is its id when it is gone. -/
def finishClaim (claim : RunClaim) (timerName : String) (e : JobEnd) (utc : Int) :
    StoreM Unit :=
  Prog.atomically do
    if ← finishRunConn claim.runId e.outcome (some e.reason) utc then
      emit e.outcome.event utc
        { timerId := some claim.timerId
          timerName := some timerName
          runId := some claim.runId
          scheduledFor := some claim.scheduledFor }
        e.note
    else return ()

/-- Finish a claim inside the fire transaction, with its event. -/
def finishLogged (timer : Timer) (claim : RunClaim) (outcome : RunOutcome) (reason : String)
    (utc : Int) : StoreM Unit := do
  if ← finishRunConn claim.runId outcome (some reason) utc then
    emit outcome.event utc (.ofRun timer claim) { message := some reason }
  else return ()

/-! ### Overlap admission -/

/-- Finish the older claims that have not started. -/
def replacePending (timer : Timer) (utc : Int) : List RunClaim → StoreM Unit
  | [] => return ()
  | p :: ps => do
    finishLogged timer p .wakeFailed "overlap_replace_before_start" utc
    replacePending timer utc ps

/-- The reason to skip the new claim, if the policy does. -/
def skipReason (overlap : OverlapPolicy) (older : Nat) : Option String :=
  match overlap with
  | .skip => if 1 ≤ older then some "overlap_skip" else none
  | .queueOne => if 2 ≤ older then some "overlap_queue_full" else none
  | .parallel cap => if cap ≤ older then some "overlap_parallel_cap" else none
  | .replace => none

/-- `apply_overlap_disposition`: let the new claim in, skip it, or clear the
way for it. -/
def applyOverlapDisposition (timer : Timer) (claim : RunClaim) (utc : Int) :
    StoreM RunClaim := do
  if timer.overlap = .replace then
    replacePending timer utc ((← get).pendingClaimsForTimer timer.id claim.runId)
    let _ ← requestCancelActiveConn timer.id claim.runId
    return claim
  else
    match skipReason timer.overlap ((← get).unfinishedClaimsCount timer.id claim.runId) with
    | none => return claim
    | some reason =>
      let _ ← finishRunConn claim.runId .skippedMisfire (some reason) utc
      emit .skippedMisfire utc (.ofRun timer claim) { message := some reason }
      return ((← get).getRun claim.runId).getD claim

/-! ### Closing an open run -/

/-- The run is unresolved: its lifecycle is open, or, when it has no
lifecycle row, it is owned or its claim is unfinished. -/
def Store.isUnresolved (s : Store) (owner : Option String) (run : RunClaim) : Bool :=
  match s.getRunState run.runId with
  | some row => !row.isTerminal
  | none => owner.isSome || run.isUnfinished

/-- Close an unresolved run with a verdict of Bellman's own; whether there
was one to close. -/
def closeOpenRun (verdict : RunState) (message : String) (timer : Timer)
    (owner : Option String) (run : Option RunClaim) (utc : Int) : StoreM (Option Uuid) := do
  match run with
  | none => return none
  | some run =>
    let s ← get
    if s.isUnresolved owner run then
      emit verdict utc (.ofRun timer run) { message := some message }
      match s.getRunState run.runId with
      | some row =>
        updateRunStateConn
          { row with state := verdict, pickupDeadline := none, watchdogDeadline := none }
      | none => pure ()
      return some run.runId
    else return none

/-- The supersession of the previous run by a new firing. -/
def supersedePrevious (timer : Timer) (owner : Option String) (prev : Option RunClaim)
    (utc : Int) : StoreM (Option Uuid) :=
  closeOpenRun .superseded "superseded by a new firing while still unresolved" timer owner prev utc

/-- The cancellation of the open run of a timer that goes away. -/
def cancelOpenRun (timer : Timer) (owner : Option String) (utc : Int) :
    StoreM (Option Uuid) := do
  let prev := ((← get).runsForTimer timer.id).getLast?
  closeOpenRun .cancelled "timer deleted while its run was open" timer owner prev utc

/-! ### The fire transaction -/

/-- The transport a firing goes out on. -/
inductive SelectedTransport where
  | json
  | ipc
  deriving Repr, DecidableEq

def SelectedTransport.asStr : SelectedTransport → String
  | json => "json"
  | ipc => "ipc"

/-- Where notifications go, and how one is written out; `notification` fails
when the paths in it are not text. -/
structure RouteConfig where
  firesDir : String
  fireSlotFile : Option String
  notification : Timer → RunClaim → RunState → String → SelectedTransport → Except String String

/-- The settings of the fire path. -/
structure FireConfig where
  reply : ReplyConfig
  route : RouteConfig

/-- `new_projection`. -/
def newProjection (route : RouteConfig) (timer : Timer) (claim : RunClaim) (state : RunState)
    (appName : String) (order : Nat) (now : Int) (selected : SelectedTransport) :
    Except String TransportProjection := do
  let payload ← route.notification timer claim state appName selected
  let (kind, target) := match selected with
    | .json =>
      let name := route.fireSlotFile.getD s!"fire-{claim.runId.n}.json"
      (TransportProjection.KIND_FILE, route.firesDir ++ "/" ++ name)
    | .ipc => (TransportProjection.KIND_IPC, s!"ipc://{timer.id.n}")
  return {
    runId := claim.runId
    timerId := timer.id
    kind
    targetPath := target
    payload
    publicationOrder := order
    state := TransportProjection.PENDING
    attempts := 0
    nextAttemptAt := now
    createdAt := now
    publishedAt := none }

/-- What a fire is asked to do: the timer and slot, and what was read before
the transaction began. -/
structure Firing where
  timer : Timer
  scheduledFor : Int
  kind : FireKind
  /-- Owner app and latest claim, read under the gate. -/
  owner : Option String
  prev : Option RunClaim
  /-- The valid reply of the previous run found by the barrier, with its
  digest. -/
  barrier : Option (ReplyDocument × String)
  selected : SelectedTransport
  now : Int
  monoNow : Int
  utc : Int

/-- The barrier ingest of the previous run; a refused reply is logged. -/
def barrierIngest (cfg : FireConfig) (f : Firing) : ReplyM Unit := do
  match f.prev, f.barrier with
  | some prev, some (doc, digest) =>
    match ← ingestAsCurrent cfg.reply f.timer doc digest prev.runId f.now f.monoNow f.utc with
    | .rejected why => onStore (logRejection f.timer (some prev.runId) why.asStr f.utc)
    | _ => return ()
  | _, _ => return ()

/-- The lifecycle row and the delivery record of an owned firing. -/
def openLifecycle (cfg : FireConfig) (f : Firing) (claim : RunClaim) : StoreM Unit := do
  match f.owner with
  | none => return ()
  | some appName =>
    let deadline ← orPanic (wallAdd f.now ((fromStd cfg.reply.pickupGrace).getD (secs 60)))
    insertRunStateConn ((RunStateRow.ofFire claim.runId f.timer.id appName (fireState f.kind)
      claim.claimedAt deadline).withTransport f.selected.asStr)
    let order := (← get).nextPublicationOrder
    match newProjection cfg.route f.timer claim (fireState f.kind) appName order f.now
        f.selected with
    | .error message => fail (.internal message)
    | .ok proj => insertTransportProjectionConn proj

/-- The one transaction of `project_fire`: the claim as committed, and the
run it superseded. -/
def fireTx (cfg : FireConfig) (f : Firing) : ReplyM (RunClaim × Option Uuid) :=
  inTx do
    barrierIngest cfg f
    let superseded ← onStore (supersedePrevious f.timer f.owner f.prev f.utc)
    let claim ← onStore (claimRunConn f.timer.id f.scheduledFor f.utc)
    onStore (emit (fireState f.kind) f.utc (.ofRun f.timer claim) f.kind.note)
    let claim ← onStore (applyOverlapDisposition f.timer claim f.utc)
    onStore (openLifecycle cfg f claim)
    return (claim, superseded)

/-- What a fire reads before its transaction. -/
def Firing.prepare (f : Firing) : ReplyM Firing := do
  let owner ← read (·.getTimerOwner f.timer.id)
  let prev ← read fun s => (s.runsForTimer f.timer.id).getLast?
  return { f with owner, prev }

/-- `project_fire`: the reads, the transaction, and the countdowns of the
new run after it has committed. -/
def projectFire (cfg : FireConfig) (f : Firing) : ReplyM RunClaim := do
  let f ← f.prepare
  let (claim, superseded) ← fireTx cfg f
  if f.owner.isSome then registerFire cfg.reply claim.runId f.now f.monoNow else pure ()
  match superseded with
  | some prev => clearDeadlines prev
  | none => pure ()
  return claim

/-! ### Deletes -/

/-- `delete_timer_lifecycle`: cancel the open run and remove the timer with
its owner, ack cursor and delivery records, in one transaction.  The owner
is read before it. -/
def deleteTimerLifecycle (timer : Timer) (owner : Option String) (utc : Int) :
    StoreM (Bool × Bool) :=
  Prog.atomically do
    let cancelled ← cancelOpenRun timer owner utc
    let deleted ← deleteTimer timer.id
    clearTimerOwner timer.id
    modify fun s =>
      { s with slotEventAcks := s.slotEventAcks.filter fun a => a.1 ≠ timer.id }
    pruneTransportForTimer timer.id
    return (deleted, cancelled.isSome)

/-- The delete branch of a slot request: ownership was just proven, so a run
without a lifecycle row counts as open; the delivery records stay. -/
def slotDelete (timerId : Uuid) (appName : String) (utc : Int) : StoreM Bool :=
  Prog.atomically do
    match (← get).getTimer timerId with
    | some timer =>
      let _ ← cancelOpenRun timer (some appName) utc
    | none => pure ()
    let existed ← deleteTimer timerId
    clearTimerOwner timerId
    modify fun s => { s with slotEventAcks := s.slotEventAcks.filter fun a => a.1 ≠ timerId }
    return existed

end Bellman
