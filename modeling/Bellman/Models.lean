/-
Bellman/Models.lean

The rows the store keeps, and the vocabulary they are written in.

A *timer* owns a schedule and its policies.  Each fire of a timer commits a
*claim*, the row of the run ledger that moves pending → active → finished.
A run of an app-owned timer also has a *lifecycle row*, which the app's
replies and Bellman's own deadlines move, and every transition of either
puts an *event* in the outbox.

Columns whose text is one of a fixed set of spellings are held as the
enumeration; `asStr` and `fromWire` are the spellings, and
`RunState.fromWire_asStr` says that what is written reads back.
-/
import Bellman.Occurrence

namespace Bellman

/-- Ids drawn from `Uuid::new_v4`. -/
structure Uuid where
  n : Nat
  deriving Repr, DecidableEq

/-- JSON values.  Numbers that are not whole keep their spelling. -/
inductive Json where
  | null
  | bool (b : Bool)
  | num (n : Int)
  | real (lexeme : String)
  | str (s : String)
  | arr (items : List Json)
  | obj (fields : List (String × Json))
  deriving Repr

/-! ### Policies -/

/-- What to do about a slot that was missed. -/
inductive MisfirePolicy where
  | skip
  | coalesce (graceSecs : Nat)
  | catchUp (graceSecs maxCatchUp : Nat)
  deriving Repr, DecidableEq

namespace MisfirePolicy

def CALENDAR_GRACE_SECS : Nat := 3600

def defaultCalendar : MisfirePolicy := .coalesce CALENDAR_GRACE_SECS

def defaultInterval : MisfirePolicy := .skip

def forOccurrence (occ : Occurrence) : MisfirePolicy :=
  if occ.kind.isElapsedTime then defaultInterval else defaultCalendar

/-- The configured grace, for the policies that have one. -/
def graceSecs : MisfirePolicy → Option Nat
  | skip => none
  | coalesce g | catchUp g _ => some g

end MisfirePolicy

/-- What a fire does about older claims of its timer that are unfinished. -/
inductive OverlapPolicy where
  | skip
  | queueOne
  | parallel (cap : Nat)
  | replace
  deriving Repr, DecidableEq

structure RetryPolicy where
  maxRetries : Nat := 1
  delaySecs : Nat := 30
  deriving Repr, DecidableEq

inductive Action where
  | launch (command : String) (args : List String) (workdir : Option String)
  | notify (title body : String)
  | none
  deriving Repr, DecidableEq

/-- How a firing is delivered to its app. -/
inductive TransportMode where
  | json
  | ipc
  | auto
  deriving Repr, DecidableEq

/-! ### Timers -/

/-- A stored timer.  `tz`, `validFrom`, `validUntil` and `maxRuns` mirror
the schedule for querying; the schedule is what counts. -/
structure Timer where
  id : Uuid
  name : String
  enabled : Bool
  occurrence : Occurrence
  tz : String
  nextFireUtc : Option Int
  lastFired : Option Int
  misfire : MisfirePolicy
  overlap : OverlapPolicy
  retry : RetryPolicy
  validFrom : Option Int
  validUntil : Option Int
  maxRuns : Option UInt64
  tags : List String
  action : Action
  revision : Int
  jitterSecs : Nat
  accuracySlackSecs : Option Nat
  wakeMachine : Bool
  transport : TransportMode
  deriving Repr, DecidableEq

/-- The definition of a timer to be created. -/
structure NewTimer where
  id : Option Uuid := none
  name : String
  enabled : Bool := true
  occurrence : Occurrence
  misfire : MisfirePolicy := MisfirePolicy.forOccurrence occurrence
  overlap : OverlapPolicy := .skip
  retry : RetryPolicy := {}
  tags : List String := []
  action : Action := .none
  lastFired : Option Int := none
  jitterSecs : Nat := 0
  accuracySlackSecs : Option Nat := none
  wakeMachine : Bool := false
  transport : TransportMode := .json
  deriving Repr, DecidableEq

/-- An edit: a field that is `none` is left alone. -/
structure TimerPatch where
  name : Option String := none
  enabled : Option Bool := none
  occurrence : Option Occurrence := none
  misfire : Option MisfirePolicy := none
  overlap : Option OverlapPolicy := none
  retry : Option RetryPolicy := none
  tags : Option (List String) := none
  action : Option Action := none
  lastFired : Option (Option Int) := none
  jitterSecs : Option Nat := none
  accuracySlackSecs : Option (Option Nat) := none
  wakeMachine : Option Bool := none
  transport : Option TransportMode := none
  deriving Repr, DecidableEq

/-- An edit against the revision its author last saw. -/
structure TimerUpdate where
  id : Uuid
  expectedRevision : Int
  patch : TimerPatch
  deriving Repr, DecidableEq

/-! ### The run ledger -/

inductive ClaimStatus where
  | pending
  | active
  | finished
  deriving Repr, DecidableEq

inductive RunOutcome where
  | wakeDelivered
  | wakeFailed
  | skippedMisfire
  deriving Repr, DecidableEq

/-- One row of the run ledger. -/
structure RunClaim where
  runId : Uuid
  timerId : Uuid
  scheduledFor : Int
  status : ClaimStatus
  claimedAt : Int
  completedAt : Option Int
  eventSequence : Nat
  outcome : Option RunOutcome
  outcomeReason : Option String
  cancelRequested : Bool
  deriving Repr, DecidableEq

/-- Pending or active. -/
def RunClaim.isUnfinished (c : RunClaim) : Bool := c.status != .finished

theorem RunClaim.isUnfinished_iff {c : RunClaim} :
    c.isUnfinished = true ↔ c.status = .pending ∨ c.status = .active := by
  unfold isUnfinished
  cases c.status <;> decide

/-! ### Events -/

/-- The one run-state vocabulary, of events and lifecycle rows alike. -/
inductive RunState where
  | registered
  | fired
  | firedLate
  | skippedMisfire
  | coalesced
  | wakeDelivered
  | wakeFailed
  | noAck
  | pruned
  | yearRecalibrate
  | wakeCapability
  | acknowledged
  | running
  | completed
  | failed
  | cancelled
  | superseded
  | replyRejected
  deriving Repr, DecidableEq

namespace RunState

/-- Nothing more is expected from the app. -/
def isTerminal : RunState → Bool
  | completed | failed | noAck | cancelled | superseded => true
  | _ => false

/-- The states an app may write in a reply. -/
def isAppWritable : RunState → Bool
  | acknowledged | running | completed | failed => true
  | _ => false

/-- The kinds that report the outcome of a claim. -/
def isOutcome : RunState → Bool
  | wakeDelivered | wakeFailed | skippedMisfire => true
  | _ => false

theorem not_isOutcome_of_isTerminal {s : RunState} (h : s.isTerminal = true) :
    s.isOutcome = false := by
  cases s <;> simp_all [isTerminal, isOutcome]

/-- The wire spelling. -/
def asStr : RunState → String
  | registered => "registered"
  | fired => "fired"
  | firedLate => "fired_late"
  | skippedMisfire => "skipped_misfire"
  | coalesced => "coalesced"
  | wakeDelivered => "wake_delivered"
  | wakeFailed => "wake_failed"
  | noAck => "no_ack"
  | pruned => "pruned"
  | yearRecalibrate => "year_recalibrate"
  | wakeCapability => "wake_capability"
  | acknowledged => "acknowledged"
  | running => "running"
  | completed => "completed"
  | failed => "failed"
  | cancelled => "cancelled"
  | superseded => "superseded"
  | replyRejected => "reply_rejected"

/-- Parse a wire spelling. -/
def fromWire (s : String) : Option RunState :=
  match s with
  | "registered" => some registered
  | "fired" => some fired
  | "fired_late" => some firedLate
  | "skipped_misfire" => some skippedMisfire
  | "coalesced" => some coalesced
  | "wake_delivered" => some wakeDelivered
  | "wake_failed" => some wakeFailed
  | "no_ack" => some noAck
  | "pruned" => some pruned
  | "year_recalibrate" => some yearRecalibrate
  | "wake_capability" => some wakeCapability
  | "acknowledged" => some acknowledged
  | "running" => some running
  | "completed" => some completed
  | "failed" => some failed
  | "cancelled" => some cancelled
  | "superseded" => some superseded
  | "reply_rejected" => some replyRejected
  | _ => none

@[simp] theorem fromWire_asStr (s : RunState) : fromWire s.asStr = some s := by
  cases s <;> rfl

theorem fromWire_eq_some {w : String} {s : RunState} (h : fromWire w = some s) : w = s.asStr := by
  unfold fromWire at h
  split at h
  all_goals first
    | (obtain rfl := Option.some.inj h; rfl)
    | cases h

end RunState

def EVENT_SCHEMA_V1 : String := "bellman-event/1"

/-- What an event is about. -/
structure EventSubject where
  timerId : Option Uuid := none
  timerName : Option String := none
  runId : Option Uuid := none
  scheduledFor : Option Int := none
  deriving Repr, DecidableEq

/-- What an event says about it. -/
structure EventNote where
  durationMs : Option Int := none
  count : Option Nat := none
  message : Option String := none
  error : Option String := none
  detail : Option Json := none
  deriving Repr

/-- One line of the event log. -/
structure EventRecord extends EventSubject, EventNote where
  schema : String := EVENT_SCHEMA_V1
  loggedAt : Int
  kind : RunState
  eventId : Uuid
  deriving Repr

/-- The event reports the outcome of a run: a dropped backlog has the same
kind, and names no run. -/
def EventRecord.reportsOutcome (e : EventRecord) : Bool := e.kind.isOutcome && e.runId.isSome

/-- An event about a run. -/
def EventSubject.ofRun (timer : Timer) (claim : RunClaim) : EventSubject :=
  { timerId := some timer.id
    timerName := some timer.name
    runId := some claim.runId
    scheduledFor := some claim.scheduledFor }

/-- The event kind that reports a run outcome. -/
def RunOutcome.event : RunOutcome → RunState
  | wakeDelivered => .wakeDelivered
  | wakeFailed => .wakeFailed
  | skippedMisfire => .skippedMisfire

/-! ### Lifecycle rows -/

inductive FailureKind where
  | reported
  | timedOut
  deriving Repr, DecidableEq

def FailureKind.asStr : FailureKind → String
  | reported => "reported"
  | timedOut => "timed_out"

/-- The app-lifecycle row of one run. -/
structure RunStateRow where
  runId : Uuid
  timerId : Uuid
  appName : String
  state : RunState
  firedAt : Int
  pickupDeadline : Option Int
  acknowledgedAt : Option Int := none
  expectedSecs : Option Nat := none
  errorDetection : Option Bool := none
  heartbeatAt : Option Int := none
  progress : Option String := none
  completedAt : Option Int := none
  failedAt : Option Int := none
  reason : Option String := none
  failureKind : Option FailureKind := none
  resultJson : Option Json := none
  resultTruncated : Bool := false
  watchdogDeadline : Option Int := none
  noAckAt : Option Int := none
  replyDigest : Option String := none
  acknowledgedLogged : Bool := false
  runningLogged : Bool := false
  selectedTransport : Option String := none
  transport : Option String := none
  deriving Repr

namespace RunStateRow

/-- The row of a run at its fire, before any pickup signal. -/
def ofFire (runId timerId : Uuid) (appName : String) (fireState : RunState) (firedAt : Int)
    (pickupDeadline : Int) : RunStateRow :=
  { runId, timerId, appName, state := fireState, firedAt, pickupDeadline := some pickupDeadline }

def withTransport (row : RunStateRow) (selected : String) : RunStateRow :=
  { row with selectedTransport := some selected, transport := some selected }

def isTerminal (row : RunStateRow) : Bool := row.state.isTerminal

/-- A closing verdict that the app wrote: `completed`, or a `failed` it
reported itself.  Bellman's own `no_ack` and `timed_out` are provisional. -/
def isAppAuthoredTerminal (row : RunStateRow) : Bool :=
  match row.state with
  | .completed => true
  | .failed => row.failureKind == some .reported
  | _ => false

theorem isTerminal_of_isAppAuthoredTerminal {row : RunStateRow}
    (h : row.isAppAuthoredTerminal = true) : row.isTerminal = true := by
  unfold isAppAuthoredTerminal at h
  unfold isTerminal
  cases hs : row.state <;> simp_all [RunState.isTerminal]

end RunStateRow

/-! ### Transport projections -/

/-- The durable delivery record of one firing's notification. -/
structure TransportProjection where
  runId : Uuid
  timerId : Uuid
  kind : String
  targetPath : String
  payload : String
  publicationOrder : Nat
  state : String
  attempts : Nat
  nextAttemptAt : Int
  createdAt : Int
  publishedAt : Option Int
  deriving Repr, DecidableEq

namespace TransportProjection

def PENDING : String := "pending"
def PUBLISHED : String := "published"
def OBSOLETE : String := "obsolete"
def PICKED_UP : String := "picked_up"
def KIND_FILE : String := "file"
def KIND_IPC : String := "ipc"

end TransportProjection

end Bellman
