/-
Bellman/Reply.lean

The reply engine: what a run's app reports, and the deadlines that count
down while it does not.

An app answers a run with a *reply document*.  `ingest` validates it, finds
the run, and folds it into the run's lifecycle row; the row, its transition
events and the reply digest commit in one transaction.  Two countdowns run
on the monotonic clock, in the *deadline book*: the pickup deadline, armed
at the fire, and the watchdog the app may opt into.

The book and the duration anchors are memory: `inTx` rolls the tables back
on failure, and them it does not.

Each operation takes the wall clock at receipt (`nowWall`), the monotonic
clock (`monoNow`), and the reading `utc` of `Utc::now()` that stamps the
events which carry no instant of their own.
-/
import Bellman.Store
import Mathlib.Algebra.Order.Ring.Unbundled.Rat

namespace Bellman

open ProgramLogic

/-! ### The document -/

/-- One parsed reply; every field may be absent. -/
structure ReplyDocument where
  schema : Option String := none
  runId : Option Uuid := none
  appName : Option String := none
  state : Option String := none
  acknowledgedAt : Option Int := none
  expectedSecs : Option Nat := none
  errorDetection : Option Bool := none
  heartbeatAt : Option Int := none
  progress : Option String := none
  completedAt : Option Int := none
  result : Option Json := none
  failedAt : Option Int := none
  reason : Option String := none

def REPLY_SCHEMA_V1 : String := "bellman-reply/1"

def MAX_RESULT_STATUS_BYTES : Nat := 32 * 1024
def MAX_RESULT_EVENT_BYTES : Nat := 2 * 1024
def MAX_FREE_TEXT_BYTES : Nat := 1024

/-- Why a reply was refused. -/
inductive ReplyRejection where
  | missingSchema
  | badSchema
  | missingRunId
  | missingAppName
  | wrongAppName
  | missingState
  | reservedState
  | errorDetectionWithoutEstimate
  | terminalRegression
  | unknownRun
  deriving Repr, DecidableEq

/-- The reason recorded on the `reply_rejected` event. -/
def ReplyRejection.asStr : ReplyRejection → String
  | missingSchema => "missing schema"
  | badSchema => "unexpected schema"
  | missingRunId => "missing run_id"
  | missingAppName => "missing app_name"
  | wrongAppName => "app_name does not match the run's owner"
  | missingState => "missing state"
  | reservedState => "state is reserved to Bellman"
  | errorDetectionWithoutEstimate => "error_detection requires a positive expected_secs"
  | terminalRegression => "terminal report cannot move back to non-terminal"
  | unknownRun => "unknown run_id"

/-- The longest prefix of at most `cap` bytes. -/
def takeBytes : Nat → List Char → List Char
  | _, [] => []
  | cap, c :: cs => if c.utf8Size ≤ cap then c :: takeBytes (cap - c.utf8Size) cs else []

/-- `truncate_text`: cut at the last character boundary within the cap. -/
def truncateText (s : String) (cap : Nat) : String :=
  if s.utf8ByteSize ≤ cap then s else String.ofList (takeBytes cap s.toList)

/-- A JSON string literal as `serde_json` writes it. -/
def Json.quote (s : String) : String :=
  let escape (c : Char) : String :=
    match c with
    | '"' => "\\\""
    | '\\' => "\\\\"
    | '\n' => "\\n"
    | '\r' => "\\r"
    | '\t' => "\\t"
    | '\x08' => "\\b"
    | '\x0c' => "\\f"
    | c =>
      if c.toNat < 32 then
        "\\u00" ++ String.ofList [Nat.digitChar (c.toNat / 16), Nat.digitChar (c.toNat % 16)]
      else c.toString
  "\"" ++ String.join (s.toList.map escape) ++ "\""

mutual

/-- Compact serialization. -/
def Json.render : Json → String
  | .null => "null"
  | .bool b => if b then "true" else "false"
  | .num n => toString n
  | .real lexeme => lexeme
  | .str s => Json.quote s
  | .arr items => "[" ++ Json.renderItems items ++ "]"
  | .obj fields => "\x7b" ++ Json.renderFields fields ++ "\x7d"

/-- The elements of an array, between commas. -/
def Json.renderItems : List Json → String
  | [] => ""
  | [v] => v.render
  | v :: vs => v.render ++ "," ++ Json.renderItems vs

/-- The members of an object, between commas. -/
def Json.renderFields : List (String × Json) → String
  | [] => ""
  | [(k, v)] => Json.quote k ++ ":" ++ v.render
  | (k, v) :: fs => Json.quote k ++ ":" ++ v.render ++ "," ++ Json.renderFields fs

end

/-- `cap_result`: a value that is too long becomes the head of its
serialization. -/
def capResult (value : Json) (cap : Nat) : Json × Bool :=
  if value.render.utf8ByteSize ≤ cap then (value, false)
  else (.str (truncateText value.render cap), true)

/-! ### Clocks -/

/-- The last `std::time::Instant`, in nanoseconds. -/
def maxInstant : Int := Occurrence.I64_MAX * NS + (NS - 1)

/-- `Instant + Duration`, which panics on overflow. -/
def monoAdd (t : Int) (d : Nat) : Except Panic Int :=
  if maxInstant < t + d then .error (.instantOverflow (t + d)) else .ok (t + d)

/-- `DateTime + Duration`, which panics on overflow. -/
def wallAdd (t d : Int) : Except Panic Int :=
  if Occurrence.maxUtc < t + d then .error (.dateTimeOverflow (t + d)) else .ok (t + d)

/-- `chrono::Duration::from_std`: out of range past `i64::MAX` milliseconds. -/
def fromStd (d : Nat) : Option Int :=
  if (d : Int) ≤ Occurrence.I64_MAX * 1000000 then some d else none

/-- The nearest integer, and between two the even one. -/
def roundTiesEven (q : Rat) : Int :=
  let below := q.floor
  if q - below < 1 / 2 then below
  else if 1 / 2 < q - below then below + 1
  else if below % 2 = 0 then below else below + 1

/-- `Duration::from_secs_f64`, in nanoseconds; past the range of `Duration`
it panics. -/
def fromSecsF64 (secs : Rat) : Except Panic Nat :=
  let nanos := roundTiesEven (secs * 1000000000)
  if 18446744073709551616 * NS ≤ nanos then .error (.durationOutOfBounds secs.floor)
  else .ok nanos.toNat

/-! ### The engine's memory -/

inductive DeadlineKind where
  | pickup
  | watchdog
  deriving Repr, DecidableEq

/-- A live countdown on the monotonic clock. -/
structure MonoDeadline where
  kind : DeadlineKind
  at_ : Int
  deriving Repr, DecidableEq

/-- The live countdowns by run, and the hints for the scheduler's heap. -/
structure DeadlineBook where
  entries : List (Uuid × MonoDeadline) := []
  armedHints : List (Uuid × DeadlineKind × Int) := []
  deriving Repr, DecidableEq

namespace DeadlineBook

def get (b : DeadlineBook) (runId : Uuid) : Option MonoDeadline :=
  (b.entries.find? (·.1 == runId)).map Prod.snd

def remove (b : DeadlineBook) (runId : Uuid) : DeadlineBook :=
  { b with entries := b.entries.filter fun e => e.1 ≠ runId }

def insert (b : DeadlineBook) (runId : Uuid) (d : MonoDeadline) : DeadlineBook :=
  { b with entries := b.entries.filter (fun e => e.1 ≠ runId) ++ [(runId, d)] }

/-- Remove the countdown of a run if it is of the given kind. -/
def removeKind (b : DeadlineBook) (runId : Uuid) (kind : DeadlineKind) : DeadlineBook :=
  if (b.get runId).any (·.kind == kind) then b.remove runId else b

def armHint (b : DeadlineBook) (runId : Uuid) (kind : DeadlineKind) (wallAt : Int) :
    DeadlineBook :=
  { b with armedHints := b.armedHints ++ [(runId, kind, wallAt)] }

end DeadlineBook

/-- The settings the engine reads: the pickup grace (nanoseconds), and the
watchdog factor as a rational. -/
structure ReplyConfig where
  pickupGrace : Nat
  watchdogFactor : Rat

/-- The tables and the memory that reply operations work on. -/
structure ReplyState where
  store : Store := {}
  anchors : List (Uuid × Int) := []
  book : DeadlineBook := {}

abbrev ReplyM (α : Type) : Type := Prog ReplyState Abort α

namespace ReplyM

/-- A store operation inside a reply operation. -/
def onStore {α : Type} (m : StoreM α) : ReplyM α :=
  Prog.zoom ReplyState.store (fun s r => { r with store := s }) m

def read {α : Type} (f : Store → α) : ReplyM α := do
  return f (← get).store

section Rules

variable {α : Type} {Q : α → ReplyState → Prop} {E : Abort → ReplyState → Prop} {r : ReplyState}

@[simp] theorem wp_onStore (m : StoreM α) :
    Prog.wp (onStore m) Q E r =
      Prog.wp m (fun a s => Q a { r with store := s }) (fun e s => E e { r with store := s })
        r.store :=
  Prog.wp_zoom

@[simp] theorem wp_read (f : Store → α) : Prog.wp (read f) Q E r = Q (f r.store) r := rfl

end Rules

/-- Change the deadline book. -/
def onBook (f : DeadlineBook → DeadlineBook) : ReplyM Unit :=
  modify fun r => { r with book := f r.book }

/-- `in_tx`: the tables roll back on failure; the memory does not. -/
def inTx {α : Type} (m : ReplyM α) : ReplyM α :=
  Prog.transact (fun r r' => { r' with store := r.store }) m

end ReplyM

open ReplyM

/-- What became of one ingested reply. -/
inductive IngestOutcome where
  | applied
  | duplicate
  | superseded
  | rejected (why : ReplyRejection)
  deriving Repr, DecidableEq

/-! ### Ingest -/

/-- The checks that look at the document alone: the run it names, the state
it reports, and the app that signs it. -/
def ReplyDocument.validate (doc : ReplyDocument) :
    Except ReplyRejection (Uuid × RunState × String) :=
  match doc.schema with
  | none => .error .missingSchema
  | some schema =>
    if schema ≠ REPLY_SCHEMA_V1 then .error .badSchema
    else
      match doc.runId with
      | none => .error .missingRunId
      | some runId =>
        match RunState.fromWire (doc.state.getD "") with
        | some newState =>
          if newState.isAppWritable then
            match doc.appName with
            | none => .error .missingAppName
            | some appName => .ok (runId, newState, appName)
          else if doc.state.isNone then .error .missingState
          else .error .reservedState
        | none => if doc.state.isNone then .error .missingState else .error .reservedState

/-- The fields a reply reports, folded into the row: an absent field keeps
what was folded in before. -/
def accumulate (row : RunStateRow) (doc : ReplyDocument) (newState : RunState) (nowWall : Int) :
    RunStateRow :=
  { row with
    acknowledgedAt :=
      (doc.acknowledgedAt.or row.acknowledgedAt).or
        (if newState = .acknowledged then some nowWall else none)
    expectedSecs := doc.expectedSecs.or row.expectedSecs
    errorDetection := doc.errorDetection.or row.errorDetection
    watchdogDeadline := if doc.errorDetection = some false then none else row.watchdogDeadline
    heartbeatAt := doc.heartbeatAt.or row.heartbeatAt
    progress := (doc.progress.map (truncateText · MAX_FREE_TEXT_BYTES)).or row.progress }

/-- A terminal verdict, folded into the row: the latest one wins wholesale. -/
def applyVerdict (row : RunStateRow) (doc : ReplyDocument) (newState : RunState) (nowWall : Int) :
    RunStateRow :=
  match newState with
  | .completed =>
    { row with
      completedAt := some (doc.completedAt.getD nowWall)
      resultJson :=
        (doc.result.map fun r => (capResult r MAX_RESULT_STATUS_BYTES).1).or row.resultJson
      resultTruncated :=
        match doc.result with
        | some r => (capResult r MAX_RESULT_STATUS_BYTES).2
        | none => row.resultTruncated
      failedAt := none
      reason := none
      failureKind := none }
  | .failed =>
    { row with
      failedAt := some (doc.failedAt.getD nowWall)
      reason := (doc.reason.map (truncateText · MAX_FREE_TEXT_BYTES)).or row.reason
      failureKind := some .reported
      completedAt := none
      resultJson := none
      resultTruncated := false }
  | _ => row

/-- `watchdog_span`. -/
def watchdogSpan (cfg : ReplyConfig) (expectedSecs : Nat) : Except Panic Nat :=
  fromSecsF64 (max (expectedSecs * cfg.watchdogFactor) 0)

/-- The watchdog of a non-terminal report: armed from Bellman's receipt. -/
def armWatchdog (cfg : ReplyConfig) (runId : Uuid) (expectedSecs : Nat) (nowWall monoNow : Int) :
    ReplyM Int := do
  let span ← onStore (orPanic (watchdogSpan cfg expectedSecs))
  let at_ ← onStore (orPanic (monoAdd monoNow span))
  onBook (·.insert runId ⟨.watchdog, at_⟩)
  let wall ← onStore (orPanic (wallAdd nowWall ((fromStd span).getD 0)))
  onBook (·.armHint runId .watchdog wall)
  return wall

/-- The deadline bookkeeping of an accepted reply; the row's persisted
watchdog deadline follows the book. -/
def rearm (cfg : ReplyConfig) (row : RunStateRow) (newState : RunState) (nowWall monoNow : Int) :
    ReplyM RunStateRow := do
  onBook (·.removeKind row.runId .pickup)
  if newState.isTerminal then
    onBook (·.remove row.runId)
    return { row with watchdogDeadline := none }
  else if row.errorDetection = some true ∧ 0 < row.expectedSecs.getD 0 then
    let wall ← armWatchdog cfg row.runId (row.expectedSecs.getD 0) nowWall monoNow
    return { row with watchdogDeadline := some wall }
  else
    onBook (·.removeKind row.runId .watchdog)
    return row

/-- `duration_ms`: from the monotonic anchor, which is consumed, or from the
wall clock when there is none. -/
def durationMs (runId : Uuid) (firedAt nowWall monoNow : Int) : ReplyM (Int × Option String) :=
  modifyGet fun r =>
    match r.anchors.find? (·.1 == runId) with
    | some (_, anchor) =>
      ((max 0 (min ((monoNow - anchor) / 1000000) Occurrence.I64_MAX), none),
        { r with anchors := r.anchors.filter fun a => a.1 ≠ runId })
    | none => ((max 0 ((nowWall - firedAt) / 1000000), some "wall_clock"), r)

/-- The `acknowledged` line of a reply, logged once per run. -/
def logAcknowledged (timer : Timer) (claim : RunClaim) (row : RunStateRow) (nowWall : Int) :
    StoreM RunStateRow := do
  if row.acknowledgedLogged = false ∧ row.acknowledgedAt.isSome then
    let detail := [("app_name", Json.str row.appName)] ++
      (row.expectedSecs.map fun n => ("expected_secs", Json.num n)).toList ++
      (row.errorDetection.map fun b => ("error_detection", Json.bool b)).toList
    emit .acknowledged (row.acknowledgedAt.getD nowWall) (.ofRun timer claim)
      { detail := some (.obj detail) }
    return { row with acknowledgedLogged := true }
  else return row

/-- The `running` line of a reply, logged once per run. -/
def logRunning (timer : Timer) (claim : RunClaim) (row : RunStateRow) (doc : ReplyDocument)
    (newState : RunState) (nowWall : Int) : StoreM RunStateRow := do
  if newState = .running ∧ row.runningLogged = false then
    emit .running (doc.heartbeatAt.getD nowWall) (.ofRun timer claim) {}
    return { row with runningLogged := true }
  else return row

/-- What a terminal report adds to its line: the detail members, the
message, and the instant it is logged at. -/
def verdictParts (row : RunStateRow) (doc : ReplyDocument) (newState : RunState)
    (nowWall utc : Int) : List (String × Json) × Option String × Int :=
  match newState with
  | .completed =>
    let members := match doc.result with
      | some r =>
        let (capped, truncated) := capResult r MAX_RESULT_EVENT_BYTES
        [("result", capped)] ++ if truncated then [("result_truncated", .bool true)] else []
      | none => []
    (members, none, row.completedAt.getD nowWall)
  | .failed =>
    ([("failure_kind", .str FailureKind.reported.asStr)], row.reason, row.failedAt.getD nowWall)
  | _ => ([], none, utc)

/-- The line of a terminal report, logged when the state changes. -/
def logVerdict (timer : Timer) (claim : RunClaim) (row : RunStateRow) (doc : ReplyDocument)
    (curState newState : RunState) (nowWall monoNow utc : Int) : ReplyM Unit := do
  if newState.isTerminal ∧ curState ≠ newState then
    let (ms, source) ← durationMs row.runId row.firedAt nowWall monoNow
    let (members, message, loggedAt) := verdictParts row doc newState nowWall utc
    let detail := (source.map fun s => ("duration_source", Json.str s)).toList ++ members
    onStore (emit newState loggedAt (.ofRun timer claim)
      { durationMs := some ms
        message := message
        detail := if detail.isEmpty then none else some (.obj detail) })
  else return ()

/-- An estimate as its column keeps it: written with `as i64`, and read back
with `max(0) as u64`. -/
def expectedColumn (secs : Nat) : Nat := (BitVec.ofNat 64 secs).toInt.toNat

/-- `apply`: the accept path.  The estimate of the row comes from the reply
here and from its column everywhere else. -/
def apply (cfg : ReplyConfig) (timer : Timer) (claim : RunClaim) (row : RunStateRow)
    (doc : ReplyDocument) (newState : RunState) (digest : String)
    (nowWall monoNow utc : Int) : ReplyM Unit := do
  let curState := row.state
  let row := applyVerdict (accumulate row doc newState nowWall) doc newState nowWall
  -- Any valid reply satisfies pickup.
  let row := { row with pickupDeadline := none, state := newState }
  let row ← rearm cfg row newState nowWall monoNow
  let row ← onStore (logAcknowledged timer claim row nowWall)
  let row ← onStore (logRunning timer claim row doc newState nowWall)
  logVerdict timer claim row doc curState newState nowWall monoNow utc
  onStore (updateRunStateConn { row with
    expectedSecs := row.expectedSecs.map expectedColumn
    replyDigest := some digest })

/-- A reply to a run that is no longer current: logged once per distinct
content, never applied. -/
def ingestStale (timer : Timer) (claim : RunClaim) (digest : String) (utc : Int) :
    StoreM IngestOutcome := do
  let row := (← get).getRunState claim.runId
  if (row.bind (·.replyDigest)) = some digest then return .superseded
  else
    emit .superseded utc (.ofRun timer claim)
      { message := some "reply arrived for a run that is no longer current" }
    match row with
    | some row => updateRunStateConn { row with replyDigest := some digest }
    | none => pure ()
    return .superseded

/-- The row of the current run; a run without one gets the row of a fire. -/
def currentRow (s : Store) (timer : Timer) (claim : RunClaim) (appName : String)
    (nowWall : Int) : RunStateRow :=
  (s.getRunState claim.runId).getD
    (RunStateRow.ofFire claim.runId timer.id appName .fired claim.claimedAt nowWall)

/-- Owner, regression and estimate checks against the row. -/
def RunStateRow.refuses (row : RunStateRow) (doc : ReplyDocument) (appName : String)
    (newState : RunState) : Option ReplyRejection :=
  if appName ≠ row.appName then some .wrongAppName
  else if row.isAppAuthoredTerminal ∧ (newState = .acknowledged ∨ newState = .running) then
    some .terminalRegression
  else if doc.errorDetection = some true ∧ (doc.expectedSecs.or row.expectedSecs).getD 0 = 0 then
    some .errorDetectionWithoutEstimate
  else none

/-- `ingest_inner`. -/
def ingestInner (cfg : ReplyConfig) (timer : Timer) (doc : ReplyDocument) (digest : String)
    (nowWall monoNow utc : Int) (currentOverride : Option Uuid) : ReplyM IngestOutcome := do
  match doc.validate with
  | .error why => return .rejected why
  | .ok (runId, newState, appName) =>
    match ← read (·.getRun runId) with
    | none => return .rejected .unknownRun
    | some claim =>
      if claim.timerId ≠ timer.id then return .rejected .unknownRun
      else
        let newest ← read fun s => (s.runsForTimer timer.id).getLast?.map (·.runId)
        if currentOverride.or newest ≠ some runId then onStore (ingestStale timer claim digest utc)
        else
          let row ← read (currentRow · timer claim appName nowWall)
          match row.refuses doc appName newState with
          | some why => return .rejected why
          | none =>
            if row.replyDigest = some digest then return .duplicate
            else
              apply cfg timer claim row doc newState digest nowWall monoNow utc
              return .applied

/-- `ingest`. -/
def ingest (cfg : ReplyConfig) (timer : Timer) (doc : ReplyDocument) (digest : String)
    (nowWall monoNow utc : Int) : ReplyM IngestOutcome :=
  inTx (ingestInner cfg timer doc digest nowWall monoNow utc none)

/-- `ingest_as_current`, inside the caller's transaction. -/
def ingestAsCurrent (cfg : ReplyConfig) (timer : Timer) (doc : ReplyDocument) (digest : String)
    (asCurrent : Uuid) (nowWall monoNow utc : Int) : ReplyM IngestOutcome :=
  ingestInner cfg timer doc digest nowWall monoNow utc (some asCurrent)

/-- `log_rejection`. -/
def logRejection (timer : Timer) (runId : Option Uuid) (reason : String) (utc : Int) :
    StoreM Unit :=
  emit .replyRejected utc { timerId := some timer.id, timerName := some timer.name, runId }
    { message := some reason }

/-! ### Pickup by the slot feed, and the deadlines -/

/-- The states a run is in before any pickup signal. -/
def RunState.isFired : RunState → Bool
  | .fired | .firedLate | .coalesced => true
  | _ => false

/-- `mark_acknowledged`. -/
def markAcknowledged (timer : Timer) (claim : RunClaim) (row : RunStateRow)
    (nowWall : Int) : ReplyM Unit := do
  let row := { row with
    state := .acknowledged
    acknowledgedAt := some nowWall
    pickupDeadline := none }
  onBook (·.removeKind row.runId .pickup)
  if row.acknowledgedLogged = false then
    onStore (emit .acknowledged nowWall (.ofRun timer claim)
      { detail := some (.obj [("app_name", .str row.appName), ("via", .str "ack_through")]) })
    onStore (updateRunStateConn { row with acknowledgedLogged := true })
  else
    onStore (updateRunStateConn row)

/-- `on_ack_through`: whether the cursor moved the current run. -/
def onAckThrough (timer : Timer) (throughSequence : Nat) (nowWall : Int) : ReplyM Bool := do
  match ← read (·.currentRunState timer.id) with
  | none => return false
  | some row =>
    match ← read (·.getRun row.runId) with
    | none => return false
    | some claim =>
      if throughSequence < claim.eventSequence then return false
      else if (row.pickupDeadline.isSome ∧ row.state.isFired) ∨ row.state = .noAck then
        inTx (markAcknowledged timer claim row nowWall)
        return true
      else return false

/-- `expire_pickup_one_inner`. -/
def expirePickupOneInner (timer : Timer) (runId : Uuid) (nowWall : Int) : ReplyM Bool := do
  match ← read (·.getRunState runId) with
  | none => return false
  | some row =>
    if row.pickupDeadline.isNone then return false
    else
      let current ← read fun s => (s.currentRunState timer.id).map (·.runId)
      if current ≠ some runId then return false
      else
        match ← read (·.getRun runId) with
        | none => return false
        | some claim =>
          if row.state.isFired = false then return false
          else
            let acked ← read (·.lastAckedSequence timer.id)
            if claim.eventSequence ≤ acked then
              -- The slot feed is an acknowledgement path of its own.
              markAcknowledged timer claim row nowWall
              return true
            else
              onBook (·.remove runId)
              onStore (emit .noAck nowWall (.ofRun timer claim)
                { message := some "no acknowledgement was received" })
              onStore (updateRunStateConn
                { row with state := .noAck, noAckAt := some nowWall, pickupDeadline := none })
              return true

/-- `expire_pickup_one`. -/
def expirePickupOne (timer : Timer) (runId : Uuid) (nowWall : Int) : ReplyM Bool :=
  inTx (expirePickupOneInner timer runId nowWall)

/-- `expire_watchdog_one_inner`. -/
def expireWatchdogOneInner (timer : Timer) (runId : Uuid) (nowWall monoNow : Int) :
    ReplyM Bool := do
  match ← read (·.getRunState runId) with
  | none => return false
  | some row =>
    if row.watchdogDeadline.isNone then return false
    else if row.isTerminal ∨ row.errorDetection ≠ some true then return false
    else
      let current ← read fun s => (s.currentRunState timer.id).map (·.runId)
      if current ≠ some runId then return false
      else
        match ← read (·.getRun runId) with
        | none => return false
        | some claim =>
          onBook (·.remove runId)
          let (ms, source) ← durationMs runId row.firedAt nowWall monoNow
          let detail := [("failure_kind", Json.str FailureKind.timedOut.asStr)] ++
            (source.map fun s => ("duration_source", Json.str s)).toList
          onStore (emit .failed nowWall (.ofRun timer claim)
            { durationMs := some ms
              detail := some (.obj detail)
              message := some "error_detection watchdog expired" })
          onStore (updateRunStateConn
            { row with
              state := .failed
              failureKind := some .timedOut
              failedAt := some nowWall
              watchdogDeadline := none })
          return true

/-- `expire_watchdog_one`. -/
def expireWatchdogOne (timer : Timer) (runId : Uuid) (nowWall monoNow : Int) : ReplyM Bool :=
  inTx (expireWatchdogOneInner timer runId nowWall monoNow)

/-- `register_fire`: the pickup countdown, the duration anchor and the heap
hint of a fire that has just committed. -/
def registerFire (cfg : ReplyConfig) (runId : Uuid) (nowWall monoNow : Int) : ReplyM Unit := do
  modify fun r =>
    { r with anchors := r.anchors.filter (fun a => a.1 ≠ runId) ++ [(runId, monoNow)] }
  let wallAt ← onStore (orPanic (wallAdd nowWall ((fromStd cfg.pickupGrace).getD (secs 60))))
  let at_ ← onStore (orPanic (monoAdd monoNow cfg.pickupGrace))
  onBook (·.insert runId ⟨.pickup, at_⟩)
  onBook (·.armHint runId .pickup wallAt)

/-- `clear_deadlines`. -/
def clearDeadlines (runId : Uuid) : ReplyM Unit := onBook (·.remove runId)

end Bellman
