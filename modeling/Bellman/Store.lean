/-
Bellman/Store.lean

The store: its tables, and the operations on them.

A table is the list of its rows in insertion order.  Operations are
programs over the store that may abort; a transaction is `atomically` of
its body, so an aborted one leaves every table as it was.  Wall-clock
readings (`Utc::now()`) are arguments.

All statements that change rows of the run ledger in place are instances of
one, `updateRuns p f`: the rows that meet `p` become their image under `f`,
and the number of rows changed is returned.

Fresh ids come from the counter `nextUuid`, which stands for the random
source of `Uuid::new_v4`: every draw is an id never drawn before.

Main results: `Store.Wf`, the constraints that the schema and the insert
discipline maintain (ids are unique, a slot is claimed once, event
sequences of a timer grow in commit order), kept by every operation, and
the spec lemma of each operation on the run ledger.
-/
import Bellman.Lib.Prog
import Bellman.Models
import Mathlib.Data.List.Sort

namespace Bellman

open ProgramLogic

/-! ### Errors -/

inductive StoreError where
  | sqlite (message : String)
  | notFound (id : Uuid)
  | staleRevision (id : Uuid) (expected actual : Int)
  | alreadyClaimed (timerId : Uuid) (scheduledFor : Int)
  | runNotFound (runId : Uuid)
  | invalidOccurrence (message : String)
  | internal (message : String)
  deriving Repr, DecidableEq

/-- Why a store operation did not return: an error, or a panic of the
schedule code it called. -/
inductive Abort where
  | error (e : StoreError)
  | panic (p : Panic)
  deriving Repr, DecidableEq

/-! ### Tables -/

structure Store where
  timers : List Timer := []
  runs : List RunClaim := []
  runStates : List RunStateRow := []
  timerOwners : List (Uuid × String) := []
  slotEventAcks : List (Uuid × Nat) := []
  eventOutbox : List EventRecord := []
  transportProjections : List TransportProjection := []
  targetCursors : List (String × Nat) := []
  nextUuid : Nat := 0

/-- Programs over the store. -/
abbrev StoreM (α : Type) : Type := Prog Store Abort α

/-- Raise a store error. -/
def fail {α : Type} (e : StoreError) : StoreM α := throw (.error e)

/-- Run schedule code inside a store operation. -/
def orPanic {α : Type} : Except Panic α → StoreM α
  | .ok a => pure a
  | .error p => throw (.panic p)

def newUuid : StoreM Uuid :=
  modifyGet fun s => (⟨s.nextUuid⟩, { s with nextUuid := s.nextUuid + 1 })

/-- The id asked for, or a fresh one. -/
def orNewUuid : Option Uuid → StoreM Uuid
  | some id => pure id
  | none => newUuid

theorem wp_orPanic {α : Type} {x : Except Panic α} {Q : α → Store → Prop}
    {E : Abort → Store → Prop} {s : Store} :
    Prog.wp (orPanic x) Q E s ↔
      (∀ a, x = .ok a → Q a s) ∧ (∀ p, x = .error p → E (.panic p) s) := by
  cases x <;> simp [orPanic]

/-! ### Timers -/

namespace Store

def getTimer (s : Store) (id : Uuid) : Option Timer := s.timers.find? (·.id == id)

def putTimer (s : Store) (t : Timer) : Store :=
  { s with timers := s.timers.map fun u => if u.id = t.id then t else u }

/-- `list_timers`: by name, then id. -/
def listTimers (s : Store) : List Timer :=
  s.timers.insertionSort fun a b => a.name < b.name ∨ (a.name = b.name ∧ a.id.n ≤ b.id.n)

/-- `timers_due_by`: enabled timers with a next fire at or before `horizon`,
by next fire, then id. -/
def timersDueBy (s : Store) (horizon : Int) : List Timer :=
  (s.timers.filter fun t => t.enabled && (t.nextFireUtc.any fun nf => decide (nf ≤ horizon)))
    |>.insertionSort fun a b =>
      a.nextFireUtc.getD 0 < b.nextFireUtc.getD 0 ∨
        (a.nextFireUtc.getD 0 = b.nextFireUtc.getD 0 ∧ a.id.n ≤ b.id.n)

def getTimerOwner (s : Store) (timerId : Uuid) : Option String :=
  (s.timerOwners.find? (·.1 == timerId)).map Prod.snd

def lastAckedSequence (s : Store) (timerId : Uuid) : Nat :=
  ((s.slotEventAcks.find? (·.1 == timerId)).map Prod.snd).getD 0

end Store

/-- `compute_next_fire`: the next fire after `lastFired`, or after `now` for
a timer that never fired. -/
def computeNextFire [Calendar] (occ : Occurrence) (lastFired : Option Int) (now : Int) :
    Except Panic (Option Int × Occurrence) := do
  let _ ← occ.timezone
  occ.nextFire (lastFired.getD now)

/-- `apply_patch`: set the fields the patch names; a new schedule is
validated. -/
def applyPatch (timer : Timer) (patch : TimerPatch) : Except StoreError Timer :=
  let patched : Timer :=
    { timer with
      name := patch.name.getD timer.name
      enabled := patch.enabled.getD timer.enabled
      occurrence := patch.occurrence.getD timer.occurrence
      misfire := patch.misfire.getD timer.misfire
      overlap := patch.overlap.getD timer.overlap
      retry := patch.retry.getD timer.retry
      tags := patch.tags.getD timer.tags
      action := patch.action.getD timer.action
      lastFired := patch.lastFired.getD timer.lastFired
      jitterSecs := patch.jitterSecs.getD timer.jitterSecs
      accuracySlackSecs := patch.accuracySlackSecs.getD timer.accuracySlackSecs
      wakeMachine := patch.wakeMachine.getD timer.wakeMachine
      transport := patch.transport.getD timer.transport }
  match patch.occurrence with
  | none => .ok patched
  | some occ =>
    match occ.kind.validate with
    | .error m => .error (.invalidOccurrence m)
    | .ok _ => .ok patched

/-- A timer whose schedule has just been searched: the next fire, the
schedule that came back, and the mirrors of the schedule's limits. -/
def Timer.withNextFire (t : Timer) (fire : Option Int) (occ : Occurrence) : Timer :=
  { t with
    nextFireUtc := fire
    occurrence := occ
    tz := occ.tz
    maxRuns := occ.maxRuns
    validFrom := occ.validFrom
    validUntil := occ.validUntil }

/-- `create_timer_tx`. -/
def createTimerTx [Calendar] (new : NewTimer) (now : Int) : StoreM Timer := do
  match new.occurrence.kind.validate with
  | .error m => fail (.invalidOccurrence m)
  | .ok _ =>
    let id ← orNewUuid new.id
    let (next, occ) ← orPanic (computeNextFire new.occurrence new.lastFired now)
    let timer : Timer :=
      { id
        name := new.name
        enabled := new.enabled
        occurrence := occ
        tz := occ.tz
        nextFireUtc := next
        lastFired := new.lastFired
        misfire := new.misfire
        overlap := new.overlap
        retry := new.retry
        validFrom := occ.validFrom
        validUntil := occ.validUntil
        maxRuns := occ.maxRuns
        tags := new.tags
        action := new.action
        revision := 1
        jitterSecs := new.jitterSecs
        accuracySlackSecs := new.accuracySlackSecs
        wakeMachine := new.wakeMachine
        transport := new.transport }
    let s ← get
    if (s.getTimer id).isSome then
      fail (.sqlite "UNIQUE constraint failed: timers.id")
    else
      set { s with timers := s.timers ++ [timer] }
      return timer

/-- `update_timer_tx`: apply the patch if the revision is the one expected,
and recompute the next fire. -/
def updateTimerTx [Calendar] (update : TimerUpdate) (now : Int) : StoreM Timer := do
  let s ← get
  match s.getTimer update.id with
  | none => fail (.notFound update.id)
  | some current =>
    if current.revision ≠ update.expectedRevision then
      fail (.staleRevision update.id update.expectedRevision current.revision)
    else
      match applyPatch current update.patch with
      | .error e => fail e
      | .ok next =>
        let (fire, occ) ← orPanic (computeNextFire next.occurrence next.lastFired now)
        let next := { next.withNextFire fire occ with revision := next.revision + 1 }
        set (s.putTimer next)
        return next

/-- `delete_timer`: whether a row was removed. -/
def deleteTimer (id : Uuid) : StoreM Bool :=
  modifyGet fun s =>
    ((s.getTimer id).isSome, { s with timers := s.timers.filter fun t => t.id ≠ id })

/-- `set_timer_owner`. -/
def setTimerOwner (timerId : Uuid) (appName : String) : StoreM Unit :=
  modify fun s =>
    { s with timerOwners := s.timerOwners.filter (fun o => o.1 ≠ timerId) ++ [(timerId, appName)] }

/-- `clear_timer_owner`. -/
def clearTimerOwner (timerId : Uuid) : StoreM Unit :=
  modify fun s => { s with timerOwners := s.timerOwners.filter fun o => o.1 ≠ timerId }

/-- `ack_run_events_tx`: advance the ack cursor, never back. -/
def ackRunEventsTx (timerId : Uuid) (throughSequence : Nat) : StoreM Nat :=
  modifyGet fun s =>
    let new := max (s.lastAckedSequence timerId) throughSequence
    (new, { s with
      slotEventAcks := s.slotEventAcks.filter (fun a => a.1 ≠ timerId) ++ [(timerId, new)] })

/-! ### The run ledger -/

namespace Store

def getRun (s : Store) (runId : Uuid) : Option RunClaim := s.runs.find? (·.runId == runId)

/-- The order of `ORDER BY event_sequence, scheduled_for, run_id`. -/
def runLe (a b : RunClaim) : Prop :=
  a.eventSequence < b.eventSequence ∨ (a.eventSequence = b.eventSequence ∧
    (a.scheduledFor < b.scheduledFor ∨
      (a.scheduledFor = b.scheduledFor ∧ a.runId.n ≤ b.runId.n)))

instance : DecidableRel runLe := fun a b => by unfold runLe; infer_instance

/-- `runs_for_timer`: the claims of a timer, oldest first. -/
def runsForTimer (s : Store) (timerId : Uuid) : List RunClaim :=
  (s.runs.filter (·.timerId == timerId)).insertionSort runLe

/-- `get_claim_for`: the claim of one slot. -/
def getClaimFor (s : Store) (timerId : Uuid) (scheduledFor : Int) : Option RunClaim :=
  s.runs.find? fun r => r.timerId == timerId && r.scheduledFor == scheduledFor

/-- `pending_claims`: by claim time, then id. -/
def pendingClaims (s : Store) : List RunClaim :=
  (s.runs.filter (·.status == .pending)).insertionSort fun a b =>
    a.claimedAt < b.claimedAt ∨ (a.claimedAt = b.claimedAt ∧ a.runId.n ≤ b.runId.n)

/-- `cancel_requested_active`: active claims asked to cancel. -/
def cancelRequestedActive (s : Store) : List Uuid :=
  ((s.runs.filter fun r => r.status == .active && r.cancelRequested).map (·.runId)).insertionSort
    fun a b => a.n ≤ b.n

/-- `COALESCE(MAX(event_sequence), 0) + 1` over the timer's claims. -/
def nextSequence (s : Store) (timerId : Uuid) : Nat :=
  ((s.runs.filter (·.timerId == timerId)).map (·.eventSequence)).foldl max 0 + 1

/-- `unfinished_claims_count_conn`: the older executable claims. -/
def unfinishedClaimsCount (s : Store) (timerId exclude : Uuid) : Nat :=
  (s.runs.filter fun r => r.timerId == timerId && r.runId != exclude && r.isUnfinished).length

/-- `pending_claims_for_timer_conn`: the pending ones, oldest first. -/
def pendingClaimsForTimer (s : Store) (timerId exclude : Uuid) : List RunClaim :=
  (s.runs.filter fun r => r.timerId == timerId && r.runId != exclude && r.status == .pending)
    |>.insertionSort fun a b =>
      a.eventSequence < b.eventSequence ∨
        (a.eventSequence = b.eventSequence ∧ a.runId.n ≤ b.runId.n)

end Store

/-- The pending claim of a slot, with the next event sequence of its timer. -/
def Store.newClaim (s : Store) (runId timerId : Uuid) (scheduledFor now : Int) : RunClaim :=
  { runId, timerId, scheduledFor
    status := .pending
    claimedAt := now
    completedAt := none
    eventSequence := s.nextSequence timerId
    outcome := none
    outcomeReason := none
    cancelRequested := false }

/-- `claim_run_conn`: insert the pending claim of a slot.  A claim of the
same slot, or with the same id, makes it fail. -/
def claimRunConn (timerId : Uuid) (scheduledFor now : Int) : StoreM RunClaim := do
  let runId ← newUuid
  let s ← get
  let claim := s.newClaim runId timerId scheduledFor now
  if (s.getRun runId).isSome ∨ (s.getClaimFor timerId scheduledFor).isSome then
    fail (.alreadyClaimed timerId scheduledFor)
  else
    set { s with runs := s.runs ++ [claim] }
    return claim

/-- `UPDATE runs SET … WHERE …`: the number of rows changed. -/
def updateRuns (p : RunClaim → Bool) (f : RunClaim → RunClaim) : StoreM Nat :=
  modifyGet fun s =>
    ((s.runs.filter p).length, { s with runs := s.runs.map fun r => if p r then f r else r })

/-- The finished form of a claim. -/
def RunClaim.finish (outcome : RunOutcome) (reason : Option String) (now : Int) (r : RunClaim) :
    RunClaim :=
  { r with
    status := .finished
    outcome := some outcome
    outcomeReason := reason
    completedAt := some now }

/-- `finish_run_conn`: whether this call moved the row. -/
def finishRunConn (runId : Uuid) (outcome : RunOutcome) (reason : Option String) (now : Int) :
    StoreM Bool := do
  let n ← updateRuns (fun r => r.runId == runId && r.isUnfinished) (.finish outcome reason now)
  return n == 1

/-- `finish_run`: finish a claim, or fail when it is finished or unknown. -/
def finishRun (runId : Uuid) (outcome : RunOutcome) (reason : Option String) (now : Int) :
    StoreM RunClaim := do
  if ← finishRunConn runId outcome reason now then
    match (← get).getRun runId with
    | some r => return r
    | none => fail (.runNotFound runId)
  else fail (.runNotFound runId)

/-- `complete_run`. -/
def completeRun (runId : Uuid) (now : Int) : StoreM RunClaim :=
  finishRun runId .wakeDelivered none now

/-- `fail_run`. -/
def failRun (runId : Uuid) (now : Int) : StoreM RunClaim :=
  finishRun runId .wakeFailed none now

/-- `activate_run`: pending to active; whether this call won. -/
def activateRun (runId : Uuid) : StoreM Bool := do
  let n ← updateRuns (fun r => r.runId == runId && r.status == .pending)
    fun r => { r with status := .active }
  return n == 1

/-- `repend_run`: active back to pending. -/
def rependRun (runId : Uuid) : StoreM Unit :=
  discard <| updateRuns (fun r => r.runId == runId && r.status == .active)
    fun r => { r with status := .pending }

/-- `repend_all_active`: every active claim back to pending. -/
def rependAllActive : StoreM Nat :=
  updateRuns (fun r => r.status == .active) fun r => { r with status := .pending }

/-- `request_cancel_active_conn`: ask every active claim of the timer but
one to cancel; the ids newly asked. -/
def requestCancelActiveConn (timerId exclude : Uuid) : StoreM (List Uuid) := do
  let s ← get
  let ids := (s.runs.filter fun r =>
    r.timerId == timerId && r.runId != exclude && r.status == .active &&
      !r.cancelRequested).map (·.runId)
  let _ ← updateRuns
    (fun r => r.timerId == timerId && r.runId != exclude && r.status == .active)
    fun r => { r with cancelRequested := true }
  return ids

/-! ### Lifecycle rows -/

namespace Store

def getRunState (s : Store) (runId : Uuid) : Option RunStateRow :=
  s.runStates.find? (·.runId == runId)

/-- `current_run_state`: the row whose claim is the newest of the timer. -/
def currentRunState (s : Store) (timerId : Uuid) : Option RunStateRow :=
  let joined := (s.runStates.filter (·.timerId == timerId)).flatMap fun rs =>
    (s.runs.filter (·.runId == rs.runId)).map fun r => (rs, r)
  (joined.insertionSort fun a b => runLe b.2 a.2).head?.map Prod.fst

/-- The columns that `update_run_state_conn` writes; the others keep what
was inserted. -/
def mergeRunState (old row : RunStateRow) : RunStateRow :=
  { row with
    runId := old.runId
    timerId := old.timerId
    appName := old.appName
    firedAt := old.firedAt
    selectedTransport := old.selectedTransport }

end Store

/-- The columns that `insert_run_state_conn` writes; the others start empty. -/
def RunStateRow.inserted (row : RunStateRow) : RunStateRow :=
  { runId := row.runId
    timerId := row.timerId
    appName := row.appName
    state := row.state
    firedAt := row.firedAt
    pickupDeadline := row.pickupDeadline
    selectedTransport := row.selectedTransport
    transport := row.transport }

/-- `insert_run_state_conn`. -/
def insertRunStateConn (row : RunStateRow) : StoreM Unit := do
  let s ← get
  if (s.getRunState row.runId).isSome then
    fail (.sqlite "UNIQUE constraint failed: run_states.run_id")
  else
    set { s with runStates := s.runStates ++ [row.inserted] }

/-- `update_run_state_conn`; without such a row it changes nothing. -/
def updateRunStateConn (row : RunStateRow) : StoreM Unit :=
  modify fun s =>
    { s with runStates := s.runStates.map fun old =>
        if old.runId = row.runId then Store.mergeRunState old row else old }

/-- `set_run_transport`: the effective transport of a run. -/
def setRunTransport (runId : Uuid) (transport : String) : StoreM Unit :=
  modify fun s =>
    { s with runStates := s.runStates.map fun row =>
        if row.runId = runId then { row with transport := some transport } else row }

/-! ### Events -/

/-- `enqueue_event_conn`: an id already in the outbox is ignored. -/
def enqueueEventConn (rec : EventRecord) : StoreM Unit :=
  modify fun s =>
    if s.eventOutbox.any (·.eventId == rec.eventId) then s
    else { s with eventOutbox := s.eventOutbox ++ [rec] }

/-- Enqueue a new event.  `EventRecord::new` gives it a fresh id; the code
stamps it with the clock, or with an instant that it was told. -/
def emit (kind : RunState) (loggedAt : Int) (subject : EventSubject) (note : EventNote) :
    StoreM Unit := do
  let eventId ← newUuid
  enqueueEventConn { subject, note with kind, loggedAt, eventId }

/-- `mark_event_published`: the row leaves the outbox. -/
def markEventPublished (eventId : Uuid) : StoreM Unit :=
  modify fun s => { s with eventOutbox := s.eventOutbox.filter fun e => e.eventId ≠ eventId }

/-! ### Transport projections -/

/-- `next_publication_order_conn`. -/
def Store.nextPublicationOrder (s : Store) : Nat :=
  (s.transportProjections.map (·.publicationOrder)).foldl max 0 + 1

/-- `insert_transport_projection_conn`: the projection, and the cursor of
its target raised to its order. -/
def insertTransportProjectionConn (proj : TransportProjection) : StoreM Unit :=
  modify fun s =>
    let cursor := ((s.targetCursors.find? (·.1 == proj.targetPath)).map Prod.snd).getD 0
    { s with
      transportProjections :=
        s.transportProjections.filter (fun p => p.runId ≠ proj.runId) ++ [proj]
      targetCursors := s.targetCursors.filter (fun c => c.1 ≠ proj.targetPath) ++
        [(proj.targetPath, max cursor proj.publicationOrder)] }

/-- `prune_transport_for_timer`: the timer's projections, and the cursors
that no projection is left for. -/
def pruneTransportForTimer (timerId : Uuid) : StoreM Unit :=
  modify fun s =>
    let kept := s.transportProjections.filter fun p => p.timerId ≠ timerId
    { s with
      transportProjections := kept
      targetCursors := s.targetCursors.filter fun c => kept.any (·.targetPath == c.1) }

end Bellman
