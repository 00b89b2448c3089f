/-
Bellman/Scheduler.lean

The loop of the scheduler, with its heap.

The heap holds what the loop is to wake up for: the execution instant of a
timer, which is its next fire with jitter, and the deadline of a run.  Whoever
moves a row pushes an entry for it, and nobody takes one out again; an entry
is checked against the row, or the deadline book, when it comes up:

    drain_due    pop what is due, at most 1000 times
                   deadline         the book decides
                   fire, resolved   dropped
                   fire, too early  pushed again, at the execution instant
                   fire, due        `handle_due_timer`

    tick         messages, foreign commits, clock jump, drain_due

The handling of a due timer is that of `Misfire`, with the pushes it makes
on the way.  A clock is read anew by each push; the readings, and whatever
else the loop meets, are given by number.
-/
import Bellman.Lib.Agenda
import Bellman.Lib.Erasure
import Bellman.Settings
import Mathlib.Data.Prod.Lex

namespace Bellman

open ProgramLogic Prog ReplyM
open Windows (shiftUtc)
open Occurrence (I64_MAX)

/-! ### Entries -/

namespace HeapEntry

def at_ : HeapEntry → Int
  | fire execAt _ => execAt
  | deadline wallAt _ _ => wallAt

/-- `sort_key`: ids are compared as texts, which all have the same length. -/
def sortKey : HeapEntry → Nat × Nat
  | fire _ timerId => (0, timerId.n)
  | deadline _ runId _ => (1, runId.n)

/-- The order of the entries; it does not tell the deadlines of a run apart. -/
def key (e : HeapEntry) : Int ×ₗ Nat ×ₗ Nat := toLex (e.at_, toLex e.sortKey)

end HeapEntry

/-! ### The loop and what it meets -/

structure SchedulerConfig where
  horizon : Nat := 24 * 60 * 60 * 1000000000
  maxSleep : Nat := 30 * 1000000000
  externalRebuildInterval : Nat := 60 * 1000000000
  jumpThreshold : Nat := 3 * 1000000000
  pickupGrace : Nat := 60 * 1000000000
  deriving Repr, DecidableEq

/-- `ControlMsg`. -/
inductive ControlMsg where
  | refill
  | shutdown
  | setPauseAll (paused : Bool)
  | armDeadline (runId : Uuid) (kind : DeadlineKind) (wallAt : Int)
  deriving Repr, DecidableEq

structure Scheduler where
  memory : ReplyState := {}
  heap : List HeapEntry := []
  lastWall : Int := 0
  lastMono : Int := 0
  booted : Bool := false
  pauseAll : Bool := false
  lastDataVersion : Int := 0
  lastRebuildMono : Int := 0
  /-- How often the outside was asked. -/
  asked : Nat := 0

/-- What the loop meets: readings and luck, each by number. -/
structure Outside where
  handling : Handling
  hash : Uuid → Int → Nat
  layout : Layout HeapEntry := .asPut
  wall : Nat → Int
  mono : Nat → Int
  /-- `PRAGMA data_version`. -/
  dataVersion : Nat → Option Int := fun _ => none
  /-- Whether the gate of a timer, or its status file, cannot be had. -/
  gate : Uuid → Option String := fun _ => none
  projects : Uuid → Option String := fun _ => none

structure TickResult where
  fires : List DeliveredFire := []
  clockJump : Bool := false
  refilled : Bool := false
  shutdown : Bool := false
  deriving Repr, DecidableEq

/-- The arithmetic of instants has aborted. -/
def SchedulerError.IsPanic (e : SchedulerError) : Prop := ∃ p, e = .abort (.panic p)

namespace Scheduler

abbrev EngineM (α : Type) : Type := Prog Scheduler SchedulerError α

/-- A step on the store and the deadline book. -/
def onMemory {α : Type} (m : SchedM α) : EngineM α :=
  zoom Scheduler.memory (fun r s => { s with memory := r }) m

/-- Arithmetic on instants aborts past the last one. -/
def orPanic {α : Type} : Except Panic α → EngineM α
  | .ok a => pure a
  | .error p => throw (.abort (.panic p))

/-- The next answer of the outside. -/
def ask {α : Type} (f : Nat → α) : EngineM α :=
  modifyGet fun s => (f s.asked, { s with asked := s.asked + 1 })

def push (e : HeapEntry) : EngineM Unit := modify fun s => { s with heap := e :: s.heap }

section

variable [Calendar] (o : Outside) (config : SchedulerConfig)

/-! ### Pushes -/

/-- `push_if_in_horizon`. -/
def pushIfInHorizon (fireAt : Int) (timerId : Uuid) : EngineM Unit := do
  let now ← ask o.wall
  let timer ← onMemory (getTimer timerId)
  let execAt ← orPanic
    (applyExecutionJitter o.hash timerId fireAt ((timer.map Timer.jitterSecs).getD 0))
  let horizonOk ← orPanic (withinHorizon config.horizon now execAt)
  if horizonOk || timer.any Timer.isHighFrequency then push (.fire execAt timerId)
  else return ()

/-- `requeue_timer`. -/
def requeueTimer (timerId : Uuid) : EngineM Unit := do
  match ← onMemory (getTimer timerId) with
  | none => return ()
  | some timer =>
    match timer.enabled, timer.nextFireUtc with
    | true, some nf => pushIfInHorizon o config nf timerId
    | _, _ => return ()

/-- The pickup deadline of a run that was just fired, if it is tracked. -/
def armPickup (claim : RunClaim) : EngineM Unit := do
  if ((← onMemory get).store.getRunState claim.runId).isSome then
    let wallAt ← orPanic
      (shiftUtc claim.claimedAt ((fromStd config.pickupGrace).getD (secs 60)))
    push (.deadline wallAt claim.runId .pickup)
  else return ()

/-! ### The handling of a due timer -/

def advancePastNow (timerId : Uuid) (now : Int) : EngineM Unit := do
  onMemory (Bellman.advancePastNow o.handling timerId now)
  requeueTimer o config timerId

def ensureAdvancedPast (timerId : Uuid) (scheduledFor wallNow : Int) : EngineM Unit := do
  match ← onMemory (getTimer timerId) with
  | none => return ()
  | some timer =>
    match timer.nextFireUtc.filter (scheduledFor < ·) with
    | some nf => pushIfInHorizon o config nf timerId
    | none =>
      onMemory (updateRow o.handling timer
        { lastFired := some (some scheduledFor), occurrence := some timer.occurrence })
      match ← onMemory (getTimer timerId) with
      | none => return ()
      | some t =>
        if t.nextFireUtc.any (· ≤ wallNow) then advancePastNow o config timerId wallNow
        else requeueTimer o config timerId

def actAndClose (timer : Timer) (claim : RunClaim) (kind : FireKind) :
    EngineM (Option DeliveredFire) := do
  let env := o.handling.delivery claim.scheduledFor
  if claim.status = .finished ∧ claim.completedAt.isSome ∧ claim.outcome.isNone then
    ensureAdvancedPast o config timer.id claim.scheduledFor env.wallNow
    return none
  else
    let inlineError ←
      if claim.status = .finished then pure none else onMemory (actOn o.handling env claim)
    onMemory (prunePass o.handling env timer)
    let fresh ← onMemory (getTimer timer.id)
    if fresh.any fun t => t.lastFired.all (· < claim.scheduledFor) then
      onMemory (markFired o.handling timer.id claim.scheduledFor)
    else requeueTimer o config timer.id
    match inlineError with
    | some e => throw (.action e)
    | none => return some ⟨timer.id, claim.scheduledFor, claim.runId, kind⟩

def deliverOne (timer : Timer) (scheduledFor : Int) (kind : FireKind) :
    EngineM (Option DeliveredFire) := do
  match ← onMemory (claimSlot o.handling timer scheduledFor kind) with
  | .new claim =>
    if o.handling.engine.isSome then armPickup config claim
    actAndClose o config timer claim kind
  | .taken =>
    match (← onMemory get).store.getClaimFor timer.id scheduledFor with
    | some claim =>
      if claim.isUnfinished then actAndClose o config timer claim kind
      else
        ensureAdvancedPast o config timer.id scheduledFor (o.handling.delivery scheduledFor).wallNow
        return none
    | none =>
      throw (.internal
        s!"AlreadyClaimed but no row for {timer.id.n} @ {o.handling.rfc3339 scheduledFor}")

def handleSkip (timer : Timer) (scheduledFor now : Int) : EngineM (List DeliveredFire) := do
  let lateness := now - scheduledFor
  if lateness ≤ graceFor timer then
    let delivered ← deliverOne o config timer scheduledFor (lateKind lateness)
    requeueTimer o config timer.id
    return delivered.toList
  else
    let walk ← onMemory (orAbort (walkMissed timer scheduledFor now))
    onMemory (logSkippedMisfire o.handling timer scheduledFor (max walk.length 1) now
      "misfire_skip_past_grace")
    advancePastNow o config timer.id now
    return []

def handleCoalesce (timer : Timer) (scheduledFor now : Int) : EngineM (List DeliveredFire) := do
  let walk ← onMemory (orAbort (walkMissed timer scheduledFor now))
  let inGrace := walk.filter fun m => now - m ≤ graceFor timer
  match inGrace.getLast? with
  | none =>
    onMemory (logSkippedMisfire o.handling timer scheduledFor (max walk.length 1) now
      "misfire_coalesce_backlog_past_grace")
    advancePastNow o config timer.id now
    return []
  | some fireAt =>
    let kind :=
      if 1 < walk.length ∨ 1 < inGrace.length then .coalesced (min walk.length 4294967295)
      else lateKind (now - fireAt)
    let delivered ← deliverOne o config timer fireAt kind
    advancePastNow o config timer.id now
    return delivered.toList

def catchUpLoop (timerId : Uuid) (now grace : Int) (maxCatchUp : Nat) :
    Nat → Int → Nat → List DeliveredFire → EngineM (List DeliveredFire)
  | 0, _, _, delivered => return delivered
  | fuel + 1, scheduled, index, delivered => do
    if now < scheduled ∨ maxCatchUp ≤ index then return delivered
    else if grace < now - scheduled then
      onMemory (anchorLastFired o.handling timerId scheduled)
      match ← onMemory (getTimer timerId) with
      | none => return delivered
      | some t =>
        match t.nextFireUtc with
        | none => return delivered
        | some nf =>
          if scheduled < nf then catchUpLoop timerId now grace maxCatchUp fuel nf index delivered
          else return delivered
    else
      match ← onMemory (getTimer timerId) with
      | none => return delivered
      | some timerNow =>
        let d ← deliverOne o config timerNow scheduled (.catchUp index)
        let delivered := delivered ++ d.toList
        match ← onMemory (getTimer timerId) with
        | none => return delivered
        | some t =>
          match t.nextFireUtc with
          | none => return delivered
          | some nf =>
            if now < nf then
              pushIfInHorizon o config nf timerId
              return delivered
            else catchUpLoop timerId now grace maxCatchUp fuel nf (index + 1) delivered

def handleCatchUp (timer : Timer) (graceSecs maxCatchUp : Nat) (scheduledFor now : Int) :
    EngineM (List DeliveredFire) := do
  let delivered ← catchUpLoop o config timer.id now (saturatingSecs graceSecs) maxCatchUp
    MAX_ADVANCE scheduledFor 0 []
  match ← onMemory (getTimer timer.id) with
  | none => return delivered
  | some t =>
    if t.nextFireUtc.any (· ≤ now) then
      advancePastNow o config timer.id now
      return delivered
    else
      requeueTimer o config timer.id
      return delivered

def handleDueTimer (timerId : Uuid) (now : Int) : EngineM (List DeliveredFire) := do
  match ← onMemory (getTimer timerId) with
  | none => return []
  | some timer =>
    if !timer.enabled then return []
    else
      match timer.nextFireUtc with
      | none => return []
      | some scheduledFor =>
        if now < scheduledFor then
          pushIfInHorizon o config scheduledFor timerId
          return []
        else
          match timer.misfire with
          | .skip => handleSkip o config timer scheduledFor now
          | .coalesce _ => handleCoalesce o config timer scheduledFor now
          | .catchUp graceSecs maxCatchUp =>
            handleCatchUp o config timer graceSecs maxCatchUp scheduledFor now

/-! ### Overdue timers and unfinished claims -/

/-- `misfire_pass`: jitter is not looked at. -/
def misfirePassOver (now : Int) : List Timer → EngineM (List DeliveredFire)
  | [] => return []
  | t :: ts => do
    if t.enabled && t.nextFireUtc.any (· ≤ now) then
      let fires ← handleDueTimer o config t.id now
      return fires ++ (← misfirePassOver now ts)
    else misfirePassOver now ts

def misfirePass : EngineM (List DeliveredFire) := do
  let now ← ask o.wall
  misfirePassOver o config now (← onMemory get).store.listTimers

/-- The loop of `recover_pending_claims`. -/
def recoverClaims : List RunClaim → EngineM (List DeliveredFire)
  | [] => return []
  | claim :: claims => do
    match ← onMemory (getTimer claim.timerId) with
    | none =>
      let _ ← onMemory (onRows (Prog.attempt (atomically (failRun claim.runId o.handling.utc))))
      recoverClaims claims
    | some timer =>
      let now ← ask o.wall
      let d ← actAndClose o config timer claim (.late (now - claim.scheduledFor))
      return d.toList ++ (← recoverClaims claims)

def recoverPendingClaims : EngineM (List DeliveredFire) := do
  if !o.handling.executesInline then return []
  else recoverClaims o config (← onMemory get).store.pendingClaims

/-! ### Deadlines -/

/-- The transition of a deadline that has passed, under the gate, and the
status file. -/
def expireOne (timer : Timer) (runId : Uuid) (kind : DeadlineKind) (now monoNow : Int) :
    EngineM Unit := do
  match o.gate timer.id with
  | some e => throw (.internal s!"per-timer gate: {e}")
  | none =>
    let transitioned ← onMemory (mapError
      (fun a => match a with
        | .error e => .internal s!"deadline transition: {o.handling.display e}"
        | .panic p => .abort (.panic p))
      (match kind with
        | .pickup => expirePickupOne timer runId now
        | .watchdog => expireWatchdogOne timer runId now monoNow))
    match transitioned, o.projects timer.id with
    | true, some e => throw (.internal s!"deadline projection: {e}")
    | _, _ => return ()

/-- `handle_due_deadline`: the entry is a hint, and the book decides. -/
def handleDueDeadline (runId : Uuid) (kind : DeadlineKind) (now : Int) : EngineM Unit := do
  if o.handling.engine.isNone then return ()
  else
    match (← onMemory get).book.get runId with
    | none => return ()
    | some entry =>
      let monoNow ← ask o.mono
      if monoNow < entry.at_ then
        let remaining := (entry.at_ - monoNow).toNat
        let wallAt ← orPanic (shiftUtc now ((fromStd remaining).getD (secs 1)))
        push (.deadline wallAt runId kind)
      else
        match (← onMemory get).store.getRunState runId with
        | none => return ()
        | some row =>
          match ← onMemory (getTimer row.timerId) with
          | none => return ()
          | some timer => expireOne o timer runId kind now monoNow

/-! ### The drain -/

def MAX_DRAIN : Nat := 1000

/-- What is done with an entry that is due: what is delivered, and the timer
that is resolved for the rest of the drain. -/
def drainEntry (now : Int) (resolved : List Uuid) :
    HeapEntry → EngineM (List DeliveredFire × List Uuid)
  | .deadline _ runId kind => do
    handleDueDeadline o runId kind now
    return ([], resolved)
  | .fire _ timerId => do
    if timerId ∈ resolved then return ([], resolved)
    else
      match ← onMemory (getTimer timerId) with
      | none => return ([], timerId :: resolved)
      | some timer =>
        match timer.enabled, timer.nextFireUtc with
        | true, some nf =>
          let execAt ← orPanic (applyExecutionJitter o.hash timer.id nf timer.jitterSecs)
          if now < execAt then
            push (.fire execAt timer.id)
            return ([], timer.id :: resolved)
          else if now < nf then
            push (.fire nf timer.id)
            return ([], timer.id :: resolved)
          else
            let delivered ← handleDueTimer o config timer.id now
            return (delivered, timer.id :: resolved)
        | _, _ => return ([], timer.id :: resolved)

/-- The loop of `drain_due`. -/
def drainLoop (now : Int) : Nat → List Uuid → EngineM (List DeliveredFire)
  | 0, _ => return []
  | fuel + 1, resolved => do
    let s ← get
    match pop o.layout HeapEntry.key s.heap with
    | none => return []
    | some (entry, rest) =>
      -- An entry that is not due is put back.
      if now < entry.at_ then return []
      else
        set { s with heap := rest }
        let (delivered, resolved) ← drainEntry o config now resolved entry
        return delivered ++ (← drainLoop now fuel resolved)

def drainDue (now : Int) : EngineM (List DeliveredFire) := drainLoop o config now MAX_DRAIN []

/-! ### The horizon -/

/-- `rebuild_horizon`: the heap is empty until the due timers are read, and
without the always resident ones until all timers are. -/
def rebuildHorizon : EngineM Unit := do
  let version ← ask o.dataVersion
  let monoNow ← ask o.mono
  modify fun s => { s with
    lastDataVersion := version.getD s.lastDataVersion
    lastRebuildMono := monoNow
    heap := [] }
  let now ← ask o.wall
  match fromStd config.horizon with
  | none =>
    throw (.internal "horizon duration: Source duration value is out of range for the target type")
  | some d =>
    let limit ← orPanic (shiftUtc now d)
    let sv : EngineState := ⟨(← get).memory, o.handling.engine.isSome⟩
    let due ← orStore (timersDueBy sv.rows limit)
    pushAll (← orPanic (due.mapM (fireEntry o.hash)))
    let timers ← orStore sv.listTimers
    pushAll (← orPanic ((timers.filter (IsResident due ·)).mapM (fireEntry o.hash)))
    let bookNow ← ask o.mono
    pushAll ((← orPanic (sv.deadlines.mapM (deadlineEntry now bookNow))).map some)
where
  orStore {α : Type} : Except StoreError α → EngineM α
    | .ok a => pure a
    | .error e => throw (.abort (.error e))
  pushAll (entries : List (Option HeapEntry)) : EngineM Unit :=
    modify fun s => { s with heap := entries.filterMap id ++ s.heap }

/-! ### The tick -/

/-- `external_store_changed`. -/
def externalStoreChanged : EngineM Bool := do
  let monoNow ← ask o.mono
  let s ← get
  if config.externalRebuildInterval ≤ (monoNow - s.lastRebuildMono).toNat then return true
  else
    match ← ask o.dataVersion with
    | some v => return v ≠ s.lastDataVersion
    | none => return false

/-- `is_clock_jump`, in whole milliseconds. -/
def isClockJump (s : Scheduler) (wall mono : Int) : Bool :=
  let wallMs := (wall - s.lastWall).tdiv 1000000
  let monoMs := min (((mono - s.lastMono).toNat / 1000000 : Nat) : Int) I64_MAX
  let divergence := (max (-I64_MAX - 1) (min I64_MAX (wallMs - monoMs))).natAbs
  let thresholdMs := min (config.jumpThreshold / 1000000) 18446744073709551615
  decide (thresholdMs < divergence)

/-- `boot`, after the maintenance and the scan of the replies. -/
def boot : EngineM (List DeliveredFire) := do
  let wall ← ask o.wall
  let mono ← ask o.mono
  modify fun s => { s with lastWall := wall, lastMono := mono }
  let recovered ← recoverPendingClaims o config
  let overdue ← misfirePass o config
  rebuildHorizon o config
  modify fun s => { s with booted := true }
  return recovered ++ overdue

/-- The messages, up to the end of the queue or to a shutdown. -/
def applyMessages : List ControlMsg → TickResult → EngineM TickResult
  | [], result => return result
  | .refill :: ms, result => do
    rebuildHorizon o config
    applyMessages ms { result with refilled := true }
  | .shutdown :: _, result => return { result with shutdown := true }
  | .setPauseAll paused :: ms, result => do
    modify fun s => { s with pauseAll := paused }
    applyMessages ms result
  | .armDeadline runId kind wallAt :: ms, result => do
    push (.deadline wallAt runId kind)
    applyMessages ms result

/-- What a tick does when the loop is not paused. -/
def runTick (result : TickResult) : EngineM TickResult := do
  let wall ← ask o.wall
  let mono ← ask o.mono
  let jumped := isClockJump config (← get) wall mono
  let overdue ← if jumped then misfirePass o config else pure []
  if jumped then rebuildHorizon o config
  modify fun s => { s with lastWall := wall, lastMono := mono }
  let now ← ask o.wall
  let fires ← drainDue o config now
  return { result with
    clockJump := jumped
    refilled := result.refilled || jumped
    fires := result.fires ++ overdue ++ fires }

/-- `tick`, for the messages that are there. -/
def tick (messages : List ControlMsg) : EngineM TickResult := do
  if !(← get).booted then let _ ← boot o config
  let result ← applyMessages o config messages {}
  if result.shutdown then return result
  else
    let changed ← externalStoreChanged o config
    if changed then rebuildHorizon o config
    let result := { result with refilled := result.refilled || changed }
    if (← get).pauseAll then return result else runTick o config result

/-- `next_sleep`. -/
def nextSleep (s : Scheduler) (now : Int) : Nat :=
  match (pop o.layout HeapEntry.key s.heap).map fun e => e.1.at_ with
  | none => config.maxSleep
  | some fireAt =>
    if fireAt ≤ now then 0 else min (fireAt - now).toNat config.maxSleep

end

/-! ### Without the heap -/


/-- A program of the loop that does to the memory what `m'` does. -/
abbrev Acts {α : Type} (m : EngineM α) (m' : SchedM α) : Prop :=
  Erases Scheduler.memory SchedulerError.IsPanic m m'

/-- A program of the loop that leaves the memory as it is. -/
abbrev Idle {α : Type} (m : EngineM α) : Prop := Silent Scheduler.memory SchedulerError.IsPanic m

section

variable {α : Type}

theorem onMemory_acts (m : SchedM α) : Acts (onMemory m) m := erases_zoom (fun _ _ => rfl) m

theorem push_idle (e : HeapEntry) : Idle (push e) := silent_modify fun _ => rfl

theorem ask_idle (f : Nat → α) : Idle (ask f) := silent_modifyGet fun _ => rfl

theorem orPanic_idle (x : Except Panic α) : Idle (orPanic x) := by
  cases x with
  | ok a => exact silent_pure a
  | error p => exact silent_throw ⟨p, rfl⟩

theorem memory_idle : Idle (onMemory get) := fun _ => ⟨rfl, by intro e he; cases he⟩

theorem getTimer_idle (id : Uuid) : Idle (onMemory (getTimer id)) :=
  fun _ => ⟨rfl, by intro e he; cases he⟩

variable [Calendar] {o : Outside} {config : SchedulerConfig}

omit [Calendar] in
theorem pushIfInHorizon_idle (fireAt : Int) (timerId : Uuid) :
    Idle (pushIfInHorizon o config fireAt timerId) := by
  refine silent_bind (ask_idle _) fun now => silent_bind (getTimer_idle _) fun timer => ?_
  refine silent_bind (orPanic_idle _) fun execAt => silent_bind (orPanic_idle _) fun ok => ?_
  exact silent_ite (push_idle _) (silent_pure _)

omit [Calendar] in
theorem requeueTimer_idle (timerId : Uuid) : Idle (requeueTimer o config timerId) := by
  refine silent_bind (getTimer_idle _) fun timer => ?_
  cases timer with
  | none => exact silent_pure _
  | some t =>
    dsimp only
    split
    · exact pushIfInHorizon_idle _ _
    · exact silent_pure _

omit [Calendar] in
theorem armPickup_idle (claim : RunClaim) : Idle (armPickup config claim) := by
  refine silent_bind memory_idle fun r => silent_ite ?_ (silent_pure _)
  exact silent_bind (orPanic_idle _) fun wallAt => push_idle _

theorem advancePastNow_acts (timerId : Uuid) (now : Int) :
    Acts (advancePastNow o config timerId now) (Bellman.advancePastNow o.handling timerId now) :=
  (onMemory_acts _).before (requeueTimer_idle timerId)

theorem ensureAdvancedPast_acts (timerId : Uuid) (scheduledFor wallNow : Int) :
    Acts (ensureAdvancedPast o config timerId scheduledFor wallNow)
      (Bellman.ensureAdvancedPast o.handling timerId scheduledFor wallNow) := by
  refine (onMemory_acts _).bind fun timer => ?_
  cases timer with
  | none => exact erases_pure _
  | some timer =>
    dsimp only
    cases hnext : timer.nextFireUtc with
    | none =>
      rw [Option.filter_none, Option.any_none]
      dsimp only
      rw [if_neg Bool.false_ne_true]
      refine (onMemory_acts _).bind fun _ => (onMemory_acts _).bind fun t => ?_
      cases t with
      | none => exact erases_pure _
      | some t =>
        exact erases_ite (fun _ => advancePastNow_acts _ _)
          fun _ => Silent.erases (requeueTimer_idle _)
    | some nf =>
      by_cases hlt : scheduledFor < nf
      · simp only [Option.filter_some, hlt, decide_true, if_true, Option.any_some]
        exact Silent.erases (pushIfInHorizon_idle _ _)
      · simp only [Option.filter_some, hlt, decide_false, if_false, Option.any_some,
          Bool.false_eq_true]
        refine (onMemory_acts _).bind fun _ => (onMemory_acts _).bind fun t => ?_
        cases t with
        | none => exact erases_pure _
        | some t =>
          exact erases_ite (fun _ => advancePastNow_acts _ _)
            fun _ => Silent.erases (requeueTimer_idle _)

theorem actAndClose_acts (timer : Timer) (claim : RunClaim) (kind : FireKind) :
    Acts (actAndClose o config timer claim kind)
      (Bellman.actAndClose o.handling timer claim kind) := by
  refine erases_ite (fun _ => ?_) fun _ => ?_
  · exact (ensureAdvancedPast_acts _ _ _).bind fun _ => erases_pure _
  · have hmark : ∀ {k : EngineM (Option DeliveredFire)} {k' : SchedM (Option DeliveredFire)},
        Acts k k' → Acts (do
          onMemory (prunePass o.handling (o.handling.delivery claim.scheduledFor) timer)
          let fresh ← onMemory (getTimer timer.id)
          if fresh.any fun t => t.lastFired.all (· < claim.scheduledFor) then
            onMemory (markFired o.handling timer.id claim.scheduledFor)
          else requeueTimer o config timer.id
          k) (do
          prunePass o.handling (o.handling.delivery claim.scheduledFor) timer
          let fresh ← getTimer timer.id
          if fresh.any fun t => t.lastFired.all (· < claim.scheduledFor) then
            markFired o.handling timer.id claim.scheduledFor
          k') := by
      intro k k' hk
      refine (onMemory_acts _).bind fun _ => (onMemory_acts _).bind fun fresh => ?_
      refine erases_ite (fun _ => ?_) fun _ => ?_
      · exact (onMemory_acts _).bind fun _ => hk
      · exact (Silent.erases (requeueTimer_idle _)).bind fun _ => hk
    refine erases_ite (fun _ => hmark (erases_pure _)) fun _ => ?_
    refine (onMemory_acts _).bind fun err => hmark ?_
    cases err with
    | none => exact erases_pure _
    | some e => exact erases_throw _

theorem deliverOne_acts (timer : Timer) (scheduledFor : Int) (kind : FireKind) :
    Acts (deliverOne o config timer scheduledFor kind)
      (Bellman.deliverOne o.handling timer scheduledFor kind) := by
  refine (onMemory_acts _).bind fun claimed => ?_
  cases claimed with
  | new claim =>
    dsimp only
    split
    · exact .after (armPickup_idle _) fun _ => actAndClose_acts _ _ _
    · exact actAndClose_acts _ _ _
  | taken =>
    refine (onMemory_acts _).bind fun r => ?_
    cases r.store.getClaimFor timer.id scheduledFor with
    | none => exact erases_throw _
    | some claim =>
      refine erases_ite (fun _ => actAndClose_acts _ _ _) fun _ => ?_
      exact (ensureAdvancedPast_acts _ _ _).bind fun _ => erases_pure _

theorem handleSkip_acts (timer : Timer) (scheduledFor now : Int) :
    Acts (handleSkip o config timer scheduledFor now)
      (Bellman.handleSkip o.handling timer scheduledFor now) := by
  refine erases_ite (fun _ => ?_) fun _ => ?_
  · exact (deliverOne_acts _ _ _).bind fun d => .after (requeueTimer_idle _) fun _ => erases_pure _
  · refine (onMemory_acts _).bind fun walk => (onMemory_acts _).bind fun _ => ?_
    exact (advancePastNow_acts _ _).bind fun _ => erases_pure _

theorem handleCoalesce_acts (timer : Timer) (scheduledFor now : Int) :
    Acts (handleCoalesce o config timer scheduledFor now)
      (Bellman.handleCoalesce o.handling timer scheduledFor now) := by
  refine (onMemory_acts _).bind fun walk => ?_
  dsimp only
  cases (walk.filter fun m => now - m ≤ graceFor timer).getLast? with
  | none =>
    refine (onMemory_acts _).bind fun _ => ?_
    exact (advancePastNow_acts _ _).bind fun _ => erases_pure _
  | some fireAt =>
    refine (deliverOne_acts _ _ _).bind fun d => ?_
    exact (advancePastNow_acts _ _).bind fun _ => erases_pure _

theorem catchUpLoop_acts (timerId : Uuid) (now grace : Int) (maxCatchUp fuel : Nat)
    (scheduled : Int) (index : Nat) (delivered : List DeliveredFire) :
    Acts (catchUpLoop o config timerId now grace maxCatchUp fuel scheduled index delivered)
      (Bellman.catchUpLoop o.handling timerId now grace maxCatchUp fuel scheduled index
        delivered) := by
  induction fuel generalizing scheduled index delivered with
  | zero => exact erases_pure _
  | succ fuel ih =>
    refine erases_ite (fun _ => erases_pure _) fun _ => erases_ite (fun _ => ?_) fun _ => ?_
    · refine (onMemory_acts _).bind fun _ => (onMemory_acts _).bind fun t => ?_
      cases t with
      | none => exact erases_pure _
      | some t =>
        dsimp only
        cases t.nextFireUtc with
        | none => exact erases_pure _
        | some nf => exact erases_ite (fun _ => ih _ _ _) fun _ => erases_pure _
    · refine (onMemory_acts _).bind fun timerNow => ?_
      cases timerNow with
      | none => exact erases_pure _
      | some timerNow =>
        refine (deliverOne_acts _ _ _).bind fun d => (onMemory_acts _).bind fun t => ?_
        cases t with
        | none => exact erases_pure _
        | some t =>
          dsimp only
          cases t.nextFireUtc with
          | none => exact erases_pure _
          | some nf =>
            refine erases_ite (fun _ => ?_) fun _ => ih _ _ _
            exact .after (pushIfInHorizon_idle _ _) fun _ => erases_pure _

theorem handleCatchUp_acts (timer : Timer) (graceSecs maxCatchUp : Nat) (scheduledFor now : Int) :
    Acts (handleCatchUp o config timer graceSecs maxCatchUp scheduledFor now)
      (Bellman.handleCatchUp o.handling timer graceSecs maxCatchUp scheduledFor now) := by
  refine (catchUpLoop_acts _ _ _ _ _ _ _ _).bind fun delivered => ?_
  refine (onMemory_acts _).bind fun t => ?_
  cases t with
  | none => exact erases_pure _
  | some t =>
    refine erases_ite (fun _ => ?_) fun _ => ?_
    · exact (advancePastNow_acts _ _).bind fun _ => erases_pure _
    · exact .after (requeueTimer_idle _) fun _ => erases_pure _

/-- **The heap is a hint**: with the heap, a due timer is handled as without
it. -/
theorem handleDueTimer_acts (timerId : Uuid) (now : Int) :
    Acts (handleDueTimer o config timerId now) (Bellman.handleDueTimer o.handling timerId now) := by
  refine (onMemory_acts _).bind fun timer => ?_
  cases timer with
  | none => exact erases_pure _
  | some timer =>
    refine erases_ite (fun _ => erases_pure _) fun _ => ?_
    cases timer.nextFireUtc with
    | none => exact erases_pure _
    | some scheduledFor =>
      refine erases_ite (fun _ => ?_) fun _ => ?_
      · exact .after (pushIfInHorizon_idle _ _) fun _ => erases_pure _
      · cases timer.misfire with
        | skip => exact handleSkip_acts _ _ _
        | coalesce _ => exact handleCoalesce_acts _ _ _
        | catchUp graceSecs maxCatchUp => exact handleCatchUp_acts _ _ _ _ _

end

end Scheduler

end Bellman
