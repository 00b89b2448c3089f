/-
Bellman/Misfire.lean

The handling of a timer that is due.

The scheduler takes a due timer, looks how late it is, and delivers some of
the instants that were missed, as the timer's policy says: the one that is
due (`skip`), the latest of the backlog (`coalesce`), or the backlog itself
up to a number (`catchUp`).  What is not delivered is passed over: the last
fire of the row is set to an instant of the backlog, and the store searches
the next fire from there.

The backlog is walked one search at a time, and every walk has a cap:

    walk_missed            10000 instants after the due one
    advance_past_now      100000
    the catch-up loop     100000

A delivery claims the slot, runs the action, closes the claim when the
action runs in the loop itself, and marks the row as fired.  A slot that is
claimed already is taken up again if its claim is unfinished; a finished one
is passed over.

What a delivery meets on its way is an argument, for each slot: whether the
gate and the files can be read, the reply found at the barrier, how the
action ends, and the clock.  The heap of the scheduler, which is rebuilt from
the rows, is left out.
-/
import Bellman.Deletes

namespace Bellman

open ProgramLogic Prog ReplyM
open Occurrence (MAX_DURATION_SECS)

/-- Why the handling of a timer fails. -/
inductive SchedulerError where
  | abort (a : Abort)
  | internal (message : String)
  | action (message : String)
  deriving Repr, DecidableEq

/-- Programs of the scheduler loop. -/
abbrev SchedM (α : Type) : Type := Prog ReplyState SchedulerError α

/-- A fire that was handed to the action. -/
structure DeliveredFire where
  timerId : Uuid
  scheduledFor : Int
  runId : Uuid
  kind : FireKind
  deriving Repr, DecidableEq

/-- What one delivery meets. -/
structure Surroundings where
  /-- The gate or a file of the run before cannot be had. -/
  blocked : Option String
  /-- What the fire transaction reads: reply, transport and clocks. -/
  firing : Firing
  /-- How the action, or the nudge of the dispatcher, ends. -/
  onFire : Except String Unit
  /-- The wall clock after the claim. -/
  wallNow : Int

/-- The scheduler's settings, and what its deliveries meet. -/
structure Handling where
  /-- With a data directory a fire is a transaction of the lifecycle. -/
  engine : Option FireConfig
  executesInline : Bool
  /-- With a data directory: the grace of the prune pass. -/
  prune : Option Nat
  rfc3339 : Int → String
  /-- How an error of the store reads. -/
  display : StoreError → String
  /-- The store's clock. -/
  utc : Int
  delivery : Int → Surroundings

/-! ### Grace and walks -/

/-- `saturating_secs`: a count of seconds as a duration, at most the longest. -/
def saturatingSecs (n : Nat) : Int :=
  if (n : Int) ≤ MAX_DURATION_SECS then secs n else 9223372036854775807000000

/-- `grace_for`. -/
def graceFor (timer : Timer) : Int :=
  match timer.misfire with
  | .skip =>
    match timer.occurrence.kind with
    | .interval everySecs _ => saturatingSecs everySecs
    | .once .. | .daily .. | .weekly .. | .monthly .. | .yearly .. | .cron .. => 0
  | .coalesce graceSecs => saturatingSecs graceSecs
  | .catchUp graceSecs _ => saturatingSecs graceSecs

def MAX_WALK : Nat := 10000

def MAX_ADVANCE : Nat := 100000

section

variable [Calendar]

/-- The instants after `cursor`, one search after another, up to `now` and
at most `fuel` of them. -/
def walkFrom (now : Int) : Nat → Occurrence → Int → Except Panic (List Int)
  | 0, _, _ => .ok []
  | fuel + 1, occ, cursor => do
    let (fire, occ) ← occ.nextFire cursor
    match fire with
    | none => return []
    | some c => if now < c then return [] else return c :: (← walkFrom now fuel occ c)

/-- `walk_missed`: the missed instants, from the first one on. -/
def walkMissed (timer : Timer) (firstDue now : Int) : Except Panic (List Int) := do
  if now < firstDue then return []
  else
    let _ ← timer.occurrence.timezone
    return firstDue :: (← walkFrom now MAX_WALK timer.occurrence firstDue)

/-- The loop of `advance_past_now`: the last instant passed over, and the
schedule with the skips used up on the way taken off. -/
def advanceWalk (now : Int) : Nat → Occurrence → Int → Option Int →
    Except Panic (Option Int × Occurrence)
  | 0, occ, _, lastSkipped => .ok (lastSkipped, occ)
  | fuel + 1, occ, cursor, lastSkipped => do
    let (fire, occ) ← occ.nextFire cursor
    match fire with
    | none => return (lastSkipped, occ)
    | some c => if now < c then return (lastSkipped, occ) else advanceWalk now fuel occ c (some c)

/-! ### Steps on the row -/

/-- A store operation of the loop. -/
def onRows {α : Type} (m : StoreM α) : SchedM α := mapError .abort (onStore m)

/-- Schedule code in the loop. -/
def orAbort {α : Type} (x : Except Panic α) : SchedM α := onRows (orPanic x)

def getTimer (timerId : Uuid) : SchedM (Option Timer) := do
  return (← get).store.getTimer timerId

/-- `Store::update_timer`, at the revision just read. -/
def updateRow (h : Handling) (timer : Timer) (patch : TimerPatch) : SchedM Unit := do
  let _ ← onRows (atomically (updateTimerTx ⟨timer.id, timer.revision, patch⟩ h.utc))

/-- The row, which must be there. -/
def requireTimer (timerId : Uuid) : SchedM Timer := do
  match ← getTimer timerId with
  | some timer => return timer
  | none => throw (.internal s!"timer {timerId.n} missing")

/-- `anchor_last_fired`. -/
def anchorLastFired (h : Handling) (timerId : Uuid) (anchor : Int) : SchedM Unit := do
  let timer ← requireTimer timerId
  updateRow h timer { lastFired := some (some anchor) }

/-- `mark_fired`: the last fire, and one more run. -/
def markFired (h : Handling) (timerId : Uuid) (scheduledFor : Int) : SchedM Unit := do
  let timer ← requireTimer timerId
  updateRow h timer
    { lastFired := some (some scheduledFor), occurrence := some timer.occurrence.recordRun }

/-- Where `advance_past_now` starts: the last fire, or just before the next. -/
def Timer.cursor (timer : Timer) (now : Int) : Int :=
  timer.lastFired.getD ((timer.nextFireUtc.map (· - 1)).getD now)

/-- `advance_past_now`: pass over the backlog. -/
def advancePastNow (h : Handling) (timerId : Uuid) (now : Int) : SchedM Unit := do
  let timer ← requireTimer timerId
  let _ ← orAbort timer.occurrence.timezone
  let (lastSkipped, occ) ← orAbort
    (advanceWalk now MAX_ADVANCE timer.occurrence (timer.cursor now) timer.lastFired)
  updateRow h timer { lastFired := some (some (lastSkipped.getD now)), occurrence := some occ }

/-- `ensure_advanced_past`: a slot that is finished is not the next one. -/
def ensureAdvancedPast (h : Handling) (timerId : Uuid) (scheduledFor wallNow : Int) :
    SchedM Unit := do
  match ← getTimer timerId with
  | none => return ()
  | some timer =>
    if timer.nextFireUtc.any (scheduledFor < ·) then return ()
    else
      updateRow h timer
        { lastFired := some (some scheduledFor), occurrence := some timer.occurrence }
      match ← getTimer timerId with
      | none => return ()
      | some t =>
        if t.nextFireUtc.any (· ≤ wallNow) then advancePastNow h timerId wallNow
        else return ()

/-! ### A delivery -/

/-- The claim of a slot: a new one, or the one that is there. -/
inductive SlotClaim where
  | new (claim : RunClaim)
  | taken

/-- The claim step of `deliver_one`: the fire transaction, or the bare claim. -/
def claimSlot (h : Handling) (timer : Timer) (scheduledFor : Int) (kind : FireKind) :
    SchedM SlotClaim := do
  let env := h.delivery scheduledFor
  match h.engine with
  | some cfg =>
    match env.blocked with
    | some message => throw (.internal s!"fire transaction: {message}")
    | none =>
      let firing := { env.firing with timer, scheduledFor, kind }
      match ← mapError .abort (attempt (projectFire cfg firing)) with
      | .ok claim => return .new claim
      | .error (.error (.alreadyClaimed _ _)) => return .taken
      | .error (.error e) => throw (.internal s!"fire transaction: {h.display e}")
      | .error (.panic p) => throw (.abort (.panic p))
  | none =>
    match ← onRows (attempt (atomically (claimRunConn timer.id scheduledFor h.utc))) with
    | .ok claim => return .new claim
    | .error (.error (.alreadyClaimed _ _)) => return .taken
    | .error a => throw (.abort a)

/-- The action and the closing of the claim, in `act_and_close`; the message
of an action that ran in the loop and failed. -/
def actOn (h : Handling) (env : Surroundings) (claim : RunClaim) : SchedM (Option String) := do
  if !h.executesInline then return none
  else
    if claim.status = .pending then
      match env.onFire with
      | .ok _ => let _ ← onRows (atomically (completeRun claim.runId h.utc))
      | .error _ => let _ ← onRows (atomically (failRun claim.runId h.utc))
    match env.onFire with
    | .ok _ => return none
    | .error e => return some e

/-- The prune pass that the internal timer's fire starts, one statement after
another.  Its failure is only reported. -/
def prunePass (h : Handling) (env : Surroundings) (timer : Timer) : SchedM Unit := do
  match timer.isSystemPrune, h.prune with
  | true, some ackGrace =>
    let _ ← onRows (attempt (pruneOneshots env.wallNow ackGrace))
  | _, _ => return ()

/-- `act_and_close`. -/
def actAndClose (h : Handling) (timer : Timer) (claim : RunClaim) (kind : FireKind) :
    SchedM (Option DeliveredFire) := do
  let env := h.delivery claim.scheduledFor
  if claim.status = .finished ∧ claim.completedAt.isSome ∧ claim.outcome.isNone then
    ensureAdvancedPast h timer.id claim.scheduledFor env.wallNow
    return none
  else
    let inlineError ← if claim.status = .finished then pure none else actOn h env claim
    prunePass h env timer
    -- The row may be past this slot already, after a crash.
    let fresh ← getTimer timer.id
    if fresh.any fun t => t.lastFired.all (· < claim.scheduledFor) then
      markFired h timer.id claim.scheduledFor
    match inlineError with
    | some e => throw (.action e)
    | none => return some ⟨timer.id, claim.scheduledFor, claim.runId, kind⟩

/-- `deliver_one`: a slot whose claim is finished is never fired again. -/
def deliverOne (h : Handling) (timer : Timer) (scheduledFor : Int) (kind : FireKind) :
    SchedM (Option DeliveredFire) := do
  match ← claimSlot h timer scheduledFor kind with
  | .new claim => actAndClose h timer claim kind
  | .taken =>
    match (← get).store.getClaimFor timer.id scheduledFor with
    | some claim =>
      if claim.isUnfinished then actAndClose h timer claim kind
      else
        ensureAdvancedPast h timer.id scheduledFor (h.delivery scheduledFor).wallNow
        return none
    | none =>
      throw (.internal s!"AlreadyClaimed but no row for {timer.id.n} @ {h.rfc3339 scheduledFor}")

/-! ### The policies -/

/-- The policy as it is written into an event. -/
def MisfirePolicy.json : MisfirePolicy → Json
  | .skip => .str "skip"
  | .coalesce graceSecs => .obj [("coalesce", .obj [("grace_secs", .num graceSecs)])]
  | .catchUp graceSecs maxCatchUp =>
    .obj [("catch_up", .obj [("grace_secs", .num graceSecs), ("max_catch_up", .num maxCatchUp)])]

/-- `log_skipped_misfire`: a backlog is dropped without a fire. -/
def logSkippedMisfire (h : Handling) (timer : Timer) (scheduledFor : Int) (missed : Nat)
    (now : Int) (reason : String) : SchedM Unit :=
  onRows (emit .skippedMisfire now
    { timerId := some timer.id, timerName := some timer.name, scheduledFor := some scheduledFor }
    { count := some (min missed 4294967295)
      message := some reason
      detail := some (.obj [("policy", timer.misfire.json), ("missed_count", .num missed),
        ("oldest_missed", .str (h.rfc3339 scheduledFor)),
        ("lateness_secs", .num ((now - scheduledFor).tdiv NS))]) })

/-- A fire within a second is in time. -/
def lateKind (lateness : Int) : FireKind :=
  if lateness ≤ secs 1 then .onTime else .late lateness

/-- `MisfirePolicy::Skip`: the due instant if it is within grace, else none. -/
def handleSkip (h : Handling) (timer : Timer) (scheduledFor now : Int) :
    SchedM (List DeliveredFire) := do
  let lateness := now - scheduledFor
  if lateness ≤ graceFor timer then
    return (← deliverOne h timer scheduledFor (lateKind lateness)).toList
  else
    let missed := max (← orAbort (walkMissed timer scheduledFor now)).length 1
    logSkippedMisfire h timer scheduledFor missed now "misfire_skip_past_grace"
    advancePastNow h timer.id now
    return []

/-- `MisfirePolicy::Coalesce`: the latest instant within grace, for all. -/
def handleCoalesce (h : Handling) (timer : Timer) (scheduledFor now : Int) :
    SchedM (List DeliveredFire) := do
  let walk ← orAbort (walkMissed timer scheduledFor now)
  let inGrace := walk.filter fun m => now - m ≤ graceFor timer
  match inGrace.getLast? with
  | none =>
    logSkippedMisfire h timer scheduledFor (max walk.length 1) now
      "misfire_coalesce_backlog_past_grace"
    advancePastNow h timer.id now
    return []
  | some fireAt =>
    let kind :=
      if 1 < walk.length ∨ 1 < inGrace.length then .coalesced (min walk.length 4294967295)
      else lateKind (now - fireAt)
    let delivered ← deliverOne h timer fireAt kind
    advancePastNow h timer.id now
    return delivered.toList

/-- The loop of `MisfirePolicy::CatchUp`.  An instant past grace is passed
over; one within is delivered, and counts also if its slot is finished. -/
def catchUpLoop (h : Handling) (timerId : Uuid) (now grace : Int) (maxCatchUp : Nat) :
    Nat → Int → Nat → List DeliveredFire → SchedM (List DeliveredFire)
  | 0, _, _, delivered => return delivered
  | fuel + 1, scheduled, index, delivered => do
    if now < scheduled ∨ maxCatchUp ≤ index then return delivered
    else if grace < now - scheduled then
      anchorLastFired h timerId scheduled
      match ← getTimer timerId with
      | none => return delivered
      | some t =>
        match t.nextFireUtc with
        | none => return delivered
        | some nf =>
          if scheduled < nf then catchUpLoop h timerId now grace maxCatchUp fuel nf index delivered
          else return delivered
    else
      match ← getTimer timerId with
      | none => return delivered
      | some timerNow =>
        let d ← deliverOne h timerNow scheduled (.catchUp index)
        let delivered := delivered ++ d.toList
        match ← getTimer timerId with
        | none => return delivered
        | some t =>
          match t.nextFireUtc with
          | none => return delivered
          | some nf =>
            if now < nf then return delivered
            else catchUpLoop h timerId now grace maxCatchUp fuel nf (index + 1) delivered

/-- `MisfirePolicy::CatchUp`: the oldest instants within grace. -/
def handleCatchUp (h : Handling) (timer : Timer) (graceSecs maxCatchUp : Nat)
    (scheduledFor now : Int) : SchedM (List DeliveredFire) := do
  let delivered ← catchUpLoop h timer.id now (saturatingSecs graceSecs) maxCatchUp MAX_ADVANCE
    scheduledFor 0 []
  match ← getTimer timer.id with
  | none => return delivered
  | some t =>
    if t.nextFireUtc.any (· ≤ now) then
      advancePastNow h timer.id now
      return delivered
    else return delivered

/-- `handle_due_timer`. -/
def handleDueTimer (h : Handling) (timerId : Uuid) (now : Int) : SchedM (List DeliveredFire) := do
  match ← getTimer timerId with
  | none => return []
  | some timer =>
    if !timer.enabled then return []
    else
      match timer.nextFireUtc with
      | none => return []
      | some scheduledFor =>
        if now < scheduledFor then return []
        else
          match timer.misfire with
          | .skip => handleSkip h timer scheduledFor now
          | .coalesce _ => handleCoalesce h timer scheduledFor now
          | .catchUp graceSecs maxCatchUp =>
            handleCatchUp h timer graceSecs maxCatchUp scheduledFor now

end

end Bellman
