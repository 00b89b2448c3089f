/-
Bellman/Outage.lean

The reply engine beside a database that may fail.

The deadline book and the duration anchors are memory.  Operations change
them inside of transactions, before it is known whether these will commit.
Here every access to the database may fail, as an *outage* says, and the
commit is an access:

    begin, [read | write]*, commit

An operation fails at its first access that does.  Between two accesses the
operations are those of the engine: with an outage that never strikes they
are the same programs (`LifecycleCall.upToCommit_never`).
-/
import Bellman.Fire
import Bellman.Clocks
import Mathlib.Logic.Function.Basic

namespace Bellman

open ProgramLogic Prog ReplyM

/-! ### The memory -/

/-- What the engine knows beside its tables. -/
structure Memory where
  countdown : Uuid → Option MonoDeadline
  hints : List (Uuid × DeadlineKind × Int)
  anchor : Uuid → Option Int

def ReplyState.memory (r : ReplyState) : Memory where
  countdown := r.book.get
  hints := r.book.armedHints
  anchor run := (r.anchors.find? (·.1 == run)).map Prod.snd

namespace Memory

variable (m : Memory) (run : Uuid)

def drop : Memory := { m with countdown := Function.update m.countdown run none }

def dropKind (kind : DeadlineKind) : Memory :=
  if (m.countdown run).any (·.kind == kind) then m.drop run else m

def arm (d : MonoDeadline) : Memory :=
  { m with countdown := Function.update m.countdown run (some d) }

def hint (kind : DeadlineKind) (wallAt : Int) : Memory :=
  { m with hints := m.hints ++ [(run, kind, wallAt)] }

def dropAnchor : Memory := { m with anchor := Function.update m.anchor run none }

variable {m run}

theorem drop_eq_iff : m.drop run = m ↔ m.countdown run = none := by
  constructor
  · intro h
    rw [← h]
    exact Function.update_self ..
  · intro h
    show { m with countdown := Function.update m.countdown run none } = m
    rw [← h, Function.update_eq_self]

theorem dropAnchor_eq_iff : m.dropAnchor run = m ↔ m.anchor run = none := by
  constructor
  · intro h
    rw [← h]
    exact Function.update_self ..
  · intro h
    show { m with anchor := Function.update m.anchor run none } = m
    rw [← h, Function.update_eq_self]

theorem arm_eq_iff {d : MonoDeadline} : m.arm run d = m ↔ m.countdown run = some d := by
  constructor
  · intro h
    rw [← h]
    exact Function.update_self ..
  · intro h
    show { m with countdown := Function.update m.countdown run (some d) } = m
    rw [← h, Function.update_eq_self]

theorem dropKind_eq_iff {kind : DeadlineKind} :
    m.dropKind run kind = m ↔ ∀ d ∈ m.countdown run, d.kind ≠ kind := by
  unfold dropKind
  split
  · next h =>
    obtain ⟨d, hd, hk⟩ := (Option.any_eq_true _ _).mp h
    rw [drop_eq_iff]
    constructor
    · intro hnone
      rw [hnone] at hd
      cases hd
    · intro hall
      exact absurd (by simpa using hk) (hall d hd)
  · next h =>
    refine ⟨fun _ d hd hk => h ?_, fun _ => rfl⟩
    exact (Option.any_eq_true _ _).mpr ⟨d, hd, by simpa using hk⟩

theorem hint_ne (m : Memory) (run : Uuid) (kind : DeadlineKind) (wallAt : Int) :
    (m.hint run kind wallAt).hints ≠ m.hints := by
  intro h
  have hlen := congrArg List.length h
  simp [hint] at hlen

/-- What follows on the countdown of a run hides what was dropped of it. -/
theorem drop_dropKind (kind : DeadlineKind) : (m.dropKind run kind).drop run = m.drop run := by
  unfold dropKind
  split
  · simp only [drop, Function.update_idem]
  · rfl

theorem arm_dropKind (kind : DeadlineKind) (d : MonoDeadline) :
    (m.dropKind run kind).arm run d = m.arm run d := by
  unfold dropKind
  split
  · simp only [drop, arm, Function.update_idem]
  · rfl

/-- There are two kinds. -/
theorem dropKind_dropKind :
    (m.dropKind run .pickup).dropKind run .watchdog = m.drop run := by
  cases hd : m.countdown run with
  | none =>
    have hpickup : m.dropKind run .pickup = m := dropKind_eq_iff.mpr (by simp [hd])
    rw [hpickup, drop_eq_iff.mpr hd, dropKind_eq_iff]
    simp [hd]
  | some d =>
    obtain ⟨kind, at_⟩ := d
    cases kind with
    | pickup =>
      have hdrop : m.dropKind run .pickup = m.drop run := by simp [dropKind, hd]
      rw [hdrop, dropKind_eq_iff]
      simp [drop]
    | watchdog =>
      have hpickup : m.dropKind run .pickup = m := dropKind_eq_iff.mpr (by simp [hd])
      rw [hpickup]
      simp [dropKind, hd]

end Memory

/-! ### Outages -/

/-- The accesses to the database.  Statements between which the memory does
not change are one access. -/
inductive DbCall where
  | begin
  | getTimerOwner
  | runsForTimer
  | getRun
  | getRunState
  | currentRunState
  | lastAckedSequence
  | enqueueEvent
  | updateRunState
  | supersedePrevious
  | claimRun
  | applyOverlap
  | openLifecycle
  | commit
  deriving DecidableEq

/-- Which accesses fail. -/
abbrev Outage := DbCall → Store → Bool

namespace Outage

def never : Outage := fun _ _ => false

/-- Every access but the commit succeeds. -/
def atCommit : Outage
  | .commit, _ => true
  | _, _ => false

variable (o : Outage)

/-- The access, if it fails. -/
def check (call : DbCall) : ReplyM Unit := do
  if o call (← get).store then throw (.error (.sqlite "disk I/O error")) else return ()

/-- `in_tx`, which begins and commits. -/
def inTx {α : Type} (m : ReplyM α) : ReplyM α :=
  ReplyM.inTx do
    o.check .begin
    let a ← m
    o.check .commit
    return a

end Outage

section Operations

variable (o : Outage)

/-- The lines of an accepted reply, and its row. -/
def reportOn (timer : Timer) (claim : RunClaim) (row : RunStateRow) (doc : ReplyDocument)
    (curState newState : RunState) (digest : String) (nowWall monoNow utc : Int) :
    ReplyM Unit := do
  o.check .enqueueEvent
  let row ← onStore (logAcknowledged timer claim row nowWall)
  let row ← onStore (logRunning timer claim row doc newState nowWall)
  logVerdict timer claim row doc curState newState nowWall monoNow utc
  o.check .updateRunState
  onStore (updateRunStateConn { row with
    expectedSecs := row.expectedSecs.map expectedColumn
    replyDigest := some digest })

/-- `apply`. -/
def applyOn (cfg : ReplyConfig) (timer : Timer) (claim : RunClaim) (row : RunStateRow)
    (doc : ReplyDocument) (newState : RunState) (digest : String)
    (nowWall monoNow utc : Int) : ReplyM Unit := do
  let curState := row.state
  let row := applyVerdict (accumulate row doc newState nowWall) doc newState nowWall
  let row := { row with pickupDeadline := none, state := newState }
  let row ← rearm cfg row newState nowWall monoNow
  reportOn o timer claim row doc curState newState digest nowWall monoNow utc

/-- `ingest_inner`. -/
def ingestInnerOn (cfg : ReplyConfig) (timer : Timer) (doc : ReplyDocument) (digest : String)
    (nowWall monoNow utc : Int) (currentOverride : Option Uuid) : ReplyM IngestOutcome := do
  match doc.validate with
  | .error why => return .rejected why
  | .ok (runId, newState, appName) =>
    o.check .getRun
    match ← read (·.getRun runId) with
    | none => return .rejected .unknownRun
    | some claim =>
      if claim.timerId ≠ timer.id then return .rejected .unknownRun
      else
        o.check .runsForTimer
        let newest ← read fun s => (s.runsForTimer timer.id).getLast?.map (·.runId)
        if currentOverride.or newest ≠ some runId then
          o.check .enqueueEvent
          onStore (ingestStale timer claim digest utc)
        else
          o.check .getRunState
          let row ← read (currentRow · timer claim appName nowWall)
          match row.refuses doc appName newState with
          | some why => return .rejected why
          | none =>
            if row.replyDigest = some digest then return .duplicate
            else
              applyOn o cfg timer claim row doc newState digest nowWall monoNow utc
              return .applied

/-- `mark_acknowledged`. -/
def markAcknowledgedOn (timer : Timer) (claim : RunClaim) (row : RunStateRow) (nowWall : Int) :
    ReplyM Unit := do
  let row := { row with
    state := .acknowledged
    acknowledgedAt := some nowWall
    pickupDeadline := none }
  onBook (·.removeKind row.runId .pickup)
  o.check .updateRunState
  if row.acknowledgedLogged = false then
    onStore (emit .acknowledged nowWall (.ofRun timer claim)
      { detail := some (.obj [("app_name", .str row.appName), ("via", .str "ack_through")]) })
    onStore (updateRunStateConn { row with acknowledgedLogged := true })
  else
    onStore (updateRunStateConn row)

/-- `on_ack_through`. -/
def onAckThroughOn (timer : Timer) (throughSequence : Nat) (nowWall : Int) : ReplyM Bool := do
  o.check .currentRunState
  match ← read (·.currentRunState timer.id) with
  | none => return false
  | some row =>
    o.check .getRun
    match ← read (·.getRun row.runId) with
    | none => return false
    | some claim =>
      if throughSequence < claim.eventSequence then return false
      else if (row.pickupDeadline.isSome ∧ row.state.isFired) ∨ row.state = .noAck then
        o.inTx (markAcknowledgedOn o timer claim row nowWall)
        return true
      else return false

/-- `expire_pickup_one_inner`. -/
def expirePickupOneInnerOn (timer : Timer) (runId : Uuid) (nowWall : Int) : ReplyM Bool := do
  o.check .getRunState
  match ← read (·.getRunState runId) with
  | none => return false
  | some row =>
    if row.pickupDeadline.isNone then return false
    else
      o.check .currentRunState
      let current ← read fun s => (s.currentRunState timer.id).map (·.runId)
      if current ≠ some runId then return false
      else
        o.check .getRun
        match ← read (·.getRun runId) with
        | none => return false
        | some claim =>
          if row.state.isFired = false then return false
          else
            o.check .lastAckedSequence
            let acked ← read (·.lastAckedSequence timer.id)
            if claim.eventSequence ≤ acked then
              markAcknowledgedOn o timer claim row nowWall
              return true
            else
              onBook (·.remove runId)
              o.check .updateRunState
              onStore (emit .noAck nowWall (.ofRun timer claim)
                { message := some "no acknowledgement was received" })
              onStore (updateRunStateConn
                { row with state := .noAck, noAckAt := some nowWall, pickupDeadline := none })
              return true

/-- `expire_watchdog_one_inner`. -/
def expireWatchdogOneInnerOn (timer : Timer) (runId : Uuid) (nowWall monoNow : Int) :
    ReplyM Bool := do
  o.check .getRunState
  match ← read (·.getRunState runId) with
  | none => return false
  | some row =>
    if row.watchdogDeadline.isNone then return false
    else if row.isTerminal ∨ row.errorDetection ≠ some true then return false
    else
      o.check .currentRunState
      let current ← read fun s => (s.currentRunState timer.id).map (·.runId)
      if current ≠ some runId then return false
      else
        o.check .getRun
        match ← read (·.getRun runId) with
        | none => return false
        | some claim =>
          onBook (·.remove runId)
          let (ms, source) ← durationMs runId row.firedAt nowWall monoNow
          let detail := [("failure_kind", Json.str FailureKind.timedOut.asStr)] ++
            (source.map fun s => ("duration_source", Json.str s)).toList
          o.check .updateRunState
          onStore (emit .failed nowWall (.ofRun timer claim)
            { durationMs := some ms
              detail := some (.obj detail)
              message := some "error_detection watchdog expired" })
          onStore (updateRunStateConn
            { row with
              state := .failed
              failureKind := some .timedOut
              failedAt := some nowWall
              watchdogDeadline := none })
          return true

/-- The barrier ingest of a fire. -/
def barrierIngestOn (cfg : FireConfig) (f : Firing) : ReplyM Unit := do
  match f.prev, f.barrier with
  | some prev, some (doc, digest) =>
    match ← ingestInnerOn o cfg.reply f.timer doc digest f.now f.monoNow f.utc
        (some prev.runId) with
    | .rejected why =>
      o.check .enqueueEvent
      onStore (logRejection f.timer (some prev.runId) why.asStr f.utc)
    | _ => return ()
  | _, _ => return ()

/-- The transaction of `project_fire`. -/
def fireTxOn (cfg : FireConfig) (f : Firing) : ReplyM (RunClaim × Option Uuid) :=
  o.inTx do
    barrierIngestOn o cfg f
    o.check .supersedePrevious
    let superseded ← onStore (supersedePrevious f.timer f.owner f.prev f.utc)
    o.check .claimRun
    let claim ← onStore (claimRunConn f.timer.id f.scheduledFor f.utc)
    o.check .enqueueEvent
    onStore (emit (fireState f.kind) f.utc (.ofRun f.timer claim) f.kind.note)
    o.check .applyOverlap
    let claim ← onStore (applyOverlapDisposition f.timer claim f.utc)
    o.check .openLifecycle
    onStore (openLifecycle cfg f claim)
    return (claim, superseded)

/-- What a fire reads before its transaction. -/
def prepareOn (f : Firing) : ReplyM Firing := do
  o.check .getTimerOwner
  let owner ← read (·.getTimerOwner f.timer.id)
  o.check .runsForTimer
  let prev ← read fun s => (s.runsForTimer f.timer.id).getLast?
  return { f with owner, prev }

end Operations

/-- The operations of the lifecycle that have a transaction. -/
inductive LifecycleCall where
  | ingest (timer : Timer) (doc : ReplyDocument) (digest : String) (nowWall monoNow utc : Int)
  | onAckThrough (timer : Timer) (throughSequence : Nat) (nowWall : Int)
  | expirePickup (timer : Timer) (runId : Uuid) (nowWall : Int)
  | expireWatchdog (timer : Timer) (runId : Uuid) (nowWall monoNow : Int)
  | fire (f : Firing)

/-- An operation up to its commit, beside an outage. -/
def LifecycleCall.upToCommit (cfg : FireConfig) (o : Outage) : LifecycleCall → ReplyM Unit
  | ingest timer doc digest nowWall monoNow utc => do
    let _ ← o.inTx (ingestInnerOn o cfg.reply timer doc digest nowWall monoNow utc none)
  | onAckThrough timer throughSequence nowWall => do
    let _ ← onAckThroughOn o timer throughSequence nowWall
  | expirePickup timer runId nowWall => do
    let _ ← o.inTx (expirePickupOneInnerOn o timer runId nowWall)
  | expireWatchdog timer runId nowWall monoNow => do
    let _ ← o.inTx (expireWatchdogOneInnerOn o timer runId nowWall monoNow)
  | fire f => do
    let _ ← fireTxOn o cfg (← prepareOn o f)

/-! ### Without an outage -/

/-- An operation up to its commit. -/
def LifecycleCall.perform (cfg : FireConfig) : LifecycleCall → ReplyM Unit
  | ingest timer doc digest nowWall monoNow utc => do
    let _ ← Bellman.ingest cfg.reply timer doc digest nowWall monoNow utc
  | onAckThrough timer throughSequence nowWall => do
    let _ ← Bellman.onAckThrough timer throughSequence nowWall
  | expirePickup timer runId nowWall => do
    let _ ← expirePickupOne timer runId nowWall
  | expireWatchdog timer runId nowWall monoNow => do
    let _ ← expireWatchdogOne timer runId nowWall monoNow
  | fire f => do
    let _ ← fireTx cfg (← f.prepare)

theorem inTx_never {α : Type} (m : ReplyM α) : Outage.never.inTx m = ReplyM.inTx m := by
  have hpure : m >>= pure = m := by
    funext r
    simp only [bind, pure]
    rcases m r with ⟨_ | _, _⟩ <;> rfl
  show ReplyM.inTx (m >>= pure) = _
  rw [hpure]

theorem onAckThroughOn_never : onAckThroughOn .never = onAckThrough := by
  funext timer throughSequence nowWall
  unfold onAckThroughOn onAckThrough
  simp only [inTx_never]
  rfl

/-- **The operations are those of the engine** when nothing fails. -/
theorem LifecycleCall.upToCommit_never (cfg : FireConfig) (c : LifecycleCall) :
    c.upToCommit cfg .never = c.perform cfg := by
  cases c with
  | ingest timer doc digest nowWall monoNow utc =>
    show (do let _ ← Outage.never.inTx (ingestInner cfg.reply timer doc digest nowWall monoNow utc
      none)) = _
    rw [inTx_never]
    rfl
  | onAckThrough timer throughSequence nowWall =>
    show (do let _ ← onAckThroughOn .never timer throughSequence nowWall) = _
    rw [onAckThroughOn_never]
    rfl
  | expirePickup timer runId nowWall =>
    show (do let _ ← Outage.never.inTx (expirePickupOneInner timer runId nowWall)) = _
    rw [inTx_never]
    rfl
  | expireWatchdog timer runId nowWall monoNow =>
    show (do let _ ← Outage.never.inTx (expireWatchdogOneInner timer runId nowWall monoNow)) = _
    rw [inTx_never]
    rfl
  | fire f =>
    have htx (f : Firing) : fireTxOn .never cfg f = fireTx cfg f := inTx_never _
    show (do let _ ← fireTxOn .never cfg (← f.prepare)) = _
    simp only [htx]
    rfl

end Bellman
