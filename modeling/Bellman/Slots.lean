/-
Bellman/Slots.lean

Slot requests: what an app may ask of Bellman by file, and how it is
answered from the store.

A request adds a timer, changes one or deletes one; whatever it does, it may
also move the ack cursor of the timer it names.  The cursor is the app's
side of the run feed: a successful response carries the runs of the timer
whose sequence lies above it.

A request is carried out in one transaction together with the record of its
response, under the `request_id` that the app chose.  A request that is
refused is answered with an error, and that answer is committed like any
other; a failure of the store is not an answer, and rolls everything back.

Main results: what the stages of a request do to the store
(`wp_advanceAck`, `wp_slotDelete`), and that a request which has its record
is not carried out again (`slotExecuteOnce_of_some`).
-/
import Bellman.Fire
import Bellman.Lib.Rows
import Bellman.Payload

namespace Bellman

open ProgramLogic Prog

/-! ### Envelopes -/

/-- The wire schema. -/
def SCHEMA_V1 : String := "bellman-slot/1"

inductive SlotOperation where
  | add
  | modify
  | delete
  deriving Repr, DecidableEq

def SlotOperation.asStr : SlotOperation → String
  | add => "add"
  | modify => "modify"
  | delete => "delete"

/-- What an app writes into a free slot; a stub has neither id nor
operation. -/
structure SlotRequest where
  schema : String := SCHEMA_V1
  slotId : String := ""
  requestId : Option String := none
  loggedAt : Option Int := none
  operation : Option SlotOperation := none
  payload : Option Json := none

/-- `is_free_stub`. -/
def SlotRequest.isFreeStub (r : SlotRequest) : Bool := r.requestId.isNone || r.operation.isNone

inductive SlotStatus where
  | ok
  | error
  deriving Repr, DecidableEq

/-- One run in the feed. -/
structure SlotRunEvent where
  eventSequence : Nat
  runId : Uuid
  timerId : Uuid
  scheduledFor : Int
  status : RunState
  claimedAt : Int
  completedAt : Option Int
  deriving Repr, DecidableEq

/-- `from_claim`: an unfinished claim is an open run, and a finished one
without an outcome is no success. -/
def SlotRunEvent.fromClaim (run : RunClaim) : SlotRunEvent where
  eventSequence := run.eventSequence
  runId := run.runId
  timerId := run.timerId
  scheduledFor := run.scheduledFor
  status :=
    match run.status with
    | .pending | .active => .fired
    | .finished =>
      match run.outcome with
      | some o => o.event
      | none => .wakeFailed
  claimedAt := run.claimedAt
  completedAt := run.completedAt

/-- What Bellman writes into `done/`. -/
structure SlotResponse where
  schema : String := SCHEMA_V1
  slotId : String
  requestId : String
  status : SlotStatus
  timerId : Option Uuid := none
  nextFireAt : Option Int := none
  error : Option String := none
  events : List SlotRunEvent := []
  deriving Repr, DecidableEq

namespace SlotResponse

def ok (slotId requestId : String) (timerId : Option Uuid) (nextFireAt : Option Int)
    (events : List SlotRunEvent) : SlotResponse :=
  { slotId, requestId, status := .ok, timerId, nextFireAt, events }

def err (slotId requestId error : String) : SlotResponse :=
  { slotId, requestId, status := .error, error := some error }

end SlotResponse

/-- Why a request got no answer, or (`invalid`) why its answer is an error. -/
inductive SlotError where
  | io (message : String)
  | symlink (path : String)
  | oversized (path : String) (size max : Nat)
  | invalid (message : String)
  | noFreeSlot
  | store (e : Abort)
  | internal (message : String)
  deriving Repr, DecidableEq

/-- Programs inside the transaction of a request. -/
abbrev SlotM (α : Type) : Type := Prog Store SlotError α

/-- A store operation in the transaction. -/
def onTables {α : Type} (m : StoreM α) : SlotM α := m.mapError .store

/-- What was found invalid refuses the request. -/
def orInvalid {α : Type} : Except String α → SlotM α
  | .ok a => pure a
  | .error message => throw (.invalid message)

/-! ### The run feed -/

/-- `through_sequence as i64`, as far as it counts: a number past the signed
range turns negative, and a cursor is never moved to a negative number. -/
def ackSequence (through : Nat) : Nat := if through < 2 ^ 63 then through else 0

namespace Store

/-- The order of `ORDER BY event_sequence, run_id`. -/
def feedLe (a b : RunClaim) : Prop :=
  a.eventSequence < b.eventSequence ∨
    (a.eventSequence = b.eventSequence ∧ a.runId.n ≤ b.runId.n)

instance : DecidableRel feedLe := fun a b => by unfold feedLe; infer_instance

/-- The runs of a timer above a cursor, oldest first. -/
def feedAbove (s : Store) (timerId : Uuid) (cursor : Nat) : List RunClaim :=
  (s.runs.filter fun r => r.timerId == timerId && cursor < r.eventSequence).insertionSort feedLe

/-- `unacked_runs_for_timer_in_tx`. -/
def unackedRunsForTimer (s : Store) (timerId : Uuid) (limit : Nat) : List RunClaim :=
  (s.feedAbove timerId (s.lastAckedSequence timerId)).take limit

/-- `events_for_tx`. -/
def eventsFor (s : Store) (timerId : Uuid) (maxEvents : Nat) : List SlotRunEvent :=
  (s.unackedRunsForTimer timerId maxEvents).map .fromClaim

/-! ### Rows by key -/

/-- The row of a timer's ack cursor. -/
def ackCursor (s : Store) (timerId : Uuid) : Option Nat :=
  (s.slotEventAcks.find? (·.1 == timerId)).map Prod.snd

/-- The store with the ack cursor of a timer advanced. -/
def ackedThrough (s : Store) (timerId : Uuid) (n : Nat) : Store :=
  { s with
    slotEventAcks := s.slotEventAcks.filter (fun a => a.1 ≠ timerId) ++
      [(timerId, max (s.lastAckedSequence timerId) n)] }

/-- The store with an owner put down for a timer. -/
def ownedBy (s : Store) (timerId : Uuid) (appName : String) : Store :=
  { s with
    timerOwners := s.timerOwners.filter (fun o => o.1 ≠ timerId) ++ [(timerId, appName)] }

/-- The store without a timer, its owner and its ack cursor. -/
def forgotten (s : Store) (timerId : Uuid) : Store :=
  { s with
    timers := s.timers.filter fun t => t.id ≠ timerId
    timerOwners := s.timerOwners.filter fun o => o.1 ≠ timerId
    slotEventAcks := s.slotEventAcks.filter fun a => a.1 ≠ timerId }

variable {s : Store} {timerId t : Uuid} {n : Nat} {appName : String}

theorem lastAckedSequence_eq : s.lastAckedSequence t = (s.ackCursor t).getD 0 := rfl

theorem ackCursor_ackedThrough : (s.ackedThrough timerId n).ackCursor t =
    if t = timerId then some (max (s.lastAckedSequence timerId) n) else s.ackCursor t := by
  unfold ackCursor ackedThrough
  show Option.map Prod.snd ((s.slotEventAcks.filter (fun a => a.1 ≠ timerId) ++ _).find? _) = _
  rw [Rows.find?_put Prod.fst
    ((timerId, max (s.lastAckedSequence timerId) n) : Uuid × Nat) t]
  by_cases h : t = timerId
  · simp [h]
  · simp [h]

@[simp] theorem getTimerOwner_ackedThrough :
    (s.ackedThrough timerId n).getTimerOwner t = s.getTimerOwner t := rfl

@[simp] theorem getTimer_ackedThrough :
    (s.ackedThrough timerId n).getTimer t = s.getTimer t := rfl

theorem getTimerOwner_ownedBy : (s.ownedBy timerId appName).getTimerOwner t =
    if t = timerId then some appName else s.getTimerOwner t := by
  unfold getTimerOwner ownedBy
  show Option.map Prod.snd ((s.timerOwners.filter (fun o => o.1 ≠ timerId) ++ _).find? _) = _
  rw [Rows.find?_put Prod.fst ((timerId, appName) : Uuid × String) t]
  by_cases h : t = timerId
  · simp [h]
  · simp [h]

theorem getTimer_forgotten : (s.forgotten timerId).getTimer t =
    if t = timerId then none else s.getTimer t :=
  Rows.find?_erase Timer.id timerId t

theorem getTimerOwner_forgotten : (s.forgotten timerId).getTimerOwner t =
    if t = timerId then none else s.getTimerOwner t := by
  unfold getTimerOwner forgotten
  show Option.map Prod.snd ((s.timerOwners.filter fun o => o.1 ≠ timerId).find? _) = _
  rw [Rows.find?_erase Prod.fst timerId t]
  by_cases h : t = timerId
  · simp [h]
  · simp [h]

theorem ackCursor_forgotten : (s.forgotten timerId).ackCursor t =
    if t = timerId then none else s.ackCursor t := by
  unfold ackCursor forgotten
  show Option.map Prod.snd ((s.slotEventAcks.filter fun a => a.1 ≠ timerId).find? _) = _
  rw [Rows.find?_erase Prod.fst timerId t]
  by_cases h : t = timerId
  · simp [h]
  · simp [h]

end Store

/-! ### Carrying out a request -/

section

variable [Wire]

/-- The refusal of an app that does not own the timer. -/
def ownershipDenied (timerId : Uuid) (appName : String) : Option String → String
  | some owner =>
    s!"ownership denied: timer {Wire.uuidText timerId} owned by '{owner}', not '{appName}'"
  | none =>
    s!"ownership denied: timer {Wire.uuidText timerId} has no slot owner " ++
      "(not created via slots)"

/-- `check_ownership_tx`. -/
def checkOwnership (timerId : Uuid) (appName : String) : SlotM Unit := do
  let owner := (← get).getTimerOwner timerId
  if owner = some appName then return ()
  else throw (.invalid (ownershipDenied timerId appName owner))

/-- Move the ack cursor, if the request says so and names a timer. -/
def advanceAck (payload : SlotPayload) (appName : String) : SlotM Unit := do
  match payload.ackThrough, payload.resolvedTimerId with
  | some ack, some timerId =>
    checkOwnership timerId appName
    let _ ← onTables (ackRunEventsTx timerId (ackSequence ack))
  | _, _ => return ()

/-- The ack of a request that adds its timer. -/
def ackAdded (timerId : Uuid) : Option Nat → SlotM Unit
  | some ack => do let _ ← onTables (ackRunEventsTx timerId (ackSequence ack))
  | none => return ()

variable [Calendar]

/-- The add branch of `apply_request_tx`. -/
def addTimer (payload : SlotPayload) (appName slotId requestId : String) (maxEvents : Nat)
    (now : Int) : SlotM SlotResponse := do
  let new ← orInvalid (newTimerFromPayload payload now)
  let timer ← onTables (createTimerTx new now)
  onTables (setTimerOwner timer.id appName)
  ackAdded timer.id payload.ackThrough
  let events := (← get).eventsFor timer.id maxEvents
  return .ok slotId requestId (some timer.id) timer.nextFireUtc events

/-- The modify branch: the revision is read in the transaction, so it is
never stale. -/
def modifyTimer (payload : SlotPayload) (appName slotId requestId : String) (maxEvents : Nat)
    (now : Int) : SlotM SlotResponse := do
  match payload.resolvedTimerId with
  | none => throw (.invalid "modify requires payload.timer_id (or id)")
  | some timerId =>
    checkOwnership timerId appName
    match (← get).getTimer timerId with
    | none => throw (.invalid s!"timer not found: {Wire.uuidText timerId}")
    | some current =>
      let patch ← orInvalid (patchFromPayload payload now)
      let timer ← onTables
        (updateTimerTx { id := timerId, expectedRevision := current.revision, patch } now)
      let events := (← get).eventsFor timer.id maxEvents
      return .ok slotId requestId (some timer.id) timer.nextFireUtc events

/-- The delete branch. -/
def removeTimer (payload : SlotPayload) (appName slotId requestId : String) (maxEvents : Nat)
    (now : Int) : SlotM SlotResponse := do
  match payload.resolvedTimerId with
  | none => throw (.invalid "delete requires payload.timer_id (or id)")
  | some timerId =>
    checkOwnership timerId appName
    let events := (← get).eventsFor timerId maxEvents
    if ← onTables (slotDelete timerId appName now) then
      return .ok slotId requestId (some timerId) none events
    else
      return .err slotId requestId s!"timer not found: {Wire.uuidText timerId}"

/-- What a request says about itself: its payload, and the app it is from. -/
def SlotRequest.open? (req : SlotRequest) : Except String (SlotPayload × String) :=
  match req.payload with
  | none => .error "missing payload"
  | some v =>
    match SlotPayload.fromValue v with
    | .error message => .error message
    | .ok payload =>
      match payload.appName.filter (· ≠ "") with
      | none => .error "payload.app_name is required"
      | some appName => .ok (payload, appName)

/-- The branch of an operation. -/
def SlotOperation.carryOut : SlotOperation → SlotPayload → String → String → String → Nat → Int →
    SlotM SlotResponse
  | add => addTimer
  | modify => modifyTimer
  | delete => removeTimer

/-- `apply_request_tx`. -/
def applyRequestTx (req : SlotRequest) (operation : SlotOperation) (requestId : String)
    (maxEvents : Nat) (now : Int) : SlotM SlotResponse := do
  let (payload, appName) ← orInvalid req.open?
  advanceAck payload appName
  operation.carryOut payload appName req.slotId requestId maxEvents now

/-- A refusal is turned into the answer; what was written before it stays. -/
def respond (req : SlotRequest) (operation : SlotOperation) (requestId : String)
    (maxEvents : Nat) (now : Int) : SlotM SlotResponse :=
  tryCatch (applyRequestTx req operation requestId maxEvents now) fun
    | .invalid message => pure (.err req.slotId requestId message)
    | e => throw e

/-! ### Once for each request id -/

/-- The durable record of a request; it holds the response. -/
structure SlotRequestRecord where
  requestId : String
  slotId : String
  operation : SlotOperation
  appName : Option String
  timerId : Option Uuid
  status : SlotStatus
  response : SlotResponse
  createdAt : Int
  deriving Repr, DecidableEq

/-- The database: the store, and the table of slot requests. -/
structure SlotStore where
  store : Store := {}
  slotRequests : List SlotRequestRecord := []

/-- The record of a request. -/
def SlotStore.getRequest (s : SlotStore) (requestId : String) : Option SlotRequestRecord :=
  s.slotRequests.find? (·.requestId == requestId)

/-- `slot_execute_once`: the stored record, or `apply` and the record of it
in one transaction. -/
def slotExecuteOnce (requestId : String) (apply : SlotM SlotRequestRecord) :
    Prog SlotStore SlotError SlotRequestRecord :=
  atomically do
    match (← get).getRequest requestId with
    | some existing => return existing
    | none =>
      let row ← zoom SlotStore.store (fun s t => { t with store := s }) apply
      modify fun t => { t with slotRequests := t.slotRequests ++ [row] }
      return row

/-- The record of an answered request. -/
def SlotRequest.record (req : SlotRequest) (operation : SlotOperation) (requestId : String)
    (response : SlotResponse) (now : Int) : SlotRequestRecord where
  requestId
  slotId := req.slotId
  operation
  appName := ((req.payload.bind Json.asObject).bind (·.lookup "app_name")).bind Json.asStr
  timerId := response.timerId
  status := response.status
  response
  createdAt := now

/-- The transaction of `process_work_file`. -/
def executeRequest (req : SlotRequest) (operation : SlotOperation) (requestId : String)
    (maxEvents : Nat) (now : Int) : Prog SlotStore SlotError SlotRequestRecord :=
  slotExecuteOnce requestId do
    let response ← respond req operation requestId maxEvents now
    return req.record operation requestId response now

end

/-! ### What each stage does -/

section Stages

variable {α : Type} {s : Store} {E : SlotError → Store → Prop}

@[simp] theorem wp_onTables {m : StoreM α} {Q : α → Store → Prop} :
    wp (onTables m) Q E s = wp m Q (fun e s' => E (.store e) s') s :=
  wp_mapError

theorem wp_orInvalid {x : Except String α} {Q : α → Store → Prop} :
    wp (orInvalid x) Q E s ↔
      (∀ a, x = .ok a → Q a s) ∧ (∀ m, x = .error m → E (.invalid m) s) := by
  cases x <;> simp [orInvalid]

variable {timerId : Uuid} {appName : String}

theorem wp_ackRunEventsTx {n : Nat} {Q : Nat → Store → Prop} {E : Abort → Store → Prop} :
    wp (ackRunEventsTx timerId n) Q E s =
      Q (max (s.lastAckedSequence timerId) n) (s.ackedThrough timerId n) :=
  rfl

theorem wp_setTimerOwner {Q : Unit → Store → Prop} {E : Abort → Store → Prop} :
    wp (setTimerOwner timerId appName) Q E s = Q () (s.ownedBy timerId appName) :=
  rfl

/-- What a cancellation may do to the rows of other tables: nothing; and it
always returns. -/
structure Cancelled (timerId : Uuid) (s s' : Store) : Prop where
  timers : s'.timers = s.timers
  timerOwners : s'.timerOwners = s.timerOwners
  slotEventAcks : s'.slotEventAcks = s.slotEventAcks
  runs : s'.runs = s.runs
  transportProjections : s'.transportProjections = s.transportProjections
  targetCursors : s'.targetCursors = s.targetCursors

theorem Cancelled.refl (timerId : Uuid) (s : Store) : Cancelled timerId s s :=
  ⟨rfl, rfl, rfl, rfl, rfl, rfl⟩

theorem wp_cancelOpenRun {timer : Timer} {owner : Option String} {utc : Int}
    {Q : Option Uuid → Store → Prop} {E : Abort → Store → Prop}
    (h : ∀ out s', Cancelled timer.id s s' → Q out s') :
    wp (cancelOpenRun timer owner utc) Q E s := by
  unfold cancelOpenRun closeOpenRun
  rw [wp_bind, wp_get]
  dsimp only
  split
  · exact h _ _ (.refl _ s)
  · rw [wp_bind, wp_get]
    split
    · unfold emit newUuid enqueueEventConn
      simp only [wp_bind, wp_modifyGet, wp_modify]
      split
      · unfold updateRunStateConn
        simp only [wp_modify, wp_bind, wp_pure]
        apply h
        split <;> exact ⟨rfl, rfl, rfl, rfl, rfl, rfl⟩
      · rw [wp_pure]
        apply h
        split <;> exact ⟨rfl, rfl, rfl, rfl, rfl, rfl⟩
    · exact h _ _ (.refl _ s)

/-- A delete request closes the open run of a timer that is there, and
takes out timer, owner and ack cursor; it returns whether there was one. -/
theorem wp_slotDelete {utc : Int} {Q : Bool → Store → Prop} {E : Abort → Store → Prop}
    (hnone : s.getTimer timerId = none → Q false (s.forgotten timerId))
    (hsome : ∀ timer s', s.getTimer timerId = some timer → Cancelled timerId s s' →
      Q true (s'.forgotten timerId)) :
    wp (slotDelete timerId appName utc) Q E s := by
  unfold slotDelete
  rw [wp_atomically, wp_bind, wp_get]
  cases ht : s.getTimer timerId with
  | none =>
    show Q (s.getTimer timerId).isSome (s.forgotten timerId)
    rw [ht]
    exact hnone ht
  | some timer =>
    obtain ⟨-, rfl⟩ := Rows.key_of_find? Timer.id ht
    dsimp only
    rw [wp_bind]
    apply wp_cancelOpenRun
    intro out s' hc
    show Q (s'.getTimer timer.id).isSome (s'.forgotten timer.id)
    have hget : s'.getTimer timer.id = some timer := by
      rw [← ht]
      exact congrArg (fun l : List Timer => l.find? (·.id == timer.id)) hc.timers
    rw [hget]
    exact hsome timer s' ht hc

/-- A new timer is put down under the id it names, or under one just drawn;
there is none with that id before. -/
theorem wp_createTimerTx [Calendar] {new : NewTimer} {now : Int} {Q : Timer → Store → Prop}
    {E : Abort → Store → Prop}
    (hok : ∀ timer n, s.nextUuid ≤ n → timer.id = new.id.getD ⟨s.nextUuid⟩ →
      s.getTimer timer.id = none →
      Q timer { s with timers := s.timers ++ [timer], nextUuid := n })
    (hfail : ∀ e n, E e { s with nextUuid := n }) : wp (createTimerTx new now) Q E s := by
  unfold createTimerTx orNewUuid newUuid fail
  split
  · exact hfail _ s.nextUuid
  · cases hid : new.id with
    | some id =>
      rw [wp_bind, wp_pure, wp_bind, wp_orPanic]
      refine ⟨fun p _ => ?_, fun _ _ => hfail _ s.nextUuid⟩
      rw [wp_bind, wp_get]
      split
      · exact hfail _ s.nextUuid
      · next hnone =>
        refine hok _ s.nextUuid (Nat.le_refl _) ?_ (Option.not_isSome_iff_eq_none.mp hnone)
        rw [hid]
        rfl
    | none =>
      rw [wp_bind, wp_modifyGet, wp_bind, wp_orPanic]
      refine ⟨fun p _ => ?_, fun _ _ => hfail _ _⟩
      rw [wp_bind, wp_get]
      split
      · exact hfail _ _
      · next hnone =>
        refine hok _ (s.nextUuid + 1) (Nat.le_succ _) ?_ (Option.not_isSome_iff_eq_none.mp hnone)
        rw [hid]
        rfl

/-- The store after the ack of an addition. -/
def Store.ackedOnAdd (s : Store) (timerId : Uuid) : Option Nat → Store
  | some ack => s.ackedThrough timerId (ackSequence ack)
  | none => s

theorem wp_ackAdded {ack : Option Nat} {Q : Unit → Store → Prop} :
    wp (ackAdded timerId ack) Q E s = Q () (s.ackedOnAdd timerId ack) := by
  cases ack <;> rfl

variable [Wire]

theorem wp_checkOwnership {Q : Unit → Store → Prop}
    (hown : s.getTimerOwner timerId = some appName → Q () s)
    (hdenied : s.getTimerOwner timerId ≠ some appName → ∀ m, E (.invalid m) s) :
    wp (checkOwnership timerId appName) Q E s := by
  unfold checkOwnership
  rw [wp_bind, wp_get]
  dsimp only
  split
  · next h => exact hown h
  · next h => exact hdenied h _

/-- The ack goes through when the request names a timer of its app. -/
theorem wp_advanceAck {payload : SlotPayload} {Q : Unit → Store → Prop}
    (hsilent : payload.ackThrough = none ∨ payload.resolvedTimerId = none → Q () s)
    (hacked : ∀ ack timerId, payload.ackThrough = some ack →
      payload.resolvedTimerId = some timerId → s.getTimerOwner timerId = some appName →
      Q () (s.ackedThrough timerId (ackSequence ack)))
    (hdenied : ∀ timerId, payload.resolvedTimerId = some timerId →
      s.getTimerOwner timerId ≠ some appName → ∀ m, E (.invalid m) s) :
    wp (advanceAck payload appName) Q E s := by
  unfold advanceAck
  cases hack : payload.ackThrough with
  | none => exact hsilent (.inl hack)
  | some ack =>
    cases hid : payload.resolvedTimerId with
    | none => exact hsilent (.inr hid)
    | some timerId =>
      dsimp only
      rw [wp_bind]
      apply wp_checkOwnership
      · intro hown
        exact hacked ack timerId hack hid hown
      · intro hne
        exact hdenied timerId hid hne

end Stages

section Once

variable {s : SlotStore} {requestId : String} {apply : SlotM SlotRequestRecord}
  {Q : SlotRequestRecord → SlotStore → Prop} {E : SlotError → SlotStore → Prop}

theorem wp_slotExecuteOnce
    (hold : ∀ existing, s.getRequest requestId = some existing → Q existing s)
    (hnew : s.getRequest requestId = none →
      wp apply (fun row t => Q row { store := t, slotRequests := s.slotRequests ++ [row] })
        (fun e _ => E e s) s.store) :
    wp (slotExecuteOnce requestId apply) Q E s := by
  unfold slotExecuteOnce
  rw [wp_atomically, wp_bind, wp_get]
  cases hget : s.getRequest requestId with
  | some existing => exact hold existing hget
  | none =>
    dsimp only
    rw [wp_bind, wp_zoom]
    exact hnew hget

/-- **A request that has its record is not carried out again.** -/
theorem slotExecuteOnce_of_some {existing : SlotRequestRecord}
    (h : s.getRequest requestId = some existing) :
    (slotExecuteOnce requestId apply).run s = (.ok existing, s) := by
  unfold slotExecuteOnce Prog.run atomically transact
  simp only [bind, get, getThe, MonadStateOf.get, h]
  rfl

variable [Wire] [Calendar] {req : SlotRequest} {operation : SlotOperation} {maxEvents : Nat}
  {now : Int}

/-- The answer is what the transaction returns, or the refusal. -/
theorem wp_respond {t : Store} {Q : SlotResponse → Store → Prop} {E : SlotError → Store → Prop}
    (h : wp (applyRequestTx req operation requestId maxEvents now) Q
      (fun e t' => match e with
        | .invalid message => Q (.err req.slotId requestId message) t'
        | e => E e t') t) :
    wp (respond req operation requestId maxEvents now) Q E t := by
  unfold respond
  rw [wp_tryCatch]
  refine wp_mono h (fun _ _ hq => hq) fun e t' he => ?_
  cases e <;> exact he

/-- The record holds the answer. -/
theorem wp_executeRequest {E : SlotError → SlotStore → Prop}
    (hold : ∀ existing, s.getRequest requestId = some existing → Q existing s)
    (hnew : s.getRequest requestId = none →
      wp (respond req operation requestId maxEvents now)
        (fun response t =>
          let row := req.record operation requestId response now
          Q row { store := t, slotRequests := s.slotRequests ++ [row] })
        (fun e _ => E e s) s.store) :
    wp (executeRequest req operation requestId maxEvents now) Q E s := by
  apply wp_slotExecuteOnce hold
  intro hnone
  rw [wp_bind]
  exact hnew hnone

end Once

/-! ### Sample requests -/

namespace SlotRequest

/-- The id of the timer the samples are about. -/
def sampleId : Uuid := ⟨7⟩

/-- A request of an app about that timer. -/
def sample (requestId appName : String) (operation : SlotOperation)
    (fields : List (String × Json)) : SlotRequest where
  slotId := "0001"
  requestId := some requestId
  operation := some operation
  payload := some (.obj (("app_name", .str appName) ::
    ("timer_id", .str "00000000-0000-0000-0000-000000000007") :: fields))

/-- Add the timer, to fire every minute. -/
def sampleAdd (requestId appName : String) : SlotRequest :=
  sample requestId appName .add
    [("timer_name", .str "lamp"),
      ("occurrence", .obj [("kind", .str "interval"), ("every_secs", .num 60)])]

end SlotRequest

end Bellman
