/-
Bellman/Processing.lean

How a claimed request file is processed.

A worker reads the file, carries the request out in one transaction, and
then does what lies outside of it: the ack hook of the reply engine, the
folder of the timer, the response file, and last the removal of the work
file.  Each of these is a step of its own.  Between any two of them other
processes commit, other workers go on with their files, an operation fails,
or everything crashes; a file that is still in `work/` is taken up again,
and a duplicate of a request may be filed at any time under another slot.

What a worker did before is remembered in one place only, the record under
the request's id.  Everything after the transaction is done again for each
file with that id, from what this file says.

Main results: records stay (`getRequest_after`), a worker past the
transaction holds the response on record (`answered_of_run`), and the hook
acknowledges a run exactly when there is one it answers
(`replyAckHook_eq_iff`).
-/
import Bellman.SlotLedger
import Bellman.Story

namespace Bellman

open ProgramLogic Prog ReplyM

/-! ### The file -/

section

variable [Wire]

/-- What the worker asks of the envelope before it trusts it; `reserved` is
the slot id in the name of the file. -/
def SlotRequest.identify (req : SlotRequest) (reserved : String) :
    Except String (String × SlotOperation) :=
  if req.isFreeStub then .error "empty stub found in work/ (not a request)"
  else if req.slotId ≠ reserved then
    .error (s!"envelope slot_id \"{req.slotId}\" does not match reserved id \"{reserved}\" " ++
      "from filename")
  else
    match req.requestId.filter (· ≠ "") with
    | none => .error "missing request_id"
    | some requestId =>
      match req.operation with
      | none => .error "missing operation"
      | some operation => .ok (requestId, operation)

/-- The payload, where it can be read. -/
def SlotRequest.readPayload (req : SlotRequest) : Option SlotPayload :=
  req.payload.bind fun v => (SlotPayload.fromValue v).toOption

/-- The timer that the payload names. -/
def SlotRequest.names (req : SlotRequest) : Option Uuid :=
  req.readPayload.bind (·.resolvedTimerId)

/-- The ack of the payload, with the timer it is for. -/
def SlotRequest.acks (req : SlotRequest) : Option (Uuid × Nat) :=
  req.readPayload.bind fun p =>
    p.ackThrough.bind fun n => p.resolvedTimerId.map fun timerId => (timerId, n)

end

/-! ### The hook -/

/-- `reply_ack_hook`: a reply engine of its own, with nothing in its memory,
takes note of the ack. -/
def replyAckHook (timerId : Uuid) (through : Nat) (nowWall : Int) (s : Store) : Store :=
  match s.getTimer timerId with
  | none => s
  | some timer => ((onAckThrough timer through nowWall).run { store := s }).2.store

/-- The ack answers a run: the current run of the timer is not above it, and
waits for its pickup or was given up. -/
def Store.Answers (s : Store) (timerId : Uuid) (through : Nat) : Prop :=
  ∃ timer row claim, s.getTimer timerId = some timer ∧
    s.currentRunState timerId = some row ∧ s.getRun row.runId = some claim ∧
    claim.eventSequence ≤ through ∧
    ((row.pickupDeadline.isSome = true ∧ row.state.isFired = true) ∨ row.state = .noAck)

/-- An event is added, or is there already; nothing else is written. -/
theorem wp_emit_some {kind : RunState} {loggedAt : Int} {subject : EventSubject}
    {note : EventNote} {s : Store} {Q : Unit → Store → Prop} {E : Abort → Store → Prop}
    (h : ∀ evs, (∀ e ∈ evs, e.timerId = subject.timerId) →
      Q () { s with nextUuid := s.nextUuid + 1, eventOutbox := s.eventOutbox ++ evs }) :
    wp (emit kind loggedAt subject note) Q E s := by
  unfold emit newUuid enqueueEventConn
  simp only [wp_bind, wp_modifyGet, wp_modify]
  split
  · have hnone := h [] (by simp)
    rwa [List.append_nil] at hnone
  · exact h [_] (by simp)

/-- The hook has taken note of an ack for the run of this row. -/
structure AckNoted (timerId : Uuid) (row : RunStateRow) (nowWall : Int) (s s' : Store) : Prop
    extends Cancelled timerId s s' where
  states : s'.runStates = (s.wrote (row.acked nowWall)).runStates
  events : ∃ evs, s'.eventOutbox = s.eventOutbox ++ evs ∧ ∀ e ∈ evs, e.timerId = some timerId

theorem markAcknowledged_noted {timer : Timer} {claim : RunClaim} {row : RunStateRow}
    {nowWall : Int} (r : ReplyState) :
    wp (markAcknowledged timer claim row nowWall)
      (fun _ r' => AckNoted timer.id row nowWall r.store r'.store) (fun _ _ => False) r := by
  unfold markAcknowledged onBook
  rw [wp_bind, wp_modify]
  by_cases hlogged : row.acknowledgedLogged = false
  · rw [if_pos hlogged, wp_bind, wp_onStore]
    apply wp_emit_some
    intro evs hevs
    rw [wp_onStore, wp_updateRunStateConn]
    exact ⟨⟨rfl, rfl, rfl, rfl, rfl, rfl⟩, rfl, evs, rfl, hevs⟩
  · have hlogged := Bool.eq_true_of_not_eq_false hlogged
    rw [if_neg (by simp [hlogged]), wp_onStore, wp_updateRunStateConn]
    refine ⟨⟨rfl, rfl, rfl, rfl, rfl, rfl⟩, ?_, [], by simp [Store.wrote], by simp⟩
    -- The flag was set already.
    simp only [RunStateRow.acked, Store.wrote, ← hlogged]

/-- What the hook comes to: nothing, or the run that the ack answers is
acknowledged. -/
def Store.HookedTo (s : Store) (timerId : Uuid) (through : Nat) (nowWall : Int)
    (s' : Store) : Prop :=
  (¬s.Answers timerId through ∧ s' = s) ∨
    ∃ row claim, s.currentRunState timerId = some row ∧ s.getRun row.runId = some claim ∧
      claim.eventSequence ≤ through ∧
      ((row.pickupDeadline.isSome = true ∧ row.state.isFired = true) ∨ row.state = .noAck) ∧
      AckNoted timerId row nowWall s s'

theorem Store.HookedTo.idle {s : Store} {timerId : Uuid} {through : Nat} {nowWall : Int}
    (h : ∀ row claim, s.currentRunState timerId = some row → s.getRun row.runId = some claim →
      claim.eventSequence ≤ through →
      ¬((row.pickupDeadline.isSome = true ∧ row.state.isFired = true) ∨ row.state = .noAck)) :
    s.HookedTo timerId through nowWall s := by
  refine .inl ⟨?_, rfl⟩
  rintro ⟨_, row, claim, _, hcur, hrun, hle, hopen⟩
  exact h row claim hcur hrun hle hopen

theorem onAckThrough_hooked {timer : Timer} {through : Nat} {nowWall : Int} (r : ReplyState) :
    wp (onAckThrough timer through nowWall)
      (fun _ r' => r.store.HookedTo timer.id through nowWall r'.store) (fun _ _ => False) r := by
  unfold onAckThrough
  rw [wp_bind, wp_read]
  cases hcur : r.store.currentRunState timer.id with
  | none =>
    refine Store.HookedTo.idle fun row claim h => ?_
    rw [hcur] at h
    cases h
  | some row =>
    dsimp only
    rw [wp_bind, wp_read]
    cases hclaim : r.store.getRun row.runId with
    | none =>
      refine Store.HookedTo.idle fun row' claim h h' => ?_
      obtain rfl := Option.some.inj (hcur.symm.trans h)
      rw [hclaim] at h'
      cases h'
    | some claim =>
      have hthis : ∀ {row' claim'}, r.store.currentRunState timer.id = some row' →
          r.store.getRun row'.runId = some claim' → row' = row ∧ claim' = claim := by
        intro row' claim' h h'
        obtain rfl := Option.some.inj (hcur.symm.trans h)
        exact ⟨rfl, Option.some.inj (h'.symm.trans hclaim)⟩
      dsimp only
      split
      · next hlt =>
        refine Store.HookedTo.idle fun row' claim' h h' hle => ?_
        obtain ⟨rfl, rfl⟩ := hthis h h'
        omega
      · next hle =>
        split
        · next hopen =>
          rw [wp_bind, inTx, wp_transact]
          refine wp_mono (markAcknowledged_noted r) (fun _ r' hn => ?_) fun _ _ h => h
          exact .inr ⟨row, claim, hcur, hclaim, Nat.le_of_not_lt hle, hopen, hn⟩
        · next hclosed =>
          refine Store.HookedTo.idle fun row' claim' h h' _ => ?_
          obtain ⟨rfl, rfl⟩ := hthis h h'
          exact hclosed

/-- The hook does nothing, or takes note of the ack for the run it
answers. -/
theorem replyAckHook_cases (timerId : Uuid) (through : Nat) (nowWall : Int) (s : Store) :
    s.HookedTo timerId through nowWall (replyAckHook timerId through nowWall s) := by
  unfold replyAckHook
  cases htimer : s.getTimer timerId with
  | none =>
    refine .inl ⟨?_, rfl⟩
    rintro ⟨timer, row, claim, h, -⟩
    rw [htimer] at h
    cases h
  | some timer =>
    obtain ⟨-, rfl⟩ := Rows.key_of_find? Timer.id htimer
    dsimp only
    generalize hrun : (onAckThrough timer through nowWall).run { store := s } = out
    rcases out with ⟨_ | _, r'⟩
    · exact (wp_error (onAckThrough_hooked _) hrun).elim
    · exact wp_ok (onAckThrough_hooked { store := s }) hrun

theorem Store.Answers.of_current {s : Store} {timerId : Uuid} {through : Nat} {timer : Timer}
    {row : RunStateRow} {claim : RunClaim} (ht : s.getTimer timerId = some timer)
    (hcur : s.currentRunState timerId = some row) (hclaim : s.getRun row.runId = some claim)
    (hle : claim.eventSequence ≤ through)
    (hopen : (row.pickupDeadline.isSome = true ∧ row.state.isFired = true) ∨
      row.state = .noAck) : s.Answers timerId through :=
  ⟨timer, row, claim, ht, hcur, hclaim, hle, hopen⟩

/-- **The hook changes something exactly when it answers a run.** -/
theorem replyAckHook_eq_iff {timerId : Uuid} {through : Nat} {nowWall : Int} {s : Store} :
    replyAckHook timerId through nowWall s = s ↔ ¬s.Answers timerId through := by
  rcases replyAckHook_cases timerId through nowWall s with ⟨hno, hsame⟩ | h
  · exact ⟨fun _ => hno, fun _ => hsame⟩
  · obtain ⟨row, claim, hcur, hclaim, hle, hopen, hn⟩ := h
    constructor
    · intro hsame
      -- The row says now that it is acknowledged.
      have hstates := hn.states
      rw [hsame] at hstates
      have hfix := List.map_inj_left.mp (hstates.symm.trans (List.map_id s.runStates).symm) row
        (currentRunState_mem hcur)
      rw [if_pos (show row.runId = (row.acked nowWall).runId from rfl)] at hfix
      have hstate : row.state = .acknowledged := (congrArg RunStateRow.state hfix).symm
      rw [hstate] at hopen
      rcases hopen with ⟨-, h⟩ | h <;> cases h
    · intro hno
      cases htimer : s.getTimer timerId with
      | none =>
        unfold replyAckHook
        rw [htimer]
      | some timer => exact absurd (.of_current htimer hcur hclaim hle hopen) hno

/-! ### Workers -/

/-- How far a worker has come. -/
inductive SlotStage where
  | execute
  | hook
  | view
  | write
  | clean
  deriving Repr, DecidableEq

/-- A worker with its file. -/
structure SlotJob where
  slotId : String
  req : SlotRequest
  requestId : String
  operation : SlotOperation
  pre : Option Timer
  stage : SlotStage := .execute
  answer : Option SlotResponse := none
  duplicate : Bool := false

namespace SlotJob

variable [Wire]

/-- The request was carried out, now or before. -/
def isOk (job : SlotJob) : Bool := job.answer.any (·.status == .ok)

/-- What the hook is called with. -/
def acks (hasTree : Bool) (job : SlotJob) : Option (Uuid × Nat) :=
  if hasTree && job.isOk then job.req.acks else none

/-- The folder that is to be there. -/
def syncs (hasTree : Bool) (job : SlotJob) : Option Uuid :=
  if hasTree && job.isOk && job.operation != .delete then job.answer.bind (·.timerId) else none

/-- The folder that is removed. -/
def removes (hasTree : Bool) (job : SlotJob) : Option Uuid :=
  if hasTree && job.isOk && job.operation == .delete then job.pre.map (·.id) else none

end SlotJob

/-- A file is put in a folder, over the one of this name. -/
def putFile {α : Type} (slotId : String) (content : α) (files : List (String × α)) :
    List (String × α) :=
  files.filter (fun f => f.1 ≠ slotId) ++ [(slotId, content)]

/-- The database, the folders of the timers, the slot folders, and the
workers; `written` keeps every response that was put into a file. -/
structure SlotService where
  db : SlotState := {}
  folders : List Uuid := []
  work : List (String × SlotRequest) := []
  done : List (String × SlotResponse) := []
  written : List (String × SlotResponse) := []
  jobs : List SlotJob := []

/-- A step of the service, or of the processes beside it.  A worker is given
by its place in the pool.  The hook and the folder may fail without ending
the work on the file (`skip`); any other failure ends it (`fail`). -/
inductive SlotMove where
  | commit (c : Commit)
  | folders (folders : List Uuid)
  | file (slotId : String) (req : SlotRequest)
  | start (slotId : String)
  | execute (i : Nat) (now : Int)
  | hook (i : Nat) (nowWall : Int)
  | view (i : Nat)
  | write (i : Nat)
  | clean (i : Nat)
  | skip (i : Nat)
  | fail (i : Nat)
  | crash

namespace SlotService

/-- The store. -/
def store (s : SlotService) : Store := s.db.reply.store

/-- The record of a request. -/
def getRequest (s : SlotService) (requestId : String) : Option SlotRequestRecord :=
  s.db.db.getRequest requestId

/-- The worker goes on. -/
def advance (s : SlotService) (i : Nat) (job : SlotJob) : SlotService :=
  { s with jobs := s.jobs.set i job }

/-- The worker is through with its file. -/
def leave (s : SlotService) (i : Nat) (job : SlotJob) : SlotService :=
  { s with work := s.work.filter fun w => w.1 ≠ job.slotId, jobs := s.jobs.eraseIdx i }

/-- The worker goes on without the hook, or without the folder. -/
def skip (s : SlotService) (i : Nat) (job : SlotJob) : SlotService :=
  match job.stage with
  | .hook => s.advance i { job with stage := .view }
  | .view => s.advance i { job with stage := .write }
  | _ => s

/-- The worker at a place, if it is at this stage. -/
def jobAt (s : SlotService) (i : Nat) (stage : SlotStage) : Option SlotJob :=
  s.jobs[i]?.filter (·.stage == stage)

variable [Wire] [Calendar]

/-- The transaction; a failure that is no answer sends the file to `bad/`. -/
def execute (maxEvents : Nat) (s : SlotService) (i : Nat) (job : SlotJob) (now : Int) :
    SlotService :=
  match (executeRequest job.req job.operation job.requestId maxEvents now).run s.db.db with
  | (.ok answer, db) =>
    { s with db := s.db.put db }.advance i
      { job with
        stage := .hook
        answer := some answer.response
        duplicate := (s.getRequest job.requestId).isSome }
  | (.error _, db) => { s with db := s.db.put db }.leave i job

/-- The ack hook, if the request was carried out and has an ack. -/
def hook (hasTree : Bool) (s : SlotService) (i : Nat) (job : SlotJob) (nowWall : Int) :
    SlotService :=
  let store :=
    match job.acks hasTree with
    | some (timerId, through) => replyAckHook timerId through nowWall s.store
    | none => s.store
  { s with db := s.db.put { s.db.db with store } }.advance i { job with stage := .view }

/-- The folders with the one of the timer, if there is such a timer. -/
def synced (hasTree : Bool) (s : SlotService) (job : SlotJob) : List Uuid :=
  match job.syncs hasTree with
  | some timerId =>
    if (s.store.getTimer timerId).isSome then timerId :: s.folders else s.folders
  | none => s.folders

/-- The folder of the timer is written, or removed. -/
def view (hasTree : Bool) (s : SlotService) (i : Nat) (job : SlotJob) : SlotService :=
  let folders :=
    match job.removes hasTree with
    | some timerId => (s.synced hasTree job).filter (· ≠ timerId)
    | none => s.synced hasTree job
  { s with folders }.advance i { job with stage := .write }

/-- The response file. -/
def write (s : SlotService) (i : Nat) (job : SlotJob) (response : SlotResponse) : SlotService :=
  { s with
    done := putFile job.slotId response s.done
    written := s.written ++ [(job.requestId, response)] }.advance i { job with stage := .clean }

/-- The worker that takes up a file: before anything else it takes note of
the timer that is to be deleted. -/
def newJob (hasTree : Bool) (s : SlotService) (slotId : String) (req : SlotRequest)
    (requestId : String) (operation : SlotOperation) : SlotJob where
  slotId
  req
  requestId
  operation
  pre := if hasTree && operation == .delete then req.names.bind s.store.getTimer else none

/-- The state after a step; a step that no worker is at the stage for is
none. -/
def after (cfg : FireConfig) (maxEvents : Nat) (hasTree : Bool) (s : SlotService) :
    SlotMove → SlotService
  | .commit c => { s with db := { s.db with reply := c.after cfg s.db.reply } }
  | .folders folders => { s with folders }
  | .file slotId req =>
    { s with work := putFile slotId req s.work }
  | .start slotId =>
    match s.work.lookup slotId with
    | none => s
    | some req =>
      match req.identify slotId with
      | .ok (requestId, operation) =>
        { s with jobs := s.jobs ++ [s.newJob hasTree slotId req requestId operation] }
      | .error _ => { s with work := s.work.filter fun w => w.1 ≠ slotId }
  | .execute i now =>
    match s.jobAt i .execute with
    | some job => s.execute maxEvents i job now
    | none => s
  | .hook i nowWall =>
    match s.jobAt i .hook with
    | some job => s.hook hasTree i job nowWall
    | none => s
  | .view i =>
    match s.jobAt i .view with
    | some job => s.view hasTree i job
    | none => s
  | .write i =>
    match s.jobAt i .write with
    | some job =>
      match job.answer with
      | some response => s.write i job response
      | none => s
    | none => s
  | .clean i =>
    match s.jobAt i .clean with
    | some job => s.leave i job
    | none => s
  | .skip i =>
    match s.jobs[i]? with
    | some job => s.skip i job
    | none => s
  | .fail i =>
    match s.jobs[i]? with
    | some job => s.leave i job
    | none => s
  | .crash => { s with db := { s.db with reply := { store := s.store } }, jobs := [] }

end SlotService

/-- The service beside the other processes. -/
def slotService [Wire] [Calendar] (cfg : FireConfig) (maxEvents : Nat) (hasTree : Bool) :
    System SlotService SlotMove where
  init s := s = {}
  step s l s' := s' = s.after cfg maxEvents hasTree l

/-! ### Records -/

section

variable [Wire] [Calendar] {cfg : FireConfig} {maxEvents : Nat} {hasTree : Bool}

/-- After its transaction a request is on record with its answer; one that
was on record before has changed nothing, and no record is lost. -/
theorem executeRequest_recorded {req : SlotRequest} {operation : SlotOperation}
    {requestId : String} {now : Int} (db : SlotStore) :
    wp (executeRequest req operation requestId maxEvents now)
      (fun answer db' => db'.getRequest requestId = some answer ∧
        (∀ id row, db.getRequest id = some row → db'.getRequest id = some row) ∧
        (db.getRequest requestId ≠ none → db' = db))
      (fun _ db' => db' = db) db := by
  apply wp_executeRequest
  · intro existing hold
    exact ⟨hold, fun _ _ h => h, fun _ => rfl⟩
  · intro hnone
    refine wp_mono (wp_iff.mpr ⟨fun _ _ _ => trivial, fun _ _ _ => trivial⟩)
      (fun response t _ => ?_) fun _ _ _ => rfl
    have hfind : ∀ id, SlotStore.getRequest { store := t, slotRequests := db.slotRequests ++
        [req.record operation requestId response now] } id =
        (db.getRequest id).or
          (if requestId = id then some (req.record operation requestId response now) else none) :=
      fun id => Rows.find?_append_one SlotRequestRecord.requestId _ id
    refine ⟨?_, fun id row h => ?_, fun h => absurd hnone h⟩
    · rw [hfind, hnone, if_pos rfl]
      rfl
    · rw [hfind, h]
      rfl

namespace SlotService

variable {s : SlotService}

omit [Wire] [Calendar] in
theorem jobAt_mem {i : Nat} {stage : SlotStage} {job : SlotJob}
    (h : s.jobAt i stage = some job) : job ∈ s.jobs ∧ job.stage = stage := by
  obtain ⟨hget, hstage⟩ := Option.filter_eq_some_iff.mp h
  exact ⟨List.mem_of_getElem? hget, eq_of_beq hstage⟩

omit [Wire] [Calendar] in
/-- Going on without an effect is at most a new stage. -/
theorem skip_cases (s : SlotService) (i : Nat) (job : SlotJob) :
    s.skip i job = s ∨ ∃ stage, s.skip i job = s.advance i { job with stage } := by
  unfold skip
  cases job.stage with
  | hook => exact .inr ⟨.view, rfl⟩
  | view => exact .inr ⟨.write, rfl⟩
  | _ => exact .inl rfl

/-- What the transaction of a worker comes to: an answer that is on record
from now on, or a failure that leaves everything as it was. -/
theorem execute_cases (s : SlotService) (i : Nat) (job : SlotJob) (now : Int) :
    s.execute maxEvents i job now = s.leave i job ∨
      ∃ answer db, db.getRequest job.requestId = some answer ∧
        (∀ id row, s.getRequest id = some row → db.getRequest id = some row) ∧
        (s.getRequest job.requestId ≠ none → db = s.db.db) ∧
        s.execute maxEvents i job now = { s with db := s.db.put db }.advance i
          { job with
            stage := .hook
            answer := some answer.response
            duplicate := (s.getRequest job.requestId).isSome } := by
  have h : wp (executeRequest job.req job.operation job.requestId maxEvents now) _ _ s.db.db :=
    executeRequest_recorded s.db.db
  unfold execute
  rcases hrun : (executeRequest job.req job.operation job.requestId maxEvents now).run s.db.db
    with ⟨_ | answer, db⟩
  · left
    obtain rfl : db = s.db.db := wp_error h hrun
    rfl
  · obtain ⟨hget, hkeep, hsame⟩ := wp_ok h hrun
    exact .inr ⟨answer, db, hget, hkeep, hsame, rfl⟩

/-- Records stay. -/
theorem getRequest_after (l : SlotMove) {id : String} {row : SlotRequestRecord}
    (h : s.getRequest id = some row) :
    (s.after cfg maxEvents hasTree l).getRequest id = some row := by
  cases l with
  | execute i now =>
    show SlotService.getRequest (match s.jobAt i .execute with
      | some job => s.execute maxEvents i job now
      | none => s) id = some row
    split
    · next job _ =>
      rcases s.execute_cases i job now with hex | ⟨answer, db, _, hkeep, _, hex⟩
      · rw [hex]
        exact h
      · rw [hex]
        exact hkeep id row h
    · exact h
  | start slotId =>
    unfold after
    dsimp only
    split
    · exact h
    · split <;> exact h
  | hook i nowWall | view i | clean i | fail i =>
    unfold after
    dsimp only
    split <;> exact h
  | skip i =>
    unfold after
    dsimp only
    split
    · next job _ =>
      rcases s.skip_cases i job with hskip | ⟨_, hskip⟩ <;>
      · rw [hskip]
        exact h
    · exact h
  | write i =>
    unfold after
    dsimp only
    split
    · split <;> exact h
    · exact h
  | _ => exact h

/-- A worker that holds a response had it before the step, or has just
found it on record. -/
theorem jobs_after (l : SlotMove) {job : SlotJob}
    (hjob : job ∈ (s.after cfg maxEvents hasTree l).jobs) {response : SlotResponse}
    (hanswer : job.answer = some response) :
    (∃ old ∈ s.jobs, old.requestId = job.requestId ∧ old.answer = some response) ∨
      ((s.after cfg maxEvents hasTree l).getRequest job.requestId).map (·.response) =
        some response := by
  have hset : ∀ {i : Nat} {stage : SlotStage} {old new : SlotJob},
      s.jobAt i stage = some old → new.requestId = old.requestId → new.answer = old.answer →
      job ∈ s.jobs.set i new →
      ∃ old ∈ s.jobs, old.requestId = job.requestId ∧ old.answer = some response := by
    intro i stage old new hat hid hans hmem
    rcases List.mem_or_eq_of_mem_set hmem with hmem | rfl
    · exact ⟨job, hmem, rfl, hanswer⟩
    · exact ⟨old, (jobAt_mem hat).1, hid.symm, hans ▸ hanswer⟩
  have hkept : job ∈ s.jobs →
      ∃ old ∈ s.jobs, old.requestId = job.requestId ∧ old.answer = some response :=
    fun hmem => ⟨job, hmem, rfl, hanswer⟩
  cases l with
  | commit c | folders fs | file slotId req => exact .inl (hkept hjob)
  | crash => cases hjob
  | start slotId =>
    unfold after at hjob
    dsimp only at hjob
    split at hjob
    · exact .inl (hkept hjob)
    · split at hjob
      · rcases List.mem_append.mp hjob with hjob | hjob
        · exact .inl (hkept hjob)
        · rw [List.mem_singleton.mp hjob] at hanswer
          cases hanswer
      · exact .inl (hkept hjob)
  | execute i now =>
    unfold after at hjob ⊢
    dsimp only at hjob ⊢
    split at hjob
    · next old hat =>
      rcases s.execute_cases i old now with hex | ⟨answer, db, hget, _, _, hex⟩
      · rw [hex] at hjob
        exact .inl (hkept (List.mem_of_mem_eraseIdx hjob))
      · rw [hex] at hjob ⊢
        rcases List.mem_or_eq_of_mem_set hjob with hjob | rfl
        · exact .inl (hkept hjob)
        · obtain rfl := Option.some.inj hanswer
          exact .inr (congrArg _ hget)
    · exact .inl (hkept hjob)
  | hook i nowWall | view i =>
    unfold after at hjob
    dsimp only at hjob
    split at hjob
    · next old hat => refine .inl (hset hat ?_ ?_ hjob) <;> rfl
    · exact .inl (hkept hjob)
  | write i =>
    unfold after at hjob
    dsimp only at hjob
    split at hjob
    · next old hat =>
      split at hjob
      · refine .inl (hset hat ?_ ?_ hjob) <;> rfl
      · exact .inl (hkept hjob)
    · exact .inl (hkept hjob)
  | skip i =>
    unfold after at hjob
    dsimp only at hjob
    split at hjob
    · next old hget =>
      rcases s.skip_cases i old with hskip | ⟨_, hskip⟩
      · rw [hskip] at hjob
        exact .inl (hkept hjob)
      · rw [hskip] at hjob
        rcases List.mem_or_eq_of_mem_set hjob with hjob | rfl
        · exact .inl (hkept hjob)
        · exact .inl ⟨old, List.mem_of_getElem? hget, rfl, hanswer⟩
    · exact .inl (hkept hjob)
  | clean i | fail i =>
    unfold after at hjob
    dsimp only at hjob
    split at hjob
    · exact .inl (hkept (List.mem_of_mem_eraseIdx hjob))
    · exact .inl (hkept hjob)

/-- A file that is there was there before the step, or holds the response of
a worker. -/
theorem written_after (l : SlotMove) {w : String × SlotResponse}
    (hw : w ∈ (s.after cfg maxEvents hasTree l).written) :
    w ∈ s.written ∨ ∃ job ∈ s.jobs, job.requestId = w.1 ∧ job.answer = some w.2 := by
  cases l with
  | write i =>
    unfold after at hw
    dsimp only at hw
    split at hw
    · next job hat =>
      split at hw
      · next response hanswer =>
        rcases List.mem_append.mp hw with hw | hw
        · exact .inl hw
        · obtain rfl := List.mem_singleton.mp hw
          exact .inr ⟨job, (jobAt_mem hat).1, rfl, hanswer⟩
      · exact .inl hw
    · exact .inl hw
  | execute i now =>
    unfold after at hw
    dsimp only at hw
    split at hw
    · next job _ =>
      rcases s.execute_cases i job now with hex | ⟨_, _, _, _, _, hex⟩ <;>
      · rw [hex] at hw
        exact .inl hw
    · exact .inl hw
  | start slotId =>
    unfold after at hw
    dsimp only at hw
    split at hw
    · exact .inl hw
    · split at hw <;> exact .inl hw
  | hook i nowWall | view i | clean i | fail i =>
    unfold after at hw
    dsimp only at hw
    split at hw <;> exact .inl hw
  | skip i =>
    unfold after at hw
    dsimp only at hw
    split at hw
    · next job _ =>
      rcases s.skip_cases i job with hskip | ⟨_, hskip⟩ <;>
      · rw [hskip] at hw
        exact .inl hw
    · exact .inl hw
  | _ => exact .inl hw

/-- Every worker past its transaction holds the response on record, and so
does every file that was written. -/
structure Answered (s : SlotService) : Prop where
  jobs : ∀ job ∈ s.jobs, ∀ response, job.answer = some response →
    (s.getRequest job.requestId).map (·.response) = some response
  written : ∀ w ∈ s.written, (s.getRequest w.1).map (·.response) = some w.2

theorem Answered.step (h : s.Answered) (l : SlotMove) :
    (s.after cfg maxEvents hasTree l).Answered := by
  have hkeep : ∀ {id response}, (s.getRequest id).map (·.response) = some response →
      ((s.after cfg maxEvents hasTree l).getRequest id).map (·.response) = some response := by
    intro id response hid
    obtain ⟨row, hrow, rfl⟩ := Option.map_eq_some_iff.mp hid
    rw [getRequest_after l hrow]
    rfl
  constructor
  · intro job hjob response hanswer
    rcases jobs_after l hjob hanswer with ⟨old, hold, hid, hans⟩ | hnew
    · rw [← hid]
      exact hkeep (h.jobs old hold response hans)
    · exact hnew
  · intro w hw
    rcases written_after l hw with hw | ⟨job, hjob, hid, hans⟩
    · exact hkeep (h.written w hw)
    · rw [← hid]
      exact hkeep (h.jobs job hjob w.2 hans)

theorem answered_of_run {tr : List (System.Event SlotService SlotMove)}
    (h : (slotService cfg maxEvents hasTree).Run {} tr s) : s.Answered :=
  h.invariant (G := fun _ => True) (fun _ _ => trivial) ⟨by simp, by simp⟩
    fun _ l _ hstep _ hi => hstep ▸ hi.step l

end SlotService

end

end Bellman
