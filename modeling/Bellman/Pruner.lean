/-
Bellman/Pruner.lean

The pruner among the others.

A pass of the pruner lists the timers, and for each one-shot it reads the
claims, judges from what it has read whether the one-shot has had its day,
and if so takes the row out, then the owner and the folder, and puts down a
tombstone.  Each of these is an access of its own: others may commit between
any two of them, any of them may fail, and the process may die.

    list     read claims   judge   delete            tombstone
     |------------|----------|-------|-------------------|
       the row may change, the        no tombstone yet
       claims may change

The judgement looks at no lifecycle, and at no outcome: a one-shot whose
last run failed, or is still tracked, has had its day as well.

Main result: what a run of the pruner takes out is finished and gets one
tombstone each, exactly when what it read still holds at the removal, the
last run has neither failed nor an open lifecycle, and the tombstone is not
lost to a crash or a fault (`prune_right_iff`).
-/
import Bellman.Deletes
import Bellman.Handled
import Bellman.Lib.Protocol
import Bellman.Publisher

namespace Bellman

open ProgramLogic Prog ProgramLogic.Job

/-! ### The pass -/

/-- Errors from a pass. -/
inductive PruneError where
  | store (e : StoreError)
  | eventLog (text : String)
  | internal (text : String)

/-- Why a pass did not return. -/
inductive PruneFailure where
  | error (e : PruneError)
  | panic (p : Panic)

/-- Tunables of a pass. -/
structure PruneConfig where
  /-- Spans are in nanoseconds. -/
  retention : Nat
  interval : Nat
  ackGrace : Nat
  quarantineBudgetBytes : Nat

/-- One call of `run_prune`; its instant is one that can be represented. -/
structure PruneJob where
  config : PruneConfig
  now : Int
  now_le : now ≤ Occurrence.maxUtc
  force : Bool
  /-- There is a folder tree. -/
  tree : Bool

/-- Outcome of one pass. -/
structure PruneReport where
  archived : Option LogPath := none
  archivesRemoved : Nat := 0
  timersPruned : Nat := 0
  prunedTimerIds : List Uuid := []
  orphanFoldersRemoved : Nat := 0
  skippedNotDue : Bool := false
  skippedNotLeader : Bool := false

/-- The accesses of the pruner to the store, the event log and the folder
tree. -/
inductive PruneCall : Type → Type where
  /-- The instant of the last pass, in `meta`. -/
  | lastPrune : PruneCall (Except PruneFailure (Option Int))
  | setLastPrune (now : Int) : PruneCall (Except PruneFailure Unit)
  /-- Whether the lease was had, the archive made, and what retention removed. -/
  | rotateAndRetain : PruneCall (Except PruneFailure (Bool × Option LogPath × RetainReport))
  | listTimers : PruneCall (Except PruneFailure (List Timer))
  | runsForTimer (timerId : Uuid) : PruneCall (Except PruneFailure (List RunClaim))
  | deleteTimer (id : Uuid) : PruneCall (Except PruneFailure Bool)
  | clearTimerOwner (timerId : Uuid) : PruneCall (Except PruneFailure Unit)
  /-- Enqueue a `pruned` event. -/
  | enqueueEvent (now : Int) (subject : EventSubject) (note : EventNote) :
      PruneCall (Except PruneFailure Unit)
  /-- Remove the folder of a timer. -/
  | removeFor (id : Uuid) : PruneCall (Except PruneFailure Bool)
  | sweepOrphans (liveIds : List Uuid) : PruneCall (Except PruneFailure (List String))
  | reconcileFolders : PruneCall (Except PruneFailure Nat)
  | acquireQuarantine : PruneCall Bool
  | pruneQuarantine (retention budgetBytes : Nat) (now : Int) : PruneCall (Except PruneFailure Nat)

abbrev PruneM (α : Type) : Type 1 := ProgramLogic.Job PruneCall PruneReport PruneFailure α

/-- Arithmetic that panics. -/
def orPanicked {α : Type} : Except Panic α → PruneM α
  | .ok a => return a
  | .error p => throw (.panic p)

/-- `prune_is_due`. -/
def pruneIsDue (lastPrune : Option Int) (now : Int) (interval : Nat) : Except Panic Bool :=
  match lastPrune with
  | none => .ok true
  | some lp => do
    let due ← wallAdd lp ((fromStd interval).getD (secs (7 * 24 * 60 * 60)))
    return due < now

/-- `is_terminal_oneshot`, on the claims that it has read. -/
def Timer.isTerminalGiven (timer : Timer) (runs : List RunClaim) (now : Int) (ackGrace : Nat) :
    Except Panic Bool :=
  match timer.occurrence.kind with
  | .once .. =>
    if runs.any (·.isUnfinished) then .ok false
    else if timer.nextFireUtc.any (now < ·) then .ok false
    else
      let fired := timer.lastFired.isSome && timer.nextFireUtc.isNone
      let pastValidity :=
        timer.validUntil.any (· ≤ now) || timer.occurrence.validUntil.any (· ≤ now)
      let skippedExhausted := timer.nextFireUtc.isNone && (pastValidity || !timer.enabled)
      if !fired && !skippedExhausted && !pastValidity then .ok false
      else do
        let terminalAt :=
          ((timer.lastFired.or timer.validUntil).or timer.occurrence.validUntil).getD now
        let graceOver ← wallAdd terminalAt ((fromStd ackGrace).getD (secs 60))
        return !(now < graceOver)
  | _ => .ok false

/-- The claims are read of one-shots only. -/
def judgeOneshot (job : PruneJob) (timer : Timer) : PruneM Bool := do
  match timer.occurrence.kind with
  | .once .. =>
    let runs ← request (.runsForTimer timer.id)
    orPanicked (timer.isTerminalGiven runs job.now job.config.ackGrace)
  | _ => return false

def elapsedOneshot (job : PruneJob) : EventNote :=
  { message := some "elapsed_oneshot"
    detail := some (.obj [("reason", .str "terminal_oneshot"),
      ("ack_grace_secs", .num (job.config.ackGrace / NS))]) }

/-- One candidate of the pass. -/
def pruneCandidate (job : PruneJob) (timer : Timer) : PruneM Unit := do
  if timer.isSystemPrune then return ()
  else if ← judgeOneshot job timer then
    if ← request (.deleteTimer timer.id) then
      let _ ← query (.clearTimerOwner timer.id)
      modify fun report =>
        { report with
          timersPruned := report.timersPruned + 1
          prunedTimerIds := report.prunedTimerIds ++ [timer.id] }
      if job.tree then
        let _ ← query (.removeFor timer.id)
      request (.enqueueEvent job.now { timerId := some timer.id, timerName := some timer.name }
        (elapsedOneshot job))
    else return ()
  else return ()

/-- The log of one orphan that was removed. -/
def orphanNote (folder : String) : EventNote :=
  { message := some "orphan_timer_folder"
    detail := some (.obj [("reason", .str "orphan_folder"), ("folder", .str folder)]) }

/-- Sweep orphans, reconcile the view, and prune the quarantine. -/
def maintainTree (job : PruneJob) : PruneM Unit := do
  let live ← request .listTimers
  match ← query (.sweepOrphans (live.map (·.id))) with
  | .ok removed =>
    modify fun report => { report with orphanFoldersRemoved := removed.length }
    removed.forM fun folder => request (.enqueueEvent job.now {} (orphanNote folder))
  | .error _ => pure ()
  let _ ← query .reconcileFolders
  if ← query .acquireQuarantine then
    match ← query (.pruneQuarantine job.config.retention job.config.quarantineBudgetBytes
      job.now) with
    | .ok (n + 1) =>
      let _ ← query (.enqueueEvent job.now {}
        { message := some "reply_quarantine_retention"
          detail := some (.obj [("reason", .str "quarantine_retention"),
            ("artifacts_removed", .num (n + 1))]) })
    | _ => return ()
  else return ()

/-- The log of what retention removed. -/
def retentionNote (retain : RetainReport) : EventNote :=
  { message := some "log_retention"
    detail := some (.obj
      [("reason", .str "log_retention"), ("aged_out", .num retain.aged.length),
        ("budget_pruned", .num retain.budget.length),
        ("bytes_removed", .num retain.bytesRemoved)]) }

/-- `run_prune`, once it is due and the lease is had. -/
def pruneDue (job : PruneJob) (archived : Option LogPath) (retain : RetainReport) :
    PruneM PruneReport := do
  let removed := retain.aged.length + retain.budget.length
  if 0 < removed then request (.enqueueEvent job.now {} (retentionNote retain))
  set ({ archived, archivesRemoved := removed } : PruneReport)
  let candidates ← request .listTimers
  candidates.forM (pruneCandidate job)
  if job.tree then maintainTree job
  request (.setLastPrune job.now)
  get

/-- `run_prune`. -/
def runPrune (job : PruneJob) : PruneM PruneReport := do
  let lastPrune ← request .lastPrune
  let due ← (if job.force then return true
    else orPanicked (pruneIsDue lastPrune job.now job.config.interval) : PruneM Bool)
  if !due then return { skippedNotDue := true }
  else
    let (leader, archived, retain) ← request .rotateAndRetain
    if leader then pruneDue job archived retain else return { skippedNotLeader := true }

/-! ### The system -/

structure PruneWorld where
  memory : ReplyState := {}
  lastPrune : Option Int := none

def PruneWorld.store (w : PruneWorld) : Store := w.memory.store

/-- Run a statement. -/
def PruneWorld.exec {α : Type} (w : PruneWorld) (m : StoreM α) :
    Except PruneFailure α × PruneWorld :=
  match m.run w.store with
  | (.ok a, s) => (.ok a, { w with memory := { w.memory with store := s } })
  | (.error (.error e), _) => (.error (.error (.store e)), w)
  | (.error (.panic p), _) => (.error (.panic p), w)

/-- What the program does not decide. -/
structure PruneLuck where
  /-- The call fails, with this error. -/
  fault : Option PruneFailure := none
  rotated : Bool × Option LogPath × RetainReport := (true, none, {})
  folder : Bool := false
  orphans : List String := []
  synced : Nat := 0
  locked : Bool := true
  artifacts : Nat := 0

/-- The answer of a call that may fail. -/
def PruneLuck.decide {α : Type} (l : PruneLuck) (w : PruneWorld)
    (out : Except PruneFailure α × PruneWorld) : Except PruneFailure α × PruneWorld :=
  match l.fault with
  | none => out
  | some e => (.error e, w)

/-- How the calls are answered. -/
def pruneAnswer : {β : Type} → PruneCall β → PruneLuck → PruneWorld → β × PruneWorld
  | _, .lastPrune, l, w => l.decide w (.ok w.lastPrune, w)
  | _, .setLastPrune now, l, w => l.decide w (.ok (), { w with lastPrune := some now })
  | _, .rotateAndRetain, l, w => l.decide w (.ok l.rotated, w)
  | _, .listTimers, l, w => l.decide w (.ok w.store.listTimers, w)
  | _, .runsForTimer timerId, l, w => l.decide w (.ok (w.store.runsForTimer timerId), w)
  | _, .deleteTimer id, l, w => l.decide w (w.exec (Bellman.deleteTimer id))
  | _, .clearTimerOwner timerId, l, w => l.decide w (w.exec (Bellman.clearTimerOwner timerId))
  | _, .enqueueEvent now subject note, l, w => l.decide w (w.exec (emit .pruned now subject note))
  | _, .removeFor _, l, w => l.decide w (.ok l.folder, w)
  | _, .sweepOrphans _, l, w => l.decide w (.ok l.orphans, w)
  | _, .reconcileFolders, l, w => l.decide w (.ok l.synced, w)
  | _, .acquireQuarantine, l, w => (l.locked, w)
  | _, .pruneQuarantine .., l, w => l.decide w (.ok l.artifacts, w)

/-- Where the pruner stands: it looks at candidates, it owes a removed timer
its tombstone, or it has failed to put that down. -/
inductive PrunePhase where
  | scanning
  | owing (id : Uuid)
  | lost
  deriving Repr, DecidableEq

/-- What the pruner has in hand: the timers it has listed and the claims it
has read last. -/
structure PruneView where
  candidates : List Timer := []
  claims : Option (Uuid × List RunClaim) := none
  phase : PrunePhase := .scanning

/-- What is in hand after a call. -/
def PruneCall.view : {β : Type} → PruneCall β → β → PruneView → PruneView
  | _, .listTimers, .ok candidates, v => { v with candidates }
  | _, .runsForTimer timerId, .ok claims, v => { v with claims := some (timerId, claims) }
  | _, .deleteTimer id, .ok true, v => { v with phase := .owing id }
  | _, .enqueueEvent _ subject _, out, v =>
    match subject.timerId, out with
    | none, _ => v
    | some _, .ok _ => { v with phase := .scanning }
    | some _, .error _ => { v with phase := .lost }
  | _, _, _, v => v

/-- The database, the pruner that has the lease, and what it has in hand: it
is at its end when nobody prunes. -/
structure Pruning where
  world : PruneWorld := {}
  job : Option PruneJob := none
  pruner : Thread PruneCall Unit := .ret ()
  view : PruneView := {}

def Pruning.store (s : Pruning) : Store := s.world.store

inductive PruneStep where
  /-- Another process commits, or this one in another thread. -/
  | commit (c : Commit)
  | run (job : PruneJob)
  /-- The pruner makes its next call. -/
  | call (luck : PruneLuck)
  | crash

section

variable [Calendar] (cfg : FireConfig)

def PruneWorld.commit (w : PruneWorld) (c : Commit) : PruneWorld :=
  { w with memory := c.after cfg w.memory }

/-- One step; none if it cannot be taken. -/
def pruneNext (s : Pruning) : PruneStep → Option Pruning
  | .commit c => some { s with world := s.world.commit cfg c }
  | .run job =>
    match s.pruner with
    | .ret _ => some { s with job := some job, pruner := (runPrune job).thread {}, view := {} }
    | .call _ _ => none
  | .call luck =>
    match s.pruner with
    | .ret _ => none
    | .call e k =>
      let answer := pruneAnswer e luck s.world
      some { s with
        world := answer.2
        pruner := k answer.1
        view := e.view answer.1 s.view }
  | .crash => some { world := s.world.commit cfg .crash }

/-- The pruner of a database, among the commits of all processes. -/
def pruning : System Pruning PruneStep where
  init s := s = {}
  step s i s' := pruneNext cfg s i = some s'

end

/-! ### What is to hold -/

/-- The last run of the timer has failed. -/
def Store.lastRunFailed (s : Store) (timerId : Uuid) : Bool :=
  (s.runsForTimer timerId).getLast?.any fun claim =>
    claim.outcome == some .wakeFailed ||
      (s.getRunState claim.runId).any fun row => row.state == .failed

/-- A run of the timer is still tracked. -/
def Store.isTracked (s : Store) (timerId : Uuid) : Bool :=
  s.runStates.any fun row => row.timerId == timerId && !row.isTerminal

namespace Timer

def isOnce (timer : Timer) : Bool :=
  match timer.occurrence.kind with
  | .once .. => true
  | _ => false

/-- It fired, and fires no more. -/
def hasFired (timer : Timer) : Bool := timer.lastFired.isSome && timer.nextFireUtc.isNone

/-- It was passed over: it is off, with no fire to come. -/
def wasSkipped (timer : Timer) : Bool := timer.nextFireUtc.isNone && !timer.enabled

/-- Its window has ended. -/
def windowEnded (timer : Timer) (now : Int) : Bool :=
  timer.validUntil.any (· ≤ now) || timer.occurrence.validUntil.any (· ≤ now)

/-- The fire, or else the end of the window. -/
def terminalMoment (timer : Timer) (now : Int) : Int :=
  ((timer.lastFired.or timer.validUntil).or timer.occurrence.validUntil).getD now

end Timer

/-- The grace, a minute when it is too long to be counted. -/
def PruneConfig.grace (config : PruneConfig) : Int := (fromStd config.ackGrace).getD (secs 60)

/-- The one-shot is finished, and may be removed. -/
structure Store.Finished (s : Store) (job : PruneJob) (timer : Timer) : Prop where
  once : timer.isOnce = true
  past : timer.nextFireUtc.any (job.now < ·) = false
  claims : (s.runsForTimer timer.id).any (·.isUnfinished) = false
  done : timer.hasFired = true ∨ timer.wasSkipped = true ∨ timer.windowEnded job.now = true
  grace : timer.terminalMoment job.now + job.config.grace ≤ job.now
  unfailed : s.lastRunFailed timer.id = false
  untracked : s.isTracked timer.id = false

namespace PruneCall

/-- The timer that the call removes. -/
def removes : {β : Type} → PruneCall β → PruneLuck → PruneWorld → Option Uuid
  | _, deleteTimer id, l, w =>
    if l.fault.isNone && (w.store.getTimer id).isSome then some id else none
  | _, _, _, _ => none

/-- The timer that the call is to put down a tombstone for. -/
def tombstone : {β : Type} → PruneCall β → Option Uuid
  | _, enqueueEvent _ subject _ => subject.timerId
  | _, _ => none

end PruneCall

/-- The timer that a step of the pruner removes. -/
def removed (e : System.Event Pruning PruneStep) : Option Uuid :=
  match e.label, e.pre.pruner with
  | .call l, .call c _ => c.removes l e.pre.world
  | _, _ => none

/-- The timer that a step of the pruner puts down a tombstone for. -/
def tombstoned (e : System.Event Pruning PruneStep) : Option Uuid :=
  match e.label, e.pre.pruner with
  | .call l, .call c _ => if l.fault.isNone then c.tombstone else none
  | _, _ => none

/-- What the step removes is finished at that moment. -/
def RemovesFinished (e : System.Event Pruning PruneStep) : Prop :=
  ∀ id job timer, removed e = some id → e.pre.job = some job →
    e.pre.store.getTimer id = some timer → e.pre.store.Finished job timer

/-- Nobody prunes. -/
def Pruning.Idle (s : Pruning) : Prop := s.pruner = .ret ()

/-- Each timer that was removed has its tombstone. -/
def EachLogged (tr : List (System.Event Pruning PruneStep)) : Prop :=
  ∀ id, (tr.filterMap removed).count id = (tr.filterMap tombstoned).count id

/-- Only finished one-shots are removed, and whenever nobody prunes each of
them has its one tombstone. -/
def PrunesRight (tr : List (System.Event Pruning PruneStep)) : Prop :=
  ∀ a e b, tr = a ++ e :: b → RemovesFinished e ∧ (e.post.Idle → EachLogged (a ++ [e]))

/-! ### When it holds -/

/-- The candidate of that id, with the claims that were read for it. -/
def PruneView.judged (v : PruneView) (id : Uuid) : Option (Timer × List RunClaim) :=
  v.claims.bind fun read =>
    if read.1 = id then (v.candidates.find? (·.id == id)).map fun timer => (timer, read.2)
    else none

/-- What is removed is judged as what was read of it, and its last run has
neither failed nor an open lifecycle. -/
def RemovesAsRead (e : System.Event Pruning PruneStep) : Prop :=
  ∀ id job timer listed claims, removed e = some id → e.pre.job = some job →
    e.pre.store.getTimer id = some timer → e.pre.view.judged id = some (listed, claims) →
      timer.isTerminalGiven (e.pre.store.runsForTimer id) job.now job.config.ackGrace =
        listed.isTerminalGiven claims job.now job.config.ackGrace ∧
      e.pre.store.lastRunFailed id = false ∧ e.pre.store.isTracked id = false

/-- The step leaves a removed timer without its tombstone: the process dies
before it is put down, or it cannot be put down. -/
def LosesTombstone (e : System.Event Pruning PruneStep) : Prop :=
  match e.label, e.pre.pruner with
  | .crash, _ => ∃ id, e.pre.view.phase = .owing id
  | .call l, .call c _ => l.fault.isSome ∧ c.tombstone.isSome
  | _, _ => False

/-! ### The judgement -/

section Judgement

variable {s : Store} {job : PruneJob} {timer : Timer} {runs : List RunClaim} {now : Int}
  {ackGrace : Nat}

theorem Timer.isTerminalOneshot_eq : timer.isTerminalOneshot s now ackGrace =
    timer.isTerminalGiven (s.runsForTimer timer.id) now ackGrace := rfl

/-- The sum is on time, if it can be represented at all. -/
theorem graceOver_iff {t d now : Int} (hnow : now ≤ Occurrence.maxUtc) :
    (do let graceOver ← wallAdd t d; return !(decide (now < graceOver)) : Except Panic Bool) =
        .ok true ↔
      t + d ≤ now := by
  unfold wallAdd
  split
  · next h =>
    constructor
    · intro heq
      cases heq
    · intro hle
      omega
  · show Except.ok (!decide (now < t + d)) = .ok true ↔ _
    simp

theorem judged_iff {c : Bool} {x : Except Panic Bool} :
    (if c then .ok false else x) = .ok true ↔ c = false ∧ x = .ok true := by
  cases c <;> simp

/-- What the judgement looks at. -/
theorem Timer.isTerminalGiven_iff : timer.isTerminalGiven runs job.now job.config.ackGrace =
      .ok true ↔
    timer.isOnce = true ∧ runs.any (·.isUnfinished) = false ∧
      timer.nextFireUtc.any (job.now < ·) = false ∧
      (timer.hasFired = true ∨ timer.wasSkipped = true ∨ timer.windowEnded job.now = true) ∧
      timer.terminalMoment job.now + job.config.grace ≤ job.now := by
  unfold isTerminalGiven isOnce
  split
  · rw [eq_self_iff_true, true_and]
    refine judged_iff.trans (and_congr_right fun _ => ?_)
    refine judged_iff.trans (and_congr_right fun _ => ?_)
    refine judged_iff.trans (and_congr ?_ (graceOver_iff job.now_le))
    simp only [hasFired, wasSkipped, windowEnded]
    generalize (timer.lastFired.isSome && timer.nextFireUtc.isNone) = fired
    generalize (timer.validUntil.any (· ≤ job.now) ||
      timer.occurrence.validUntil.any (· ≤ job.now)) = ended
    cases timer.nextFireUtc.isNone <;> cases timer.enabled <;> cases fired <;> cases ended <;> simp
  · constructor
    · intro heq
      cases heq
    · rintro ⟨honce, -⟩
      cases honce

theorem Store.finished_iff : s.Finished job timer ↔
    timer.isTerminalGiven (s.runsForTimer timer.id) job.now job.config.ackGrace = .ok true ∧
      s.lastRunFailed timer.id = false ∧ s.isTracked timer.id = false := by
  rw [Timer.isTerminalGiven_iff]
  constructor
  · rintro ⟨honce, hpast, hclaims, hdone, hgrace, hunfailed, huntracked⟩
    exact ⟨⟨honce, hclaims, hpast, hdone, hgrace⟩, hunfailed, huntracked⟩
  · rintro ⟨⟨honce, hclaims, hpast, hdone, hgrace⟩, hunfailed, huntracked⟩
    exact ⟨honce, hpast, hclaims, hdone, hgrace, hunfailed, huntracked⟩

end Judgement

/-! ### The protocol of a pass -/

/-- A pass removes a timer only after it has judged it finished, and then
does nothing else until its tombstone is down. -/
def pruneProtocol (job : PruneJob) : Protocol PruneCall PruneView where
  may e v :=
    match e with
    | .deleteTimer id => v.phase = .scanning ∧ ∃ timer ∈ v.candidates, timer.id = id ∧
      ∃ claims, v.claims = some (id, claims) ∧
        timer.isTerminalGiven claims job.now job.config.ackGrace = .ok true
    | .clearTimerOwner _ | .removeFor _ => ∃ id, v.phase = .owing id
    | .enqueueEvent _ subject _ => v.phase = subject.timerId.elim .scanning .owing
    | _ => v.phase = .scanning
  next := PruneCall.view

/-- Nothing is owed. -/
def PruneView.Settled (v : PruneView) : Prop := ∀ id, v.phase ≠ .owing id

section Follows

variable {job : PruneJob} {v : PruneView} {timer : Timer}

theorem settled_of_scanning (h : v.phase = .scanning) : v.Settled := by
  intro id hid
  rw [h] at hid
  cases hid

theorem judgeOneshot_follows (hv : v.phase = .scanning) :
    (judgeOneshot job timer).Follows (pruneProtocol job) (fun o v' => v'.phase = .scanning ∧
      v'.candidates = v.candidates ∧ (o = .ok true → ∃ claims, v'.claims = some (timer.id, claims) ∧
        timer.isTerminalGiven claims job.now job.config.ackGrace = .ok true)) v := by
  unfold judgeOneshot
  split
  · refine Follows.bind (follows_request hv fun o => ?_)
    cases o with
    | error e => exact ⟨hv, rfl, fun h => by cases h⟩
    | ok claims =>
      dsimp only
      cases hjudge : timer.isTerminalGiven claims job.now job.config.ackGrace with
      | error p => exact follows_throw ⟨hv, rfl, fun h => by cases h⟩
      | ok b =>
        refine follows_pure ⟨hv, rfl, fun h => ⟨claims, rfl, ?_⟩⟩
        rw [hjudge, Except.ok.inj h]
  · exact follows_pure ⟨hv, rfl, fun h => by cases h⟩

/-- What follows a removal: the tombstone comes last. -/
theorem removal_follows (hv : v.phase = .owing timer.id) {Q : Except PruneFailure Unit →
    PruneView → Prop} (hdone : ∀ o, Q o { v with phase := if o.isOk then .scanning else .lost }) :
    (do
      let _ ← query (.clearTimerOwner timer.id)
      modify fun report =>
        { report with
          timersPruned := report.timersPruned + 1
          prunedTimerIds := report.prunedTimerIds ++ [timer.id] }
      if job.tree then
        let _ ← query (.removeFor timer.id)
      request (.enqueueEvent job.now { timerId := some timer.id, timerName := some timer.name }
        (elapsedOneshot job)) : PruneM Unit).Follows (pruneProtocol job) Q v := by
  have htomb : (request (.enqueueEvent job.now
      { timerId := some timer.id, timerName := some timer.name } (elapsedOneshot job)) :
      PruneM Unit).Follows (pruneProtocol job) Q v := by
    refine follows_request hv fun o => ?_
    have ho := hdone o
    cases o with
    | ok _ => exact ho
    | error e => exact ho
  refine Follows.bind (follows_query ⟨_, hv⟩ fun _ => Follows.bind (follows_modify ?_))
  refine follows_ite (fun _ => Follows.bind (follows_query ⟨_, hv⟩ fun _ => ?_)) fun _ => htomb
  exact htomb

theorem pruneCandidate_follows (hv : v.phase = .scanning) (ht : timer ∈ v.candidates) :
    (pruneCandidate job timer).Follows (pruneProtocol job) (fun o v' => match o with
      | .ok _ => v'.phase = .scanning ∧ v'.candidates = v.candidates
      | .error _ => v'.Settled) v := by
  unfold pruneCandidate
  refine follows_ite (fun _ => follows_pure ⟨hv, rfl⟩) fun _ => ?_
  refine Follows.bind ((judgeOneshot_follows hv).mono fun o v₁ h => ?_)
  obtain ⟨hphase, hcand, hjudged⟩ := h
  cases o with
  | error e => exact settled_of_scanning hphase
  | ok finished =>
    refine follows_ite (fun hfin => ?_) fun _ => follows_pure ⟨hphase, hcand⟩
    obtain ⟨claims, hclaims, hjudge⟩ := hjudged (congrArg Except.ok hfin)
    refine Follows.bind (follows_request ?_ fun o => ?_)
    · exact ⟨hphase, timer, hcand ▸ ht, rfl, claims, hclaims, hjudge⟩
    cases o with
    | error e => exact settled_of_scanning hphase
    | ok gone =>
      refine follows_ite (fun hgone => ?_) fun hgone => ?_
      · subst hgone
        refine removal_follows rfl fun o => ?_
        cases o with
        | ok _ => exact ⟨rfl, hcand⟩
        | error e => exact fun id hid => by cases hid
      · rw [Bool.not_eq_true] at hgone
        subst hgone
        exact follows_pure ⟨hphase, hcand⟩

/-- The notes that name no timer. -/
theorem note_follows {now : Int} {note : EventNote} {Q : Except PruneFailure Unit →
    PruneView → Prop} (hv : v.phase = .scanning) (hQ : ∀ o, Q o v) :
    (request (.enqueueEvent now {} note) : PruneM Unit).Follows (pruneProtocol job) Q v :=
  follows_request hv hQ

theorem maintainTree_follows (hv : v.phase = .scanning) :
    (maintainTree job).Follows (pruneProtocol job) (fun _ v' => v'.phase = .scanning) v := by
  unfold maintainTree
  refine Follows.bind (follows_request hv fun o => ?_)
  cases o with
  | error e => exact hv
  | ok live =>
    have hquarantine : ∀ v' : PruneView, v'.phase = .scanning → (do
        let _ ← query .reconcileFolders
        if ← query .acquireQuarantine then
          match ← query (.pruneQuarantine job.config.retention job.config.quarantineBudgetBytes
            job.now) with
          | .ok (n + 1) =>
            let _ ← query (.enqueueEvent job.now {}
              { message := some "reply_quarantine_retention"
                detail := some (.obj [("reason", .str "quarantine_retention"),
                  ("artifacts_removed", .num (n + 1))]) })
          | _ => return ()
        else return () : PruneM Unit).Follows (pruneProtocol job)
          (fun _ v' => v'.phase = .scanning) v' := by
      intro v' hv'
      refine Follows.bind (follows_query hv' fun _ => Follows.bind (follows_query hv' fun _ => ?_))
      refine follows_ite (fun _ => Follows.bind (follows_query hv' fun o => ?_))
        fun _ => follows_pure hv'
      dsimp only
      split
      · exact Follows.bind (follows_query hv' fun _ => follows_pure hv')
      · exact follows_pure hv'
    refine Follows.bind (follows_query hv fun o => ?_)
    cases o with
    | error e => exact hquarantine _ hv
    | ok folders =>
      refine Follows.bind (follows_modify (Follows.bind ?_))
      refine follows_forM (I := fun v' => v'.phase = .scanning) (fun folder _ v' hv' => ?_)
        (fun v' hv' => hquarantine v' hv') hv
      refine note_follows hv' fun o => ?_
      cases o with
      | ok _ => exact hv'
      | error e => exact hv'

theorem pruneDue_follows {archived : Option LogPath} {retain : RetainReport}
    (hv : v.phase = .scanning) :
    (pruneDue job archived retain).Follows (pruneProtocol job) (fun _ v' => v'.Settled) v := by
  have hpass : ∀ v : PruneView, v.phase = .scanning → (do
      set ({ archived, archivesRemoved := retain.aged.length + retain.budget.length } :
        PruneReport)
      let candidates ← request .listTimers
      candidates.forM (pruneCandidate job)
      if job.tree then maintainTree job
      request (.setLastPrune job.now)
      get : PruneM PruneReport).Follows (pruneProtocol job) (fun _ v' => v'.Settled) v := by
    intro v hv
    refine Follows.bind (follows_modify (Follows.bind (follows_request hv fun o => ?_)))
    cases o with
    | error e => exact settled_of_scanning hv
    | ok candidates =>
      refine Follows.bind (follows_forM
        (I := fun v' => v'.phase = .scanning ∧ v'.candidates = candidates)
        (fun timer ht v' hv' => ?_) (fun v' hv' => ?_) ⟨hv, rfl⟩)
      · refine (pruneCandidate_follows hv'.1 (hv'.2 ▸ ht)).mono fun o v'' ho => ?_
        cases o with
        | ok _ => exact ⟨ho.1, ho.2.trans hv'.2⟩
        | error e => exact ho
      · have hstamp : ∀ v : PruneView, v.phase = .scanning → (do
            request (.setLastPrune job.now)
            get : PruneM PruneReport).Follows (pruneProtocol job) (fun _ v' => v'.Settled) v := by
          intro v hv
          refine Follows.bind (follows_request hv fun o => ?_)
          cases o with
          | error e => exact settled_of_scanning hv
          | ok _ => exact follows_get fun _ => settled_of_scanning hv
        refine follows_ite (fun _ => Follows.bind ?_) fun _ => hstamp v' hv'.1
        refine (maintainTree_follows hv'.1).mono fun o v'' hv'' => ?_
        cases o with
        | ok _ => exact hstamp v'' hv''
        | error e => exact settled_of_scanning hv''
  refine follows_ite (fun _ => Follows.bind (note_follows hv fun o => ?_)) fun _ => hpass v hv
  cases o with
  | ok _ => exact hpass v hv
  | error e => exact settled_of_scanning hv

/-- **A pass follows the protocol**, and owes nothing in the end. -/
theorem runPrune_follows (hv : v.phase = .scanning) :
    (runPrune job).Follows (pruneProtocol job) (fun _ v' => v'.Settled) v := by
  unfold runPrune
  refine Follows.bind (follows_request hv fun o => ?_)
  cases o with
  | error e => exact settled_of_scanning hv
  | ok lastPrune =>
    have hdue : (if job.force then return true
        else orPanicked (pruneIsDue lastPrune job.now job.config.interval) : PruneM Bool).Follows
          (pruneProtocol job) (fun _ v' => v'.phase = .scanning) v := by
      refine follows_ite (fun _ => follows_pure hv) fun _ => ?_
      cases pruneIsDue lastPrune job.now job.config.interval with
      | ok due => exact follows_pure hv
      | error p => exact follows_throw hv
    refine Follows.bind (hdue.mono fun o v₁ hv₁ => ?_)
    cases o with
    | error e => exact settled_of_scanning hv₁
    | ok due =>
      refine follows_ite (fun _ => follows_pure (settled_of_scanning hv₁)) fun _ => ?_
      refine Follows.bind (follows_request hv₁ fun o => ?_)
      cases o with
      | error e => exact settled_of_scanning hv₁
      | ok rotated =>
        exact follows_ite (fun _ => pruneDue_follows hv₁)
          fun _ => follows_pure (settled_of_scanning hv₁)

end Follows

/-! ### Runs -/

/-- What holds between any two steps. -/
structure Pruning.InOrder (s : Pruning) : Prop where
  keyed : s.store.Keyed
  listed : (s.view.candidates.map (·.id)).Nodup
  follows : ∀ job, s.job = some job →
    s.pruner.Follows (pruneProtocol job) (fun _ v => v.Settled) s.view
  none : s.job = none → s.pruner = .ret () ∧ s.view.phase = .scanning

section Calls

variable {β : Type} {e : PruneCall β} {l : PruneLuck} {w : PruneWorld} {v : PruneView}
  {job : PruneJob} {P : PruneWorld → Prop}

theorem decide_keeps {α : Type} {out : Except PruneFailure α × PruneWorld} (hw : P w)
    (hout : P out.2) : P (l.decide w out).2 := by
  unfold PruneLuck.decide
  split
  · exact hout
  · exact hw

/-- A call keeps the constraints of the schema. -/
theorem answer_keyed (e : PruneCall β) (l : PruneLuck) (hw : w.store.Keyed) :
    (pruneAnswer e l w).2.store.Keyed := by
  cases e with
  | acquireQuarantine => exact hw
  | deleteTimer id =>
    refine decide_keeps (P := fun w => w.store.Keyed) hw ⟨hw.wf.congr rfl rfl rfl, ?_⟩
    exact (List.filter_sublist.map _).nodup hw.ids
  | clearTimerOwner id =>
    exact decide_keeps (P := fun w => w.store.Keyed) hw ⟨hw.wf.congr rfl rfl rfl, hw.ids⟩
  | enqueueEvent now subject note =>
    refine decide_keeps (P := fun w => w.store.Keyed) hw ?_
    refine ⟨?_, ?_⟩
    · show Store.Wf ((emit .pruned now subject note).run w.store).2
      rw [run_emit hw.wf.event_lt]
      exact hw.wf.emit _ rfl
    · show (((emit .pruned now subject note).run w.store).2.timers.map (·.id)).Nodup
      rw [run_emit hw.wf.event_lt]
      exact hw.ids
  | setLastPrune now => exact decide_keeps (P := fun w => w.store.Keyed) hw hw
  | _ => exact decide_keeps (P := fun w => w.store.Keyed) hw hw

theorem listTimers_ids {s : Store} (hs : (s.timers.map (·.id)).Nodup) :
    (s.listTimers.map (·.id)).Nodup :=
  (((List.perm_insertionSort _ s.timers).map _).nodup_iff).mpr hs

/-- What is listed has distinct ids. -/
theorem view_listed (hw : (w.store.timers.map (·.id)).Nodup)
    (hv : (v.candidates.map (·.id)).Nodup) :
    ((e.view (pruneAnswer e l w).1 v).candidates.map (·.id)).Nodup := by
  cases e with
  | listTimers =>
    show ((PruneCall.view .listTimers (l.decide w (.ok w.store.listTimers, w)).1 v).candidates.map
      (·.id)).Nodup
    unfold PruneLuck.decide
    split
    · exact listTimers_ids hw
    · exact hv
  | runsForTimer id =>
    generalize (pruneAnswer (PruneCall.runsForTimer id) l w).1 = out
    rcases out with _ | _ <;> exact hv
  | deleteTimer id =>
    generalize (pruneAnswer (PruneCall.deleteTimer id) l w).1 = out
    rcases out with _ | _ | _ <;> exact hv
  | enqueueEvent now subject note =>
    generalize (pruneAnswer (PruneCall.enqueueEvent now subject note) l w).1 = out
    obtain ⟨_ | _, _, _, _⟩ := subject <;> rcases out with _ | _ <;> exact hv
  | _ => exact hv

end Calls

/-- Whether the pruner owes the timer a tombstone. -/
def PruneView.owes (v : PruneView) (id : Uuid) : Nat := if v.phase = .owing id then 1 else 0

section Calls

variable {β : Type} {e : PruneCall β} {l : PruneLuck} {w : PruneWorld} {v : PruneView}
  {job : PruneJob}

/-- A fault changes nothing of what is in hand, but that a tombstone is
lost. -/
theorem view_of_fault {err : PruneFailure} (hfault : l.fault = some err)
    (htomb : e.tombstone = none) : e.view (pruneAnswer e l w).1 v = v := by
  cases e with
  | enqueueEvent now subject note =>
    have hnone : subject.timerId = none := htomb
    dsimp only [PruneCall.view]
    rw [hnone]
  | listTimers | runsForTimer _ | deleteTimer _ =>
    dsimp only [pruneAnswer, PruneLuck.decide]
    rw [hfault]
    rfl
  | _ => rfl

theorem exec_deleteTimer (w : PruneWorld) (id : Uuid) :
    (w.exec (Bellman.deleteTimer id)).1 = .ok (w.store.getTimer id).isSome := rfl

theorem exec_emit (w : PruneWorld) (now : Int) (subject : EventSubject) (note : EventNote) :
    (w.exec (emit .pruned now subject note)).1 = .ok () := rfl

/-- A call that loses no tombstone: what is removed is owed until it is
logged. -/
theorem call_balance (hmay : (pruneProtocol job).may e v)
    (hkept : ¬(l.fault.isSome ∧ e.tombstone.isSome)) (id : Uuid) :
    (e.removes l w).toList.count id + v.owes id =
      (if l.fault.isNone then e.tombstone else none).toList.count id +
        (e.view (pruneAnswer e l w).1 v).owes id := by
  cases hfault : l.fault with
  | some err =>
    have htomb : e.tombstone = none := by
      rw [hfault] at hkept
      simpa using hkept
    have hremoves : e.removes l w = none := by
      cases e with
      | deleteTimer id =>
        dsimp only [PruneCall.removes]
        rw [hfault]
        rfl
      | _ => rfl
    rw [hremoves, htomb, view_of_fault hfault htomb, ite_self]
  | none =>
    cases e with
    | deleteTimer id' =>
      have hphase : v.phase = .scanning := hmay.1
      dsimp only [pruneAnswer, PruneLuck.decide, PruneCall.removes, PruneCall.tombstone]
      rw [hfault, exec_deleteTimer]
      cases (w.store.getTimer id').isSome with
      | false => rfl
      | true =>
        by_cases hid : id' = id <;> simp [PruneCall.view, PruneView.owes, hphase, hid]
    | enqueueEvent now subject note =>
      have hphase : v.phase = subject.timerId.elim .scanning .owing := hmay
      dsimp only [pruneAnswer, PruneLuck.decide, PruneCall.removes, PruneCall.tombstone]
      rw [hfault, exec_emit]
      dsimp only [PruneCall.view, PruneView.owes]
      cases hsub : subject.timerId with
      | none => simp
      | some id' =>
        rw [hsub] at hphase
        by_cases hid : id' = id <;> simp [hphase, hid]
    | runsForTimer timerId =>
      dsimp only [pruneAnswer, PruneLuck.decide, PruneCall.removes, PruneCall.tombstone]
      rw [hfault]
      rfl
    | listTimers =>
      dsimp only [pruneAnswer, PruneLuck.decide, PruneCall.removes, PruneCall.tombstone]
      rw [hfault]
      rfl
    | _ => rfl

/-- A tombstone that cannot be put down ends the pass. -/
theorem call_loses (hmay : (pruneProtocol job).may e v)
    (hlost : l.fault.isSome ∧ e.tombstone.isSome) :
    (∃ id, v.phase = .owing id) ∧ e.removes l w = none ∧
      (e.view (pruneAnswer e l w).1 v).phase = .lost := by
  obtain ⟨hfault, htomb⟩ := hlost
  obtain ⟨err, hfault⟩ := Option.isSome_iff_exists.mp hfault
  cases e with
  | enqueueEvent now subject note =>
    obtain ⟨id, hid⟩ := Option.isSome_iff_exists.mp htomb
    have hid : subject.timerId = some id := hid
    refine ⟨⟨id, ?_⟩, rfl, ?_⟩
    · have hphase : v.phase = subject.timerId.elim .scanning .owing := hmay
      rw [hphase, hid]
      rfl
    · show (PruneCall.view (.enqueueEvent now subject note) (l.decide w _).1 v).phase = .lost
      unfold PruneLuck.decide
      rw [hfault]
      dsimp only [PruneCall.view]
      rw [hid]
  | _ => cases htomb

end Calls

/-- Nothing is done after a lost tombstone. -/
theorem ret_of_lost {job : PruneJob} {t : Thread PruneCall Unit} {v : PruneView}
    {Q : Unit → PruneView → Prop} (h : t.Follows (pruneProtocol job) Q v)
    (hv : v.phase = .lost) : t = .ret () := by
  cases t with
  | ret _ => rfl
  | call e k =>
    have hmay := h.1
    cases e with
    | deleteTimer id => simp [pruneProtocol, hv] at hmay
    | enqueueEvent now subject note =>
      have hphase : v.phase = subject.timerId.elim .scanning .owing := hmay
      rw [hv] at hphase
      cases hsub : subject.timerId <;> simp [hsub] at hphase
    | _ => simp [pruneProtocol, hv] at hmay

theorem inOrder_init : Pruning.InOrder {} where
  keyed := ⟨Store.wf_empty, List.nodup_nil⟩
  listed := List.nodup_nil
  follows _ h := nomatch h
  none _ := ⟨rfl, rfl⟩

/-- The call of a pruner at work may be made. -/
theorem Pruning.InOrder.may {s : Pruning} (hs : s.InOrder) {β : Type} {e : PruneCall β}
    {k : β → Thread PruneCall Unit} (hpruner : s.pruner = .call e k) :
    ∃ job, s.job = some job ∧ (pruneProtocol job).may e s.view := by
  cases hjob : s.job with
  | none =>
    have hret := (hs.none hjob).1
    rw [hpruner] at hret
    cases hret
  | some job =>
    have hfollows := hs.follows job hjob
    rw [hpruner] at hfollows
    exact ⟨job, rfl, hfollows.1⟩

/-- When nobody prunes, nothing is owed, unless a tombstone was lost. -/
theorem Pruning.InOrder.settled {s : Pruning} (hs : s.InOrder) (hidle : s.Idle) (id : Uuid) :
    s.view.owes id = 0 := by
  refine if_neg ?_
  cases hjob : s.job with
  | none => exact settled_of_scanning (hs.none hjob).2 id
  | some job =>
    have hfollows := hs.follows job hjob
    rw [hidle] at hfollows
    exact hfollows id

section Steps

variable [Calendar] {cfg : FireConfig} {s s' : Pruning} {i : PruneStep}
  {tr : List (System.Event Pruning PruneStep)}

theorem commit_keyed {w : PruneWorld} (hw : w.store.Keyed) (c : Commit) :
    (w.commit cfg c).store.Keyed :=
  ⟨Commit.wf hw.wf, Commit.ids_nodup hw.ids⟩

theorem pruneNext_inOrder (hs : s.InOrder) (hstep : pruneNext cfg s i = some s') :
    s'.InOrder := by
  cases i with
  | commit c =>
    obtain rfl := Option.some.inj hstep
    exact ⟨commit_keyed hs.keyed c, hs.listed, hs.follows, hs.none⟩
  | run job =>
    simp only [pruneNext] at hstep
    split at hstep
    · obtain rfl := Option.some.inj hstep
      refine ⟨hs.keyed, List.nodup_nil, fun job' hjob => ?_, fun hnone => by cases hnone⟩
      obtain rfl := Option.some.inj hjob
      have hpass := (@runPrune_follows job {} rfl).thread {}
      exact hpass.mono fun _ v' ⟨_, hv'⟩ => hv'
    · cases hstep
  | call l =>
    simp only [pruneNext] at hstep
    split at hstep
    · cases hstep
    · next e k hpruner =>
      obtain rfl := Option.some.inj hstep
      refine ⟨answer_keyed e l hs.keyed, view_listed hs.keyed.ids hs.listed, fun job hjob => ?_,
        fun hnone => ?_⟩
      · have hfollows := hs.follows job hjob
        rw [hpruner] at hfollows
        exact hfollows.2 _
      · have hret := (hs.none hnone).1
        rw [hpruner] at hret
        cases hret
  | crash =>
    obtain rfl := Option.some.inj hstep
    exact ⟨commit_keyed hs.keyed .crash, List.nodup_nil, fun _ h => (by cases h),
      fun _ => ⟨rfl, rfl⟩⟩

theorem inOrder_of_run (h : (pruning cfg).Run {} tr s) : s.InOrder :=
  h.invariant (G := fun _ => True) (fun _ _ => trivial) inOrder_init
    fun _ _ _ hstep _ hs => pruneNext_inOrder hs hstep

/-- One step that loses no tombstone. -/
theorem step_balance (hs : s.InOrder) (hstep : pruneNext cfg s i = some s')
    (hkept : ¬LosesTombstone ⟨s, i, s'⟩) (id : Uuid) :
    (removed ⟨s, i, s'⟩).toList.count id + s.view.owes id =
      (tombstoned ⟨s, i, s'⟩).toList.count id + s'.view.owes id := by
  cases i with
  | commit c =>
    obtain rfl := Option.some.inj hstep
    rfl
  | run job =>
    simp only [pruneNext] at hstep
    split at hstep
    · next hret =>
      obtain rfl := Option.some.inj hstep
      have hzero := hs.settled hret id
      show 0 + s.view.owes id = 0 + _
      rw [hzero]
      rfl
    · cases hstep
  | call l =>
    simp only [pruneNext] at hstep
    split at hstep
    · cases hstep
    · next e k hpruner =>
      obtain rfl := Option.some.inj hstep
      obtain ⟨job, -, hmay⟩ := hs.may hpruner
      dsimp only [LosesTombstone, removed, tombstoned] at hkept ⊢
      rw [hpruner] at hkept ⊢
      exact call_balance hmay hkept id
  | crash =>
    obtain rfl := Option.some.inj hstep
    have hzero : s.view.owes id = 0 := if_neg fun howes => hkept ⟨id, howes⟩
    show 0 + s.view.owes id = 0 + _
    rw [hzero]
    rfl

/-- A step that loses one leaves nobody at work. -/
theorem step_loses (hs : s.InOrder) (hstep : pruneNext cfg s i = some s')
    (hlost : LosesTombstone ⟨s, i, s'⟩) :
    s'.Idle ∧ (∃ id, s.view.owes id = 1) ∧ removed ⟨s, i, s'⟩ = none ∧
      tombstoned ⟨s, i, s'⟩ = none := by
  cases i with
  | commit c => cases hlost
  | run job => cases hlost
  | call l =>
    simp only [pruneNext] at hstep
    split at hstep
    · cases hstep
    · next e k hpruner =>
      obtain rfl := Option.some.inj hstep
      obtain ⟨job, hjob, hmay⟩ := hs.may hpruner
      dsimp only [LosesTombstone, removed, tombstoned] at hlost ⊢
      rw [hpruner] at hlost ⊢
      obtain ⟨⟨id, hid⟩, hremoves, hphase⟩ := call_loses (w := s.world) hmay hlost
      refine ⟨?_, ⟨id, if_pos hid⟩, hremoves, if_neg ?_⟩
      · have hfollows := hs.follows job hjob
        rw [hpruner] at hfollows
        exact ret_of_lost (hfollows.2 _) hphase
      · simp [Option.isSome_iff_ne_none.mp hlost.1]
  | crash =>
    obtain rfl := Option.some.inj hstep
    obtain ⟨id, hid⟩ := hlost
    exact ⟨rfl, ⟨id, if_pos hid⟩, rfl, rfl⟩

/-- What a step removes was there, and is there no more. -/
theorem removed_gone (hstep : pruneNext cfg s i = some s') {id : Uuid}
    (h : removed ⟨s, i, s'⟩ = some id) :
    (s.store.getTimer id).isSome = true ∧ s'.store.getTimer id = none := by
  unfold removed at h
  split at h
  · next l β e k hl hpruner =>
    obtain rfl : i = .call l := hl
    have hpruner : s.pruner = .call e k := hpruner
    simp only [pruneNext, hpruner] at hstep
    obtain rfl := Option.some.inj hstep
    cases e with
    | deleteTimer id' =>
      dsimp only [PruneCall.removes] at h
      split at h
      · next hgone =>
        obtain rfl := Option.some.inj h
        rw [Bool.and_eq_true] at hgone
        obtain ⟨hfault, hthere⟩ := hgone
        refine ⟨hthere, ?_⟩
        show (l.decide s.world (s.world.exec (Bellman.deleteTimer id'))).2.store.getTimer id' = none
        unfold PruneLuck.decide
        rw [Option.isNone_iff_eq_none.mp hfault]
        show (s.store.timers.filter _).find? _ = none
        rw [List.find?_eq_none]
        intro timer hmem
        simpa using (List.mem_filter.mp hmem).2
      · cases h
    | _ => cases h
  · cases h

/-- A tombstone is a new event of the outbox. -/
theorem tombstoned_enqueued (hs : s.InOrder) (hstep : pruneNext cfg s i = some s') {id : Uuid}
    (h : tombstoned ⟨s, i, s'⟩ = some id) :
    ∃ event, s'.store.eventOutbox = s.store.eventOutbox ++ [event] ∧ event.kind = .pruned ∧
      event.timerId = some id := by
  unfold tombstoned at h
  split at h
  · next l β e k hl hpruner =>
    obtain rfl : i = .call l := hl
    have hpruner : s.pruner = .call e k := hpruner
    simp only [pruneNext, hpruner] at hstep
    obtain rfl := Option.some.inj hstep
    split at h
    · next hfault =>
      cases e with
      | enqueueEvent now subject note =>
        have hid : subject.timerId = some id := h
        refine ⟨{ subject, note with kind := .pruned, loggedAt := now,
                                     eventId := ⟨s.store.nextUuid⟩ }, ?_, rfl, hid⟩
        show (l.decide s.world (s.world.exec (emit .pruned now subject note))).2.store.eventOutbox
          = _
        unfold PruneLuck.decide
        rw [Option.isNone_iff_eq_none.mp hfault]
        show ((emit .pruned now subject note).run s.world.store).2.eventOutbox = _
        rw [run_emit (s := s.world.store) hs.keyed.wf.event_lt]
        rfl
      | _ => cases h
    · cases h
  · cases h

/-- What is removed in a run that loses no tombstone. -/
theorem balance_of_run (h : (pruning cfg).Run {} tr s) (hkept : ∀ e ∈ tr, ¬LosesTombstone e)
    (id : Uuid) :
    (tr.filterMap removed).count id = (tr.filterMap tombstoned).count id + s.view.owes id := by
  induction h with
  | nil => rfl
  | @snoc tr s i s' hrun hstep ih =>
    have hbefore := ih fun e he => hkept e (List.mem_append_left _ he)
    have hlast := step_balance (inOrder_of_run hrun) hstep (hkept _ (by simp)) id
    have hsplit : ∀ (f : System.Event Pruning PruneStep → Option Uuid)
        (e : System.Event Pruning PruneStep), ((tr ++ [e]).filterMap f).count id =
          (tr.filterMap f).count id + (f e).toList.count id := by
      intro f e
      rw [List.filterMap_append, List.count_append]
      cases hf : f e <;> simp [hf]
    rw [hsplit, hsplit]
    omega

omit [Calendar] in
/-- What a removal has read: the one-shot is judged by it to be finished. -/
theorem judged_of_removed (hs : s.InOrder) {job : PruneJob} {id : Uuid}
    (hremoved : removed ⟨s, i, s'⟩ = some id) (hjob : s.job = some job) :
    ∃ listed claims, s.view.judged id = some (listed, claims) ∧
      listed.isTerminalGiven claims job.now job.config.ackGrace = .ok true := by
  unfold removed at hremoved
  split at hremoved
  · next l β e k hl hpruner =>
    obtain ⟨job', hjob', hmay⟩ := hs.may hpruner
    obtain rfl : job = job' := Option.some.inj (hjob.symm.trans hjob')
    cases e with
    | deleteTimer id' =>
      obtain rfl : id' = id := by
        have hif := hremoved
        dsimp only [PruneCall.removes] at hif
        split at hif
        · exact Option.some.inj hif
        · cases hif
      obtain ⟨-, listed, hmem, rfl, claims, hclaims, hjudge⟩ := hmay
      refine ⟨listed, claims, ?_, hjudge⟩
      unfold PruneView.judged
      rw [hclaims]
      show (if listed.id = listed.id then _ else none) = _
      rw [if_pos rfl, Rows.find?_of_mem Timer.id hs.listed hmem]
      rfl
    | _ => cases hremoved
  · cases hremoved

omit [Calendar] in
/-- A step removes what is finished exactly if it is judged as what was
read, and its last run is as the judgement takes for granted. -/
theorem removesFinished_iff (hs : s.InOrder) :
    RemovesFinished ⟨s, i, s'⟩ ↔ RemovesAsRead ⟨s, i, s'⟩ := by
  constructor
  · intro hfin id job timer listed claims hremoved hjob hrow hjudged
    obtain ⟨listed', claims', hjudged', hverdict⟩ := judged_of_removed hs hremoved hjob
    obtain ⟨rfl, rfl⟩ : listed = listed' ∧ claims = claims' :=
      Prod.mk.inj (Option.some.inj (hjudged.symm.trans hjudged'))
    obtain ⟨-, rfl⟩ := Rows.key_of_find? Timer.id hrow
    obtain ⟨hnow, hunfailed, huntracked⟩ :=
      Store.finished_iff.mp (hfin _ job timer hremoved hjob hrow)
    exact ⟨hnow.trans hverdict.symm, hunfailed, huntracked⟩
  · intro hasRead id job timer hremoved hjob hrow
    obtain ⟨listed, claims, hjudged, hverdict⟩ := judged_of_removed hs hremoved hjob
    obtain ⟨hsame, hunfailed, huntracked⟩ :=
      hasRead id job timer listed claims hremoved hjob hrow hjudged
    obtain ⟨-, rfl⟩ := Rows.key_of_find? Timer.id hrow
    exact Store.finished_iff.mpr ⟨hsame.trans hverdict, hunfailed, huntracked⟩

/-- No tombstone is lost if all that was removed is logged whenever nobody
prunes. -/
theorem kept_of_logged (h : (pruning cfg).Run {} tr s)
    (hlogged : ∀ a e b, tr = a ++ e :: b → e.post.Idle → EachLogged (a ++ [e])) :
    ∀ e ∈ tr, ¬LosesTombstone e := by
  induction h with
  | nil => intro e he; cases he
  | @snoc tr s i s' hrun hstep ih =>
    have hbefore : ∀ e ∈ tr, ¬LosesTombstone e := by
      apply ih
      rintro a e b rfl hidle
      exact hlogged a e (b ++ [⟨s, i, s'⟩]) (by simp) hidle
    intro e he
    rcases List.mem_append.mp he with he | he
    · exact hbefore e he
    obtain rfl := List.mem_singleton.mp he
    intro hlost
    -- the timer that is owed to the end has been removed once too often
    obtain ⟨hidle, ⟨id, howed⟩, hremoved, htombstoned⟩ :=
      step_loses (inOrder_of_run hrun) hstep hlost
    have hcount := hlogged tr ⟨s, i, s'⟩ [] rfl hidle id
    have hbalance := balance_of_run hrun hbefore id
    simp only [List.filterMap_append, List.filterMap_cons, List.filterMap_nil, hremoved,
      htombstoned, List.append_nil] at hcount
    omega

/-- **The pruner deletes only what is finished**, among commits of all kinds,
and logs each removal once, over every run: this holds exactly if every row
that is removed is judged with its claims as the pruner has read them and its
last run neither failed nor is tracked, and no tombstone is lost to a crash
or a fault. -/
theorem prune_right_iff (h : (pruning cfg).Run {} tr s) :
    PrunesRight tr ↔ ∀ e ∈ tr, RemovesAsRead e ∧ ¬LosesTombstone e := by
  constructor
  · intro hright e he
    refine ⟨?_, kept_of_logged h (fun a e b htr => (hright a e b htr).2) e he⟩
    obtain ⟨a, b, rfl⟩ := List.append_of_mem he
    exact (removesFinished_iff (inOrder_of_run h.split.1)).mp (hright a e b rfl).1
  · rintro hall a e b rfl
    obtain ⟨hrun, hstep, -⟩ := h.split
    have hinOrder : e.pre.InOrder := inOrder_of_run hrun
    refine ⟨(removesFinished_iff hinOrder).mpr (hall e (by simp)).1, fun hidle id => ?_⟩
    have hrun' : (pruning cfg).Run {} (a ++ [e]) e.post := hrun.snoc hstep
    have hbalance := balance_of_run hrun' (fun d hd => (hall d ?_).2) id
    · rw [hbalance, (inOrder_of_run hrun').settled hidle id, Nat.add_zero]
    · rcases List.mem_append.mp hd with hd | hd
      · exact List.mem_append_left _ hd
      · exact List.mem_append_right _ (List.mem_singleton.mp hd ▸ List.mem_cons_self)

end Steps

/-! ### The conditions can be checked -/

instance (e : System.Event Pruning PruneStep) : Decidable (RemovesAsRead e) :=
  decidable_of_iff (∀ id ∈ removed e, ∀ job ∈ e.pre.job, ∀ timer ∈ e.pre.store.getTimer id,
      ∀ read ∈ e.pre.view.judged id,
        timer.isTerminalGiven (e.pre.store.runsForTimer id) job.now job.config.ackGrace =
            read.1.isTerminalGiven read.2 job.now job.config.ackGrace ∧
          e.pre.store.lastRunFailed id = false ∧ e.pre.store.isTracked id = false)
    ⟨fun h id job timer listed claims hid hjob hrow hread =>
        h id hid job hjob timer hrow (listed, claims) hread,
      fun h id hid job hjob timer hrow read hread =>
        h id job timer read.1 read.2 hid hjob hrow hread⟩

instance : (e : System.Event Pruning PruneStep) → Decidable (LosesTombstone e)
  | ⟨s, .crash, _⟩ =>
    match h : s.view.phase with
    | .owing id => .isTrue ⟨id, h⟩
    | .scanning => .isFalse fun ⟨_, hid⟩ => nomatch h.symm.trans hid
    | .lost => .isFalse fun ⟨_, hid⟩ => nomatch h.symm.trans hid
  | ⟨{ pruner := .call c _, .. }, .call l, _⟩ =>
    inferInstanceAs (Decidable (l.fault.isSome = true ∧ c.tombstone.isSome = true))
  | ⟨{ pruner := .ret _, .. }, .call _, _⟩ => .isFalse id
  | ⟨_, .commit _, _⟩ => .isFalse id
  | ⟨_, .run _, _⟩ => .isFalse id

section Sample

attribute [local instance] Calendar.utcOnly

/-- A pass with a grace of a minute. -/
def PruneJob.sample : PruneJob where
  config :=
    { retention := 0, interval := 0, ackGrace := 60000000000, quarantineBudgetBytes := 0 }
  now := 1000 * NS
  now_le := by decide
  force := true
  tree := false

/-- The database has gone through the commits, and the pass through some of
its calls. -/
def PruneStep.pass (cs : List Commit) (calls : Nat) : List PruneStep :=
  cs.map .commit ++ .run .sample :: List.replicate calls (.call {})

def Pruning.passed (cs : List Commit) (calls : Nat) : Pruning :=
  (PruneStep.pass cs calls).foldl (fun s i => (pruneNext .sample s i).getD s) {}

theorem run_passed (cs : List Commit) (calls : Nat) :
    (pruning .sample).Run {}
      (System.traceEnabled (pruneNext .sample) {} (PruneStep.pass cs calls))
      (Pruning.passed cs calls) :=
  System.run_traceEnabled (fun _ _ _ h => h) _ _

/-- The lamp of nobody: its run is not tracked. -/
def lampOut : List Commit :=
  [.createTimer .onceLamp 0, .fire (lampFiring (60 * NS) none none),
    .updateTimer { id := SlotRequest.sampleId, expectedRevision := 1,
                   patch := { lastFired := some (some (60 * NS)) } } (60 * NS),
    .finishRun .inlineDelivered ⟨0⟩ (60 * NS)]

/-- It is removed, and logged once. -/
theorem prune_right_lampOut :
    PrunesRight (System.traceEnabled (pruneNext .sample) {} (PruneStep.pass lampOut 8)) :=
  (prune_right_iff (run_passed lampOut 8)).mpr (by decide +kernel)

example : (System.traceEnabled (pruneNext .sample) {} (PruneStep.pass lampOut 8)).filterMap
    removed = [SlotRequest.sampleId] := by decide +kernel

/-- The lamp of an app that has not replied yet is removed all the same. -/
theorem not_prunes_right : ¬∀ tr s, (pruning .sample).Run {} tr s → PrunesRight tr := by
  intro h
  obtain ⟨s', hstep⟩ : ∃ s', pruneNext .sample (.passed lampSpent 4) (.call {}) = some s' :=
    Option.isSome_iff_exists.mp (by decide +kernel)
  have hright := h _ _ ((run_passed lampSpent 4).snoc hstep)
  obtain ⟨job, hjob⟩ : ∃ job, (Pruning.passed lampSpent 4).job = some job :=
    Option.isSome_iff_exists.mp (by decide +kernel)
  obtain ⟨timer, hrow⟩ : ∃ timer,
      (Pruning.passed lampSpent 4).store.getTimer SlotRequest.sampleId = some timer :=
    Option.isSome_iff_exists.mp (by decide +kernel)
  have hremoved : removed ⟨.passed lampSpent 4, .call {}, s'⟩ = some SlotRequest.sampleId := by
    show (match (Pruning.passed lampSpent 4).pruner with
      | .call c _ => c.removes {} (Pruning.passed lampSpent 4).world
      | .ret _ => none) = _
    decide +kernel
  have hfin := (hright _ _ [] rfl).1 _ job timer hremoved hjob hrow
  obtain ⟨-, hid⟩ := Rows.key_of_find? Timer.id hrow
  have htracked : (Pruning.passed lampSpent 4).store.isTracked SlotRequest.sampleId = true := by
    decide +kernel
  rw [← hid, hfin.untracked] at htracked
  cases htracked

end Sample

end Bellman
