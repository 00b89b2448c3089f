/-
Bellman/Dispatcher.lean

The fire dispatcher: the pump, the workers and their lanes.

The pump reads the pending claims, takes the lock of the lane book, and
sends run ids as *hints* into a bounded queue, reserving a place in the
lane of the claim's timer for each.  A worker that receives a hint moves
the claim from pending to active by compare-and-swap, moves the reservation
from queued to active, runs the action, commits the result and leaves the
lane.  A panic puts the claim back to pending and then leaves the lane.

Every lock section and every store transaction is a step of its own, so
that the steps of the pump, of the workers and of the rest of the system
interleave freely.  While the pump holds the lane book, no worker enters or
leaves a lane.

One process owns the dispatcher.  When it dies its memory is gone; the next
owner starts by putting the active claims back to pending.
-/
import Bellman.Commit
import Mathlib.Data.List.AList

namespace Bellman

open ProgramLogic

/-! ### Lanes -/

/-- The reservations of one timer: hints sent, and claims being executed. -/
structure Lane where
  queued : List Uuid := []
  active : List Uuid := []
  deriving Repr, DecidableEq

namespace Lane

def inLane (l : Lane) : Nat := l.queued.length + l.active.length

def reserves (l : Lane) (run : Uuid) : Bool := l.queued.contains run || l.active.contains run

/-- `queued.retain(|id| *id != run)`. -/
def unqueue (l : Lane) (run : Uuid) : Lane :=
  { l with queued := l.queued.filter fun id => id ≠ run }

/-- The reservation moves from queued to active. -/
def enter (l : Lane) (run : Uuid) : Lane :=
  { queued := l.queued.filter fun id => id ≠ run
    active := if l.active.contains run then l.active else l.active ++ [run] }

def leave (l : Lane) (run : Uuid) : Lane :=
  { queued := l.queued.filter fun id => id ≠ run
    active := l.active.filter fun id => id ≠ run }

end Lane

/-- `LaneBook`: the lanes by timer; a timer without an entry has an empty
one. -/
abbrev LaneBook := AList fun _ : Uuid => Lane

namespace LaneBook

def laneOf (b : LaneBook) (timerId : Uuid) : Lane := (b.lookup timerId).getD {}

/-- `release_queued`: the first lane that queues the run lets it go. -/
def releaseQueued (b : LaneBook) (run : Uuid) : LaneBook :=
  match b.entries.find? fun e => e.2.queued.contains run with
  | some e => b.insert e.1 (e.2.unqueue run)
  | none => b

/-- The worker's move into the lane of its claim's timer. -/
def enter (b : LaneBook) (timerId run : Uuid) : LaneBook :=
  b.insert timerId ((b.laneOf timerId).enter run)

/-- `finish_lane`: an empty lane loses its entry. -/
def finishLane (b : LaneBook) (timerId run : Uuid) : LaneBook :=
  match b.lookup timerId with
  | none => b
  | some lane =>
    if (lane.leave run).inLane = 0 then b.erase timerId
    else b.insert timerId (lane.leave run)

/-- A hint for the run has been sent. -/
def enqueue (b : LaneBook) (timerId run : Uuid) : LaneBook :=
  b.insert timerId { b.laneOf timerId with queued := (b.laneOf timerId).queued ++ [run] }

end LaneBook

/-- How many claims of a timer may be in its lane. -/
def OverlapPolicy.limit : OverlapPolicy → Nat
  | .skip | .queueOne | .replace => 1
  | .parallel cap => cap

/-! ### The parties -/

/-- Where a worker stands with its hint. -/
inductive Job where
  /-- A hint was received. -/
  | hinted (run : Uuid)
  /-- The hint was stale or lost the swap; its reservation is to be released. -/
  | stale (run : Uuid)
  /-- The row was read, and is pending. -/
  | loaded (claim : RunClaim)
  /-- The swap was won. -/
  | won (claim : RunClaim)
  /-- The reservation is active. -/
  | entered (claim : RunClaim)
  /-- The action runs. -/
  | executing (claim : RunClaim) (timer : Timer)
  /-- The result is committed; the lane is to be left. -/
  | leaving (claim : RunClaim)
  deriving DecidableEq

/-- Where the pump stands: the claims it has read and not yet dealt with,
by timer and oldest first. -/
inductive Pump where
  | idle
  | scanned (todo : List (Uuid × List RunClaim))
  | locked (todo : List (Uuid × List RunClaim))
  deriving DecidableEq

/-- The dispatcher and the store it works on.  Idle workers have no job. -/
structure Dispatch where
  reply : ReplyState := {}
  lanes : LaneBook := ∅
  queue : List Uuid := []
  jobs : List Job := []
  pump : Pump := .idle

/-- The settings of the dispatcher. -/
structure DispatchConfig where
  fire : FireConfig
  maxConcurrentActions : Nat

namespace DispatchConfig

def workers (cfg : DispatchConfig) : Nat := max cfg.maxConcurrentActions 1

def queueCap (cfg : DispatchConfig) : Nat := max (2 * cfg.workers) 1

end DispatchConfig

/-- The steps.  `ok = false` is a store access that failed; where the code
ignores the failure, nothing changes in the store. -/
inductive Act where
  /-- A commit of any other party. -/
  | commit (c : Commit)
  /-- The owner dies, and its memory with it. -/
  | die
  /-- `begin_startup` of the next owner. -/
  | startup
  /-- The pump reads the pending claims; `order` is the order in which the
  map by timer will be walked. -/
  | scan (order : List Uuid)
  | lock
  /-- `get_timer` fails for the next claim. -/
  | timerError
  /-- The pump deals with the next claim. -/
  | claim (ok : Bool) (utc : Int)
  /-- The channel is closed, or no claim is left. -/
  | unlock
  | recv
  | load (i : Nat) (ok : Bool)
  | activate (i : Nat) (ok : Bool)
  | release (i : Nat)
  | enter (i : Nat)
  /-- The worker reads its timer; `committed` is the commit that follows if
  there is none to execute. -/
  | loadTimer (i : Nat) (ok committed : Bool) (utc : Int)
  /-- The action returns with an outcome. -/
  | finish (i : Nat) (e : JobEnd) (ok : Bool) (utc : Int)
  /-- The action panics. -/
  | panic (i : Nat) (ok : Bool)
  | leave (i : Nat)

namespace Dispatch

/-- Make a commit on the store. -/
def after [Calendar] (cfg : DispatchConfig) (d : Dispatch) (c : Commit) : Dispatch :=
  { d with reply := c.after cfg.fire d.reply }

/-- Make a commit, unless the store access fails. -/
def afterIf [Calendar] (cfg : DispatchConfig) (d : Dispatch) (ok : Bool) (c : Commit) : Dispatch :=
  if ok then d.after cfg c else d

/-- Worker `i` goes on to another job. -/
def become (d : Dispatch) (i : Nat) (job : Job) : Dispatch :=
  { d with jobs := d.jobs.eraseIdx i ++ [job] }

/-- Worker `i` is idle again. -/
def retire (d : Dispatch) (i : Nat) : Dispatch := { d with jobs := d.jobs.eraseIdx i }

/-- The pump does not hold the lane book. -/
def lanesFree (d : Dispatch) : Bool :=
  match d.pump with
  | .locked _ => false
  | _ => true

/-- The pending claims of the timers in `order`, by event sequence. -/
def pendingByTimer (s : Store) (order : List Uuid) : List (Uuid × List RunClaim) :=
  order.map fun timerId =>
    (timerId, (s.pendingClaims.filter (·.timerId == timerId)).insertionSort
      fun a b => a.eventSequence ≤ b.eventSequence)

/-- The scan of `pump_once`: each timer with a pending claim comes once. -/
def scan (d : Dispatch) (order : List Uuid) : Option Dispatch :=
  let timers := (d.reply.store.pendingClaims.map (·.timerId)).dedup
  if d.pump = .idle ∧ order.Perm timers then
    some { d with pump := .scanned (pendingByTimer d.reply.store order) }
  else none

/-- One turn of the dispatch loop of `pump_once`, under the lane book. -/
def pumpClaim [Calendar] (cfg : DispatchConfig) (d : Dispatch) (ok : Bool) (utc : Int) :
    Option Dispatch :=
  match d.pump with
  | .locked ((_, []) :: rest) => some { d with pump := .locked rest }
  | .locked ((timerId, claim :: claims) :: rest) =>
    let next := { d with pump := .locked ((timerId, claims) :: rest) }
    if (d.lanes.laneOf timerId).reserves claim.runId then some next
    else
      match d.reply.store.getTimer timerId with
      | none => some (next.afterIf cfg ok (.finishRun .timerDeleted claim.runId utc))
      | some timer =>
        if timer.overlap.limit = 0 then some next
        else if timer.overlap.limit ≤ (d.lanes.laneOf timerId).inLane then
          some { d with pump := .locked rest }
        else if d.queue.length < cfg.queueCap then
          some { next with
            queue := d.queue ++ [claim.runId]
            lanes := d.lanes.enqueue timerId claim.runId }
        else some { d with pump := .idle }
  | _ => none

/-- The pump takes the lock of the lane book. -/
def lock (d : Dispatch) : Option Dispatch :=
  match d.pump with
  | .scanned todo => some { d with pump := .locked todo }
  | _ => none

/-- `get_timer` fails, and the other claims of the timer are passed over. -/
def timerError (d : Dispatch) : Option Dispatch :=
  match d.pump with
  | .locked ((timerId, claim :: _) :: rest) =>
    if (d.lanes.laneOf timerId).reserves claim.runId then none
    else some { d with pump := .locked rest }
  | _ => none

def unlock (d : Dispatch) : Option Dispatch :=
  match d.pump with
  | .locked _ => some { d with pump := .idle }
  | _ => none

/-- An idle worker receives the oldest hint. -/
def recv (cfg : DispatchConfig) (d : Dispatch) : Option Dispatch :=
  match d.queue with
  | run :: queue =>
    if d.jobs.length < cfg.workers then some { d with queue, jobs := d.jobs ++ [.hinted run] }
    else none
  | [] => none

/-- The claim is read; one that is not pending was hinted at in vain. -/
def load (d : Dispatch) (i : Nat) (ok : Bool) : Option Dispatch :=
  match d.jobs[i]? with
  | some (.hinted run) =>
    match if ok then d.reply.store.getRun run else none with
    | some claim =>
      some (d.become i (if claim.status = .pending then .loaded claim else .stale run))
    | none => some (d.become i (.stale run))
  | _ => none

/-- The swap from pending to active. -/
def activate [Calendar] (cfg : DispatchConfig) (d : Dispatch) (i : Nat) (ok : Bool) :
    Option Dispatch :=
  match d.jobs[i]? with
  | some (.loaded claim) =>
    if ok then
      let won := (d.reply.store.getRun claim.runId).any (·.status == .pending)
      some ((d.after cfg (.activateRun claim.runId)).become i
        (if won then .won claim else .stale claim.runId))
    else some (d.become i (.stale claim.runId))
  | _ => none

/-- `release_queued`. -/
def release (d : Dispatch) (i : Nat) : Option Dispatch :=
  match d.jobs[i]? with
  | some (.stale run) =>
    if d.lanesFree then some { d.retire i with lanes := d.lanes.releaseQueued run } else none
  | _ => none

/-- The reservation moves from queued to active. -/
def enter (d : Dispatch) (i : Nat) : Option Dispatch :=
  match d.jobs[i]? with
  | some (.won claim) =>
    if d.lanesFree then
      some { d.become i (.entered claim) with lanes := d.lanes.enter claim.timerId claim.runId }
    else none
  | _ => none

/-- The timer is read, and the action starts; a deleted timer closes the
claim, and a failed read puts it back. -/
def loadTimer [Calendar] (cfg : DispatchConfig) (d : Dispatch) (i : Nat) (ok committed : Bool)
    (utc : Int) : Option Dispatch :=
  match d.jobs[i]? with
  | some (.entered claim) =>
    if ok then
      match d.reply.store.getTimer claim.timerId with
      | some timer => some (d.become i (.executing claim timer))
      | none =>
        let name := toString claim.timerId.n
        some ((d.afterIf cfg committed (.finishClaim claim name .timerDeleted utc)).become i
          (.leaving claim))
    else some ((d.afterIf cfg committed (.rependRun claim.runId)).become i (.leaving claim))
  | _ => none

/-- The action returns, and its outcome is committed. -/
def finish [Calendar] (cfg : DispatchConfig) (d : Dispatch) (i : Nat) (e : JobEnd) (ok : Bool)
    (utc : Int) : Option Dispatch :=
  match d.jobs[i]? with
  | some (.executing claim timer) =>
    some ((d.afterIf cfg ok (.finishClaim claim timer.name e utc)).become i (.leaving claim))
  | _ => none

/-- The action panics, and the claim is put back. -/
def panicked [Calendar] (cfg : DispatchConfig) (d : Dispatch) (i : Nat) (ok : Bool) :
    Option Dispatch :=
  match d.jobs[i]? with
  | some (.executing claim _) =>
    some ((d.afterIf cfg ok (.rependRun claim.runId)).become i (.leaving claim))
  | _ => none

/-- `finish_lane`. -/
def leave (d : Dispatch) (i : Nat) : Option Dispatch :=
  match d.jobs[i]? with
  | some (.leaving claim) =>
    if d.lanesFree then
      some { d.retire i with lanes := d.lanes.finishLane claim.timerId claim.runId }
    else none
  | _ => none

/-- A commit of another party; activation and re-pend are the dispatcher's. -/
def commit [Calendar] (cfg : DispatchConfig) (d : Dispatch) : Commit → Option Dispatch
  | .activateRun _ | .rependRun _ | .rependAllActive => none
  | c => some (d.after cfg c)

/-- One step of the system, if it is enabled. -/
def next [Calendar] (cfg : DispatchConfig) (d : Dispatch) : Act → Option Dispatch
  | .commit c => d.commit cfg c
  | .die => some { reply := { store := d.reply.store } }
  | .startup => some (d.after cfg .rependAllActive)
  | .scan order => d.scan order
  | .lock => d.lock
  | .timerError => d.timerError
  | .claim ok utc => d.pumpClaim cfg ok utc
  | .unlock => d.unlock
  | .recv => d.recv cfg
  | .load i ok => d.load i ok
  | .activate i ok => d.activate cfg i ok
  | .release i => d.release i
  | .enter i => d.enter i
  | .loadTimer i ok committed utc => d.loadTimer cfg i ok committed utc
  | .finish i e ok utc => d.finish cfg i e ok utc
  | .panic i ok => d.panicked cfg i ok
  | .leave i => d.leave i

end Dispatch

/-- The dispatcher beside the rest of the system, from any well-formed
database. -/
def dispatcher [Calendar] (cfg : DispatchConfig) : System Dispatch Act where
  init d := ∃ store : Store, store.Wf ∧ d = { reply := { store } }
  step d a d' := d.next cfg a = some d'

/-! ### What a step can do -/

section Steps

variable [Calendar]

/-- The steps, branch by branch. -/
inductive Step (cfg : DispatchConfig) (d : Dispatch) : Act → Dispatch → Prop
  | commit (c : Commit) : (∀ run, c ≠ .activateRun run ∧ c ≠ .rependRun run) →
      c ≠ .rependAllActive → Step cfg d (.commit c) (d.after cfg c)
  | die : Step cfg d .die { reply := { store := d.reply.store } }
  | startup : Step cfg d .startup (d.after cfg .rependAllActive)
  | scan (order : List Uuid) : d.pump = .idle →
      Step cfg d (.scan order)
        { d with pump := .scanned (Dispatch.pendingByTimer d.reply.store order) }
  | lock {todo} : d.pump = .scanned todo → Step cfg d .lock { d with pump := .locked todo }
  | timerError {t claims rest} : d.pump = .locked ((t, claims) :: rest) →
      Step cfg d .timerError { d with pump := .locked rest }
  | emptied {t rest} (ok utc) : d.pump = .locked ((t, []) :: rest) →
      Step cfg d (.claim ok utc) { d with pump := .locked rest }
  | reserved {t claim claims rest} (ok utc) : d.pump = .locked ((t, claim :: claims) :: rest) →
      (d.lanes.laneOf t).reserves claim.runId = true →
      Step cfg d (.claim ok utc) { d with pump := .locked ((t, claims) :: rest) }
  | orphan {t claim claims rest} (ok utc) : d.pump = .locked ((t, claim :: claims) :: rest) →
      d.reply.store.getTimer t = none →
      Step cfg d (.claim ok utc)
        (({ d with pump := .locked ((t, claims) :: rest) } : Dispatch).afterIf cfg ok
          (.finishRun .timerDeleted claim.runId utc))
  | noLane {t claim claims rest timer} (ok utc) :
      d.pump = .locked ((t, claim :: claims) :: rest) →
      d.reply.store.getTimer t = some timer → timer.overlap.limit = 0 →
      Step cfg d (.claim ok utc) { d with pump := .locked ((t, claims) :: rest) }
  | busy {t claims rest} (ok utc) : d.pump = .locked ((t, claims) :: rest) →
      Step cfg d (.claim ok utc) { d with pump := .locked rest }
  | send {t claim claims rest timer} (ok utc) :
      d.pump = .locked ((t, claim :: claims) :: rest) →
      (d.lanes.laneOf t).reserves claim.runId = false →
      d.reply.store.getTimer t = some timer →
      (d.lanes.laneOf t).inLane < timer.overlap.limit →
      Step cfg d (.claim ok utc)
        { d with
          pump := .locked ((t, claims) :: rest)
          queue := d.queue ++ [claim.runId]
          lanes := d.lanes.enqueue t claim.runId }
  | full {todo} (ok utc) :
      d.pump = .locked todo → Step cfg d (.claim ok utc) { d with pump := .idle }
  | unlock {todo} : d.pump = .locked todo → Step cfg d .unlock { d with pump := .idle }
  | recv {run queue} : d.queue = run :: queue →
      Step cfg d .recv { d with queue, jobs := d.jobs ++ [.hinted run] }
  | load {claim} (i ok) : d.jobs[i]? = some (.hinted claim.runId) →
      d.reply.store.getRun claim.runId = some claim → claim.status = .pending →
      Step cfg d (.load i ok) (d.become i (.loaded claim))
  | loadStale {run} (i ok) : d.jobs[i]? = some (.hinted run) →
      Step cfg d (.load i ok) (d.become i (.stale run))
  | won {claim row} (i) : d.jobs[i]? = some (.loaded claim) →
      d.reply.store.getRun claim.runId = some row → row.status = .pending →
      Step cfg d (.activate i true)
        ((d.after cfg (.activateRun claim.runId)).become i (.won claim))
  | lost {claim} (i) : d.jobs[i]? = some (.loaded claim) →
      (∀ row, d.reply.store.getRun claim.runId = some row → row.status ≠ .pending) →
      Step cfg d (.activate i true)
        ((d.after cfg (.activateRun claim.runId)).become i (.stale claim.runId))
  | activateError {claim} (i) : d.jobs[i]? = some (.loaded claim) →
      Step cfg d (.activate i false) (d.become i (.stale claim.runId))
  | release {run} (i) : d.jobs[i]? = some (.stale run) → d.lanesFree = true →
      Step cfg d (.release i) { d.retire i with lanes := d.lanes.releaseQueued run }
  | enter {claim} (i) : d.jobs[i]? = some (.won claim) → d.lanesFree = true →
      Step cfg d (.enter i)
        { d.become i (.entered claim) with lanes := d.lanes.enter claim.timerId claim.runId }
  | execute {claim timer} (i committed utc) : d.jobs[i]? = some (.entered claim) →
      d.reply.store.getTimer claim.timerId = some timer →
      Step cfg d (.loadTimer i true committed utc) (d.become i (.executing claim timer))
  | deleted {claim} (i committed utc) : d.jobs[i]? = some (.entered claim) →
      d.reply.store.getTimer claim.timerId = none →
      Step cfg d (.loadTimer i true committed utc)
        ((d.afterIf cfg committed
          (.finishClaim claim (toString claim.timerId.n) .timerDeleted utc)).become i
          (.leaving claim))
  | reloadError {claim} (i committed utc) : d.jobs[i]? = some (.entered claim) →
      Step cfg d (.loadTimer i false committed utc)
        ((d.afterIf cfg committed (.rependRun claim.runId)).become i (.leaving claim))
  | finish {claim timer} (i e ok utc) : d.jobs[i]? = some (.executing claim timer) →
      Step cfg d (.finish i e ok utc)
        ((d.afterIf cfg ok (.finishClaim claim timer.name e utc)).become i (.leaving claim))
  | panic {claim timer} (i ok) : d.jobs[i]? = some (.executing claim timer) →
      Step cfg d (.panic i ok)
        ((d.afterIf cfg ok (.rependRun claim.runId)).become i (.leaving claim))
  | leave {claim} (i) : d.jobs[i]? = some (.leaving claim) → d.lanesFree = true →
      Step cfg d (.leave i)
        { d.retire i with lanes := d.lanes.finishLane claim.timerId claim.runId }

variable {cfg : DispatchConfig} {d d' : Dispatch}

theorem step_of_pumpClaim {ok : Bool} {utc : Int} (h : d.pumpClaim cfg ok utc = some d') :
    Step cfg d (.claim ok utc) d' := by
  unfold Dispatch.pumpClaim at h
  split at h
  · next t rest hpump =>
    obtain rfl := Option.some.inj h
    exact .emptied ok utc hpump
  · next t claim claims rest hpump =>
    dsimp only at h
    split at h
    · next hres =>
      obtain rfl := Option.some.inj h
      exact .reserved ok utc hpump hres
    · next hfree =>
      split at h
      · next hnone =>
        obtain rfl := Option.some.inj h
        exact .orphan ok utc hpump hnone
      · next timer hsome =>
        split at h
        · next hzero =>
          obtain rfl := Option.some.inj h
          exact .noLane ok utc hpump hsome hzero
        · split at h
          · obtain rfl := Option.some.inj h
            exact .busy ok utc hpump
          · next hlt =>
            split at h
            · obtain rfl := Option.some.inj h
              exact .send ok utc hpump (by simpa using hfree) hsome (Nat.lt_of_not_le hlt)
            · obtain rfl := Option.some.inj h
              exact .full ok utc hpump
  · cases h

/-- A step takes one of the branches. -/
theorem step_of_next {a : Act} (h : d.next cfg a = some d') : Step cfg d a d' := by
  cases a with
  | commit c =>
    have h : d.commit cfg c = some d' := h
    cases c with
    | activateRun run => cases h
    | rependRun run => cases h
    | rependAllActive => cases h
    | _ =>
      obtain rfl := Option.some.inj h
      exact .commit _ (fun run => ⟨nofun, nofun⟩) nofun
  | die =>
    obtain rfl := Option.some.inj h
    exact .die
  | startup =>
    obtain rfl := Option.some.inj h
    exact .startup
  | scan order =>
    have h : d.scan order = some d' := h
    unfold Dispatch.scan at h
    dsimp only at h
    split at h
    · next hidle =>
      obtain rfl := Option.some.inj h
      exact .scan order hidle.1
    · cases h
  | lock =>
    have h : d.lock = some d' := h
    unfold Dispatch.lock at h
    split at h
    · next hpump =>
      obtain rfl := Option.some.inj h
      exact .lock hpump
    · cases h
  | timerError =>
    have h : d.timerError = some d' := h
    unfold Dispatch.timerError at h
    split at h
    · next hpump =>
      split at h
      · cases h
      · obtain rfl := Option.some.inj h
        exact .timerError hpump
    · cases h
  | claim ok utc => exact step_of_pumpClaim h
  | unlock =>
    have h : d.unlock = some d' := h
    unfold Dispatch.unlock at h
    split at h
    · next hpump =>
      obtain rfl := Option.some.inj h
      exact .unlock hpump
    · cases h
  | recv =>
    have h : d.recv cfg = some d' := h
    unfold Dispatch.recv at h
    split at h
    · next hqueue =>
      split at h
      · obtain rfl := Option.some.inj h
        exact .recv hqueue
      · cases h
    · cases h
  | load i ok =>
    have h : d.load i ok = some d' := h
    unfold Dispatch.load at h
    split at h
    · next run hjob =>
      split at h
      · next claim hread =>
        obtain rfl := Option.some.inj h
        have hget : d.reply.store.getRun run = some claim := by
          revert hread
          cases ok
          · exact fun h => by cases h
          · exact id
        obtain ⟨_, rfl⟩ := Store.getRun_mem hget
        split
        · next hpending => exact .load i ok hjob hget hpending
        · exact .loadStale i ok hjob
      · obtain rfl := Option.some.inj h
        exact .loadStale i ok hjob
    · cases h
  | activate i ok =>
    have h : d.activate cfg i ok = some d' := h
    unfold Dispatch.activate at h
    split at h
    · next claim hjob =>
      cases ok with
      | false =>
        obtain rfl := Option.some.inj h
        exact .activateError i hjob
      | true =>
        obtain rfl := Option.some.inj h
        split
        · next hwon =>
          obtain ⟨row, hrow, hst⟩ := (Option.any_eq_true _ _).mp hwon
          exact .won i hjob hrow (by simpa using hst)
        · next hlost =>
          refine .lost i hjob fun row hrow hst => hlost ?_
          rw [hrow, Option.any_some, hst]
          rfl
    · cases h
  | release i =>
    have h : d.release i = some d' := h
    unfold Dispatch.release at h
    split at h
    · next hjob =>
      split at h
      · next hfree =>
        obtain rfl := Option.some.inj h
        exact .release i hjob hfree
      · cases h
    · cases h
  | enter i =>
    have h : d.enter i = some d' := h
    unfold Dispatch.enter at h
    split at h
    · next hjob =>
      split at h
      · next hfree =>
        obtain rfl := Option.some.inj h
        exact .enter i hjob hfree
      · cases h
    · cases h
  | loadTimer i ok committed utc =>
    have h : d.loadTimer cfg i ok committed utc = some d' := h
    unfold Dispatch.loadTimer at h
    split at h
    · next hjob =>
      cases ok with
      | false =>
        obtain rfl := Option.some.inj h
        exact .reloadError i committed utc hjob
      | true =>
        rw [if_pos rfl] at h
        split at h
        · next htimer =>
          obtain rfl := Option.some.inj h
          exact .execute i committed utc hjob htimer
        · next hnone =>
          obtain rfl := Option.some.inj h
          exact .deleted i committed utc hjob hnone
    · cases h
  | finish i e ok utc =>
    have h : d.finish cfg i e ok utc = some d' := h
    unfold Dispatch.finish at h
    split at h
    · next hjob =>
      obtain rfl := Option.some.inj h
      exact .finish i e ok utc hjob
    · cases h
  | panic i ok =>
    have h : d.panicked cfg i ok = some d' := h
    unfold Dispatch.panicked at h
    split at h
    · next hjob =>
      obtain rfl := Option.some.inj h
      exact .panic i ok hjob
    · cases h
  | leave i =>
    have h : d.leave i = some d' := h
    unfold Dispatch.leave at h
    split at h
    · next hjob =>
      split at h
      · next hfree =>
        obtain rfl := Option.some.inj h
        exact .leave i hjob hfree
      · cases h
    · cases h

end Steps

/-! ### Sample runs -/

section Sample

variable [Calendar]

def DispatchConfig.sample : DispatchConfig where
  fire := .sample
  maxConcurrentActions := 2

/-- Where the steps lead from an empty database; those that are not enabled
are passed over. -/
def Dispatch.sampleRun (as : List Act) : Dispatch :=
  as.foldl (fun d a => (d.next .sample a).getD d) {}

theorem init_empty : (dispatcher .sample).init {} := ⟨{}, Store.wf_empty, rfl⟩

theorem run_dispatch (as : List Act) :
    (dispatcher .sample).Run {} (System.traceEnabled (fun d a => d.next .sample a) {} as)
      (Dispatch.sampleRun as) :=
  System.run_traceEnabled (fun _ _ _ h => h) _ as

end Sample

end Bellman
