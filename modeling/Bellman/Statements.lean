/-
Bellman/Statements.lean

What holds of a transaction because it holds of its statements.

A program on the store is built of a few statements: an event is enqueued,
an id is drawn, and rows of the run ledger, of the lifecycle table or of the
timer table are written.  A relation between the store before and the store
after that each of these statements keeps (`Statements`) is kept by every
program built of them, and so by every commit that is.

The commits that write other tables (owners, ack cursors, delivery records,
the outbox beyond its end) are not `plain`; of a fire it is enough to know
the one more statement it has.

Main results: a plain commit, and a fire, keep what their statements keep
(`Statements.commit`, `Statements.fireTx_within`).
-/
import Bellman.Commit

namespace Bellman

open ProgramLogic Prog ReplyM

/-- The relation is kept by every statement on events and runs. -/
structure RunStatements (R : Store → Store → Prop) : Prop where
  emit : ∀ kind loggedAt subject note, Within R (emit kind loggedAt subject note)
  uuid : ∀ s : Store, R s { s with nextUuid := s.nextUuid + 1 }
  runs : ∀ (s : Store) runs, R s { s with runs }
  states : ∀ (s : Store) runStates, R s { s with runStates }

/-- The relation is kept by every statement of a plain program. -/
structure Statements (R : Store → Store → Prop) : Prop extends RunStatements R where
  timers : ∀ (s : Store) timers, R s { s with timers }

/-- The commits whose programs are built of plain statements alone. -/
def Commit.isPlain : Commit → Bool
  | deleteTimerLifecycle .. | slotDelete .. | setTimerOwner .. | clearTimerOwner .. |
    ackRunEvents .. | fire .. | markEventPublished .. => false
  | _ => true

/-- The relation, seen from the reply engine. -/
def Seen (R : Store → Store → Prop) (r r' : ReplyState) : Prop := R r.store r'.store

section

set_option linter.unusedSectionVars false

variable {R : Store → Store → Prop} [Std.Refl R] [IsTrans Store R] {α β : Type}

instance : Std.Refl (Seen R) := ⟨fun r => Std.Refl.refl (r := R) r.store⟩

instance : IsTrans ReplyState (Seen R) :=
  ⟨fun _ _ _ h h' => IsTrans.trans (r := R) _ _ _ h h'⟩

theorem onStore_within {m : StoreM α} (h : Within R m) : Within (Seen R) (onStore m) := by
  intro r
  rw [wp_onStore]
  exact h r.store

theorem inTx_within {m : ReplyM α} (h : Within (Seen R) m) : Within (Seen R) (inTx m) :=
  within_transact h fun r _ _ => Std.Refl.refl (r := R) r.store

theorem onBook_within (f : DeadlineBook → DeadlineBook) : Within (Seen R) (onBook f) :=
  within_modify fun r => Std.Refl.refl (r := R) r.store

theorem read_within (f : Store → α) : Within (Seen R) (read f) :=
  fun r => Std.Refl.refl (r := R) r.store

theorem discard_within {m : ReplyM α} (h : Within (Seen R) m) :
    Within (Seen R) (do let _ ← m : ReplyM Unit) :=
  within_bind h fun _ => within_pure _

theorem discard_store_within {m : StoreM α} (h : Within R m) :
    Within (Seen R) (do let _ ← onStore m : ReplyM Unit) :=
  discard_within (onStore_within h)

theorem modifyGet_within {f : Store → α × Store} (h : ∀ s, R s (f s).2) :
    Within R (modifyGet f : StoreM α) :=
  within_modifyGet h

theorem orPanic_within (x : Except Panic α) : Within R (orPanic x) := by
  cases x with
  | ok a => exact within_pure a
  | error p => exact within_throw _

theorem armWatchdog_within (cfg : ReplyConfig) (runId : Uuid) (expectedSecs : Nat)
    (nowWall monoNow : Int) :
    Within (Seen R) (armWatchdog cfg runId expectedSecs nowWall monoNow) :=
  within_bind (onStore_within (orPanic_within _)) fun _ =>
    within_bind (onStore_within (orPanic_within _)) fun _ => within_bind (onBook_within _) fun _ =>
      within_bind (onStore_within (orPanic_within _)) fun _ =>
        within_bind (onBook_within _) fun _ => within_pure _

theorem rearm_within (cfg : ReplyConfig) (row : RunStateRow) (newState : RunState)
    (nowWall monoNow : Int) : Within (Seen R) (rearm cfg row newState nowWall monoNow) :=
  within_bind (onBook_within _) fun _ =>
    within_ite (fun _ => within_bind (onBook_within _) fun _ => within_pure _) fun _ =>
      within_ite (fun _ => within_bind (armWatchdog_within _ _ _ _ _) fun _ => within_pure _)
        fun _ => within_bind (onBook_within _) fun _ => within_pure _

theorem durationMs_within (runId : Uuid) (firedAt nowWall monoNow : Int) :
    Within (Seen R) (durationMs runId firedAt nowWall monoNow) := by
  refine within_modifyGet fun r => ?_
  split <;> exact Std.Refl.refl (r := R) r.store

theorem registerFire_within (cfg : ReplyConfig) (runId : Uuid) (nowWall monoNow : Int) :
    Within (Seen R) (registerFire cfg runId nowWall monoNow) :=
  within_bind (within_modify fun r => Std.Refl.refl (r := R) r.store) fun _ =>
    within_bind (onStore_within (orPanic_within _)) fun _ =>
      within_bind (onStore_within (orPanic_within _)) fun _ =>
        within_bind (onBook_within _) fun _ => onBook_within _

namespace RunStatements

variable (hR : RunStatements R)

include hR

theorem updateRunStateConn_within (row : RunStateRow) :
    Within R (updateRunStateConn row) :=
  within_modify fun s => hR.states s _

theorem finishRunConn_within (runId : Uuid) (outcome : RunOutcome) (reason : Option String)
    (now : Int) : Within R (finishRunConn runId outcome reason now) :=
  within_bind (within_modifyGet fun s => hR.runs s _) fun _ => within_pure _

theorem finishLogged_within (timer : Timer) (claim : RunClaim) (outcome : RunOutcome)
    (reason : String) (utc : Int) :
    Within R (finishLogged timer claim outcome reason utc) :=
  within_bind (hR.finishRunConn_within _ _ _ _) fun _ =>
    within_ite (fun _ => hR.emit _ _ _ _) fun _ => within_pure _

theorem applyOverlapDisposition_within (timer : Timer) (claim : RunClaim) (utc : Int) :
    Within R (applyOverlapDisposition timer claim utc) := by
  have hreplace : ∀ ps, Within R (replacePending timer utc ps) := by
    intro ps
    induction ps with
    | nil => exact within_pure _
    | cons p ps ih => exact within_bind (hR.finishLogged_within _ _ _ _ _) fun _ => ih
  refine within_ite (fun _ => ?_) fun _ => ?_
  · refine within_bind within_get fun s => within_bind (hreplace _) fun _ => ?_
    refine within_bind ?_ fun _ => within_pure _
    exact within_bind within_get fun s =>
      within_bind (within_modifyGet fun s => hR.runs s _) fun _ => within_pure _
  · refine within_bind within_get fun s => ?_
    split
    · exact within_pure _
    · refine within_bind (hR.finishRunConn_within _ _ _ _) fun _ => ?_
      refine within_bind (hR.emit _ _ _ _) fun _ => ?_
      exact within_bind within_get fun _ => within_pure _

theorem closeOpenRun_within (verdict : RunState) (message : String) (timer : Timer)
    (owner : Option String) (prev : Option RunClaim) (utc : Int) :
    Within R (closeOpenRun verdict message timer owner prev utc) := by
  unfold closeOpenRun
  split
  · exact within_pure _
  · refine within_bind within_get fun s => within_ite (fun _ => ?_) fun _ => within_pure _
    refine within_bind (hR.emit _ _ _ _) fun _ => ?_
    split
    · exact within_bind (hR.updateRunStateConn_within _) fun _ => within_pure _
    · exact within_pure _

theorem cancelOpenRun_within (timer : Timer) (owner : Option String) (utc : Int) :
    Within R (cancelOpenRun timer owner utc) :=
  within_bind within_get fun _ => hR.closeOpenRun_within _ _ _ _ _ _

theorem claimRunConn_within (timerId : Uuid) (scheduledFor now : Int) :
    Within R (claimRunConn timerId scheduledFor now) := by
  intro s
  unfold claimRunConn newUuid Bellman.fail
  rw [wp_bind, wp_modifyGet, wp_bind, wp_get]
  have hdraw : R s { s with nextUuid := s.nextUuid + 1 } := hR.uuid s
  split
  · exact hdraw
  · exact IsTrans.trans (r := R) _ _ _ hdraw (hR.runs _ _)

theorem apply_within (cfg : ReplyConfig) (timer : Timer) (claim : RunClaim) (row : RunStateRow)
    (doc : ReplyDocument) (newState : RunState) (digest : String) (nowWall monoNow utc : Int) :
    Within (Seen R) (apply cfg timer claim row doc newState digest nowWall monoNow utc) := by
  refine within_bind (rearm_within _ _ _ _ _) fun _ => within_bind (onStore_within ?_) fun _ =>
    within_bind (onStore_within ?_) fun _ => within_bind ?_ fun _ =>
      onStore_within (hR.updateRunStateConn_within _)
  · exact within_ite (fun _ => within_bind (hR.emit _ _ _ _) fun _ => within_pure _)
      fun _ => within_pure _
  · exact within_ite (fun _ => within_bind (hR.emit _ _ _ _) fun _ => within_pure _)
      fun _ => within_pure _
  · exact within_ite (fun _ => within_bind (durationMs_within _ _ _ _) fun _ =>
      onStore_within (hR.emit _ _ _ _)) fun _ => within_pure _

theorem ingestStale_within (timer : Timer) (claim : RunClaim) (digest : String) (utc : Int) :
    Within R (ingestStale timer claim digest utc) := by
  refine within_bind within_get fun s => within_ite (fun _ => within_pure _) fun _ =>
    within_bind (hR.emit _ _ _ _) fun _ => ?_
  split
  · exact within_bind (hR.updateRunStateConn_within _) fun _ => within_pure _
  · exact within_pure _

theorem ingestInner_within (cfg : ReplyConfig) (timer : Timer) (doc : ReplyDocument)
    (digest : String) (nowWall monoNow utc : Int) (current : Option Uuid) :
    Within (Seen R) (ingestInner cfg timer doc digest nowWall monoNow utc current) := by
  unfold ingestInner
  split
  · exact within_pure _
  · refine within_bind (read_within _) fun claim => ?_
    split
    · exact within_pure _
    · refine within_ite (fun _ => within_pure _) fun _ => within_bind (read_within _) fun _ =>
        within_ite (fun _ => onStore_within (hR.ingestStale_within _ _ _ _)) fun _ =>
          within_bind (read_within _) fun _ => ?_
      split
      · exact within_pure _
      · exact within_ite (fun _ => within_pure _) fun _ =>
          within_bind (hR.apply_within _ _ _ _ _ _ _ _ _ _) fun _ => within_pure _

theorem markAcknowledged_within (timer : Timer) (claim : RunClaim) (row : RunStateRow)
    (nowWall : Int) : Within (Seen R) (markAcknowledged timer claim row nowWall) :=
  within_bind (onBook_within _) fun _ =>
    within_ite (fun _ => within_bind (onStore_within (hR.emit _ _ _ _)) fun _ =>
      onStore_within (hR.updateRunStateConn_within _)) fun _ =>
    onStore_within (hR.updateRunStateConn_within _)

theorem onAckThrough_within (timer : Timer) (throughSequence : Nat) (nowWall : Int) :
    Within (Seen R) (onAckThrough timer throughSequence nowWall) := by
  refine within_bind (read_within _) fun row => ?_
  split
  · exact within_pure _
  · refine within_bind (read_within _) fun claim => ?_
    split
    · exact within_pure _
    · exact within_ite (fun _ => within_pure _) fun _ =>
        within_ite (fun _ => within_bind (inTx_within (hR.markAcknowledged_within _ _ _ _)) fun _ =>
          within_pure _) fun _ => within_pure _

theorem expirePickupOne_within (timer : Timer) (runId : Uuid) (nowWall : Int) :
    Within (Seen R) (expirePickupOne timer runId nowWall) := by
  refine inTx_within (within_bind (read_within _) fun row => ?_)
  split
  · exact within_pure _
  · refine within_ite (fun _ => within_pure _) fun _ => within_bind (read_within _) fun _ =>
      within_ite (fun _ => within_pure _) fun _ => within_bind (read_within _) fun claim => ?_
    split
    · exact within_pure _
    · refine within_ite (fun _ => within_pure _) fun _ => within_bind (read_within _) fun _ =>
        within_ite (fun _ => within_bind (hR.markAcknowledged_within _ _ _ _) fun _ =>
          within_pure _) fun _ => within_bind (onBook_within _) fun _ => ?_
      exact within_bind (onStore_within (hR.emit _ _ _ _)) fun _ =>
        within_bind (onStore_within (hR.updateRunStateConn_within _)) fun _ => within_pure _

theorem expireWatchdogOne_within (timer : Timer) (runId : Uuid) (nowWall monoNow : Int) :
    Within (Seen R) (expireWatchdogOne timer runId nowWall monoNow) := by
  refine inTx_within (within_bind (read_within _) fun row => ?_)
  split
  · exact within_pure _
  · refine within_ite (fun _ => within_pure _) fun _ => within_ite (fun _ => within_pure _) fun _ =>
      within_bind (read_within _) fun _ => within_ite (fun _ => within_pure _) fun _ =>
        within_bind (read_within _) fun claim => ?_
    split
    · exact within_pure _
    · refine within_bind (onBook_within _) fun _ =>
        within_bind (durationMs_within _ _ _ _) fun _ => ?_
      exact within_bind (onStore_within (hR.emit _ _ _ _)) fun _ =>
        within_bind (onStore_within (hR.updateRunStateConn_within _)) fun _ => within_pure _

theorem barrierIngest_within (cfg : FireConfig) (f : Firing) :
    Within (Seen R) (barrierIngest cfg f) := by
  unfold barrierIngest
  split
  · refine within_bind (hR.ingestInner_within _ _ _ _ _ _ _ _) fun out => ?_
    split
    · exact onStore_within (hR.emit _ _ _ _)
    · exact within_pure _
  · exact within_pure _

/-! ### Commits -/

/-- A fire has one statement more: the delivery record. -/
theorem fireTx_within (hproj : ∀ proj, Within R (insertTransportProjectionConn proj))
    (cfg : FireConfig) (f : Firing) : Within (Seen R) (fireTx cfg f) := by
  have hopen : ∀ claim, Within R (openLifecycle cfg f claim) := by
    intro claim
    unfold openLifecycle
    split
    · exact within_pure _
    · refine within_bind (orPanic_within _) fun _ => within_bind (fun s => ?_) fun _ =>
        within_bind within_get fun _ => ?_
      · unfold insertRunStateConn Bellman.fail
        rw [wp_bind, wp_get]
        split
        · exact Std.Refl.refl s
        · exact hR.states s _
      · dsimp only
        split
        · exact within_throw _
        · exact hproj _
  refine inTx_within (within_bind (hR.barrierIngest_within cfg f) fun _ => ?_)
  refine within_bind (onStore_within (hR.closeOpenRun_within _ _ _ _ _ _)) fun _ => ?_
  refine within_bind (onStore_within (hR.claimRunConn_within _ _ _)) fun claim => ?_
  refine within_bind (onStore_within (hR.emit _ _ _ _)) fun _ => ?_
  refine within_bind (onStore_within (hR.applyOverlapDisposition_within _ _ _)) fun claim => ?_
  exact within_bind (onStore_within (hopen claim)) fun _ => within_pure _

end RunStatements

namespace Statements

variable (hR : Statements R) [Calendar]

include hR

theorem createTimerTx_within (new : NewTimer) (now : Int) :
    Within R (createTimerTx new now) := by
  unfold createTimerTx
  split
  · exact within_throw _
  · refine within_bind ?_ fun id => within_bind (orPanic_within _) fun p => fun s => ?_
    · cases new.id with
      | some id => exact within_pure id
      | none => exact within_modifyGet fun s => hR.uuid s
    · rw [wp_bind, wp_get]
      split
      · exact Std.Refl.refl s
      · exact hR.timers s _

theorem updateTimerTx_within (update : TimerUpdate) (now : Int) :
    Within R (updateTimerTx update now) := by
  intro s
  unfold updateTimerTx
  rw [wp_bind, wp_get]
  split
  · exact Std.Refl.refl s
  · split
    · exact Std.Refl.refl s
    · split
      · exact Std.Refl.refl s
      · rw [wp_bind, wp_orPanic]
        exact ⟨fun _ _ => hR.timers s _, fun _ _ => Std.Refl.refl s⟩

end Statements

/-- The commits that write the table of timers. -/
def Commit.isOfTimers : Commit → Bool
  | createTimer .. | updateTimer .. | deleteTimer .. => true
  | _ => false

variable [Calendar]

/-- A plain commit that does not write the table of timers. -/
theorem RunStatements.commit (hR : RunStatements R) {c : Commit} (hc : c.isPlain = true)
    (ht : c.isOfTimers = false) (cfg : FireConfig) : Within (Seen R) (c.prog cfg) := by
  cases c with
  | claimRun timerId scheduledFor now =>
    exact discard_store_within (hR.claimRunConn_within _ _ _)
  | activateRun runId =>
    exact discard_store_within (within_bind (within_modifyGet fun s => hR.runs s _) fun _ =>
      within_pure _)
  | rependRun runId => exact onStore_within fun s => hR.runs s _
  | rependAllActive => exact discard_store_within (within_modifyGet fun s => hR.runs s _)
  | finishClaim claim timerName e utc =>
    exact onStore_within (within_atomically (within_bind (hR.finishRunConn_within _ _ _ _)
      fun _ => within_ite (fun _ => hR.emit _ _ _ _) fun _ => within_pure _))
  | finishRun how runId utc =>
    refine discard_store_within (within_bind (hR.finishRunConn_within _ _ _ _) fun _ => ?_)
    refine within_ite (fun _ => within_bind within_get fun s => ?_) fun _ => within_throw _
    split
    · exact within_pure _
    · exact within_throw _
  | ingest timer doc digest nowWall monoNow utc =>
    exact discard_within (inTx_within (hR.ingestInner_within _ _ _ _ _ _ _ _))
  | ackThrough timer throughSequence nowWall =>
    exact discard_within (hR.onAckThrough_within _ _ _)
  | expirePickup timer runId nowWall => exact discard_within (hR.expirePickupOne_within _ _ _)
  | expireWatchdog timer runId nowWall monoNow =>
    exact discard_within (hR.expireWatchdogOne_within _ _ _ _)
  | registerFire runId nowWall monoNow => exact registerFire_within _ _ _ _
  | setRunTransport runId transport => exact onStore_within (within_modify fun s => hR.states s _)
  | logRejection timer runId reason utc => exact onStore_within (hR.emit _ _ _ _)
  | logNote kind loggedAt timer scheduledFor note => exact onStore_within (hR.emit _ _ _ _)
  | crash => exact within_modify fun r => Std.Refl.refl (r := R) r.store
  | createTimer new now | updateTimer update now | deleteTimer id => cases ht
  | _ => cases hc

/-- **A plain commit** keeps what its statements keep. -/
theorem Statements.commit (hR : Statements R) {c : Commit} (hc : c.isPlain = true)
    (cfg : FireConfig) : Within (Seen R) (c.prog cfg) := by
  cases ht : c.isOfTimers with
  | false => exact hR.toRunStatements.commit hc ht cfg
  | true =>
    cases c with
    | createTimer new now => exact discard_store_within (hR.createTimerTx_within new now)
    | updateTimer update now => exact discard_store_within (hR.updateTimerTx_within update now)
    | deleteTimer id => exact discard_store_within (within_modifyGet fun s => hR.timers s _)
    | _ => cases ht

end

end Bellman
