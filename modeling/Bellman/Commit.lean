/-
Bellman/Commit.lean

The system as the store sees it: a sequence of commits.

Every process — the scheduler loop, the dispatcher's pump and workers, the
reply engine, the command line, the pruner — reaches the store through
single transactions.  `Commit` has one constructor for each of them, with
the values it was called with, and `ledger cfg` is the transition system in
which any commit may follow any other.  A crash falls between two commits
and loses the memory of the reply engine.

Main results: what a commit does to the rows of the run ledger
(`Commit.effect`), the constraints of the schema in every state reached
(`wf_of_run`), and what it puts in the outbox (`Commit.audited`).
-/
import Bellman.Lib.System
import Bellman.Overlap

namespace Bellman

open ProgramLogic Prog ReplyM

/-! ### Commits -/

/-- Where a claim is finished by `finish_run` alone: the pump finds its
timer deleted, recovery does, or an inline action has run. -/
inductive BareClose where
  | timerDeleted
  | orphan
  | inlineDelivered
  | inlineFailed
  deriving Repr, DecidableEq

namespace BareClose

def outcome : BareClose → RunOutcome
  | inlineDelivered => .wakeDelivered
  | timerDeleted | orphan | inlineFailed => .wakeFailed

def reason : BareClose → Option String
  | timerDeleted => some "timer_deleted"
  | orphan | inlineDelivered | inlineFailed => none

end BareClose

/-- One transaction on the store. -/
inductive Commit where
  | createTimer (new : NewTimer) (now : Int)
  | updateTimer (update : TimerUpdate) (now : Int)
  | deleteTimer (id : Uuid)
  | deleteTimerLifecycle (timer : Timer) (owner : Option String) (utc : Int)
  | slotDelete (timerId : Uuid) (appName : String) (utc : Int)
  | setTimerOwner (timerId : Uuid) (appName : String)
  | clearTimerOwner (timerId : Uuid)
  | ackRunEvents (timerId : Uuid) (throughSequence : Nat)
  | claimRun (timerId : Uuid) (scheduledFor now : Int)
  | fire (f : Firing)
  | activateRun (runId : Uuid)
  | rependRun (runId : Uuid)
  | rependAllActive
  | finishClaim (claim : RunClaim) (timerName : String) (e : JobEnd) (utc : Int)
  | finishRun (how : BareClose) (runId : Uuid) (utc : Int)
  | ingest (timer : Timer) (doc : ReplyDocument) (digest : String) (nowWall monoNow utc : Int)
  | ackThrough (timer : Timer) (throughSequence : Nat) (nowWall : Int)
  | expirePickup (timer : Timer) (runId : Uuid) (nowWall : Int)
  | expireWatchdog (timer : Timer) (runId : Uuid) (nowWall monoNow : Int)
  | registerFire (runId : Uuid) (nowWall monoNow : Int)
  | setRunTransport (runId : Uuid) (transport : String)
  | logRejection (timer : Timer) (runId : Option Uuid) (reason : String) (utc : Int)
  | logNote (kind : RunState) (loggedAt : Int) (timer : Option (Uuid × String))
      (scheduledFor : Option Int) (note : EventNote)
  | markEventPublished (eventId : Uuid)
  | crash

namespace Commit

variable [Calendar]

/-- The program a commit runs.  `logNote` writes the events that name no
run: a dropped backlog, a pruned timer, the yearly recalibration. -/
def prog (cfg : FireConfig) : Commit → ReplyM Unit
  | createTimer new now => do let _ ← onStore (createTimerTx new now)
  | updateTimer update now => do let _ ← onStore (updateTimerTx update now)
  | deleteTimer id => do let _ ← onStore (Bellman.deleteTimer id)
  | deleteTimerLifecycle timer owner utc => do
    let _ ← onStore (Bellman.deleteTimerLifecycle timer owner utc)
  | slotDelete timerId appName utc => do
    let _ ← onStore (Bellman.slotDelete timerId appName utc)
  | setTimerOwner timerId appName => onStore (Bellman.setTimerOwner timerId appName)
  | clearTimerOwner timerId => onStore (Bellman.clearTimerOwner timerId)
  | ackRunEvents timerId throughSequence => do
    let _ ← onStore (ackRunEventsTx timerId throughSequence)
  | claimRun timerId scheduledFor now => do
    let _ ← onStore (claimRunConn timerId scheduledFor now)
  | fire f => do let _ ← fireTx cfg f
  | activateRun runId => do let _ ← onStore (Bellman.activateRun runId)
  | rependRun runId => onStore (Bellman.rependRun runId)
  | rependAllActive => do let _ ← onStore Bellman.rependAllActive
  | finishClaim claim timerName e utc => onStore (Bellman.finishClaim claim timerName e utc)
  | finishRun how runId utc => do
    let _ ← onStore (Bellman.finishRun runId how.outcome how.reason utc)
  | ingest timer doc digest nowWall monoNow utc => do
    let _ ← Bellman.ingest cfg.reply timer doc digest nowWall monoNow utc
  | ackThrough timer throughSequence nowWall => do
    let _ ← onAckThrough timer throughSequence nowWall
  | expirePickup timer runId nowWall => do let _ ← expirePickupOne timer runId nowWall
  | expireWatchdog timer runId nowWall monoNow => do
    let _ ← expireWatchdogOne timer runId nowWall monoNow
  | registerFire runId nowWall monoNow =>
    Bellman.registerFire cfg.reply runId nowWall monoNow
  | setRunTransport runId transport => onStore (Bellman.setRunTransport runId transport)
  | logRejection timer runId reason utc =>
    onStore (Bellman.logRejection timer runId reason utc)
  | logNote kind loggedAt timer scheduledFor note =>
    onStore (emit kind loggedAt
      { timerId := timer.map (·.1), timerName := timer.map (·.2), scheduledFor } note)
  | markEventPublished eventId => onStore (Bellman.markEventPublished eventId)
  | crash => modify fun r => { store := r.store }

end Commit

/-- The commits of all processes, in any order. -/
def ledger [Calendar] (cfg : FireConfig) : System ReplyState Commit where
  init r := r = {}
  step r c r' := r' = ((c.prog cfg).run r).2

/-! ### The effect on the rows -/

/-- What a commit that claims nothing does to each row. -/
def Commit.row : Commit → RunClaim → RunClaim
  | activateRun runId, r =>
    if r.runId == runId && r.status == .pending then { r with status := .active } else r
  | rependRun runId, r =>
    if r.runId == runId && r.status == .active then { r with status := .pending } else r
  | rependAllActive, r => if r.status == .active then { r with status := .pending } else r
  | finishClaim claim _ e utc, r => finishRow claim.runId e.outcome (some e.reason) utc r
  | finishRun how runId utc, r => finishRow runId how.outcome how.reason utc r
  | _, r => r

/-- What a commit does to the rows: a claim may go in, with or without the
rest of a fire; otherwise each row changes by itself. -/
def Commit.Effect (c : Commit) (s s' : Store) : Prop :=
  match c with
  | .claimRun timerId scheduledFor now =>
    s'.runs = s.runs ∨ (s.getClaimFor timerId scheduledFor = none ∧
      s'.runs = s.runs ++ [s.newClaim ⟨s.nextUuid⟩ timerId scheduledFor now])
  | .fire f => s'.runs = s.runs ∨ ∃ claim, Fired f claim s s'
  | c => s'.runs = s.runs.map c.row

theorem key_row (c : Commit) (r : RunClaim) : (c.row r).key = r.key := by
  cases c with
  | activateRun runId =>
    exact key_ite (f := fun r => { r with status := .active })
      (p := fun r => r.runId == runId && r.status == .pending) (fun _ => rfl) r
  | rependRun runId =>
    exact key_ite (f := fun r => { r with status := .pending })
      (p := fun r => r.runId == runId && r.status == .active) (fun _ => rfl) r
  | rependAllActive =>
    exact key_ite (f := fun r => { r with status := .pending })
      (p := fun r => r.status == .active) (fun _ => rfl) r
  | finishClaim claim _ e utc => exact key_finishRow claim.runId _ _ utc r
  | finishRun how runId utc => exact key_finishRow runId _ _ utc r
  | _ => rfl

/-- The ways a row changes under a commit that claims nothing. -/
inductive RowStep (c : Commit) (r : RunClaim) : RunClaim → Prop
  | stay : RowStep c r r
  | activate : c = .activateRun r.runId → r.status = .pending →
      RowStep c r { r with status := .active }
  | repend : c = .rependRun r.runId ∨ c = .rependAllActive → r.status = .active →
      RowStep c r { r with status := .pending }
  | finish (outcome : RunOutcome) (reason : Option String) (now : Int) :
      r.isUnfinished = true → RowStep c r (r.finish outcome reason now)

theorem rowStep_finishRow (c : Commit) (run : Uuid) (outcome : RunOutcome)
    (reason : Option String) (now : Int) (r : RunClaim) :
    RowStep c r (finishRow run outcome reason now r) := by
  unfold finishRow
  split
  · next h => exact .finish outcome reason now (Bool.and_eq_true_iff.mp h).2
  · exact .stay

theorem rowStep_row (c : Commit) (r : RunClaim) : RowStep c r (c.row r) := by
  cases c with
  | activateRun runId =>
    show RowStep _ r
      (if r.runId == runId && r.status == .pending then { r with status := .active } else r)
    split
    · next h =>
      obtain ⟨hid, hst⟩ : r.runId = runId ∧ r.status = .pending := by simpa using h
      exact .activate (by rw [hid]) hst
    · exact .stay
  | rependRun runId =>
    show RowStep _ r
      (if r.runId == runId && r.status == .active then { r with status := .pending } else r)
    split
    · next h =>
      obtain ⟨hid, hst⟩ : r.runId = runId ∧ r.status = .active := by simpa using h
      exact .repend (.inl (by rw [hid])) hst
    · exact .stay
  | rependAllActive =>
    show RowStep _ r (if r.status == .active then { r with status := .pending } else r)
    split
    · next h => exact .repend (.inr rfl) (by simpa using h)
    · exact .stay
  | finishClaim claim _ e utc => exact rowStep_finishRow _ claim.runId _ _ utc r
  | finishRun how runId utc => exact rowStep_finishRow _ runId _ _ utc r
  | _ => exact .stay

/-- A row that is executable afterwards was so before. -/
theorem isUnfinished_of_row {c : Commit} {r : RunClaim} (h : (c.row r).isUnfinished = true) :
    r.isUnfinished = true := by
  have hstep := rowStep_row c r
  generalize c.row r = q at hstep h
  cases hstep with
  | stay => exact h
  | activate _ hst => exact RunClaim.isUnfinished_iff.mpr (.inl hst)
  | repend _ hst => exact RunClaim.isUnfinished_iff.mpr (.inr hst)
  | finish _ _ _ hu => exact hu

/-! ### Commits that leave the run ledger alone -/

theorem Logs.runs_of_core {s s' : Store} (h : Logs Store.core s s') : Logs Store.runs s s' :=
  ⟨h.runs_eq, h.wf, h.events⟩

theorem newUuid_logs : Within (Logs Store.runs) newUuid :=
  within_modifyGet fun s => ⟨rfl, fun h => {
    run_lt := fun r hr => Nat.lt_succ_of_lt (h.run_lt r hr)
    event_lt := fun e he => Nat.lt_succ_of_lt (h.event_lt e he)
    run_nodup := h.run_nodup
    slot_ne := h.slot_ne
    seq_lt := h.seq_lt
    outcome_iff := h.outcome_iff }, [], by simp, by simp⟩

theorem fail_logs {α γ : Type} (proj : Store → γ) (e : StoreError) :
    Within (Logs proj) (fail e : StoreM α) :=
  within_throw _

theorem modify_logs {f : Store → Store} (hr : ∀ s, (f s).runs = s.runs)
    (he : ∀ s, (f s).eventOutbox = s.eventOutbox) (hn : ∀ s, (f s).nextUuid = s.nextUuid) :
    Within (Logs Store.runs) (modify f : StoreM Unit) :=
  within_modify fun s => .of_silent (hr s) (hr s) (he s) (hn s)

theorem orNewUuid_logs (id : Option Uuid) : Within (Logs Store.runs) (orNewUuid id) := by
  cases id with
  | some id => exact within_pure id
  | none => exact newUuid_logs

section

variable [Calendar]

theorem createTimerTx_logs (new : NewTimer) (now : Int) :
    Within (Logs Store.runs) (createTimerTx new now) := by
  unfold createTimerTx
  split
  · exact fail_logs _ _
  · refine within_bind (orNewUuid_logs new.id) fun id => within_bind (orPanic_logs _ _) fun p => ?_
    intro s
    rw [wp_bind, wp_get]
    split
    · exact Std.Refl.refl s
    · exact Logs.of_silent rfl rfl rfl rfl

theorem updateTimerTx_logs (update : TimerUpdate) (now : Int) :
    Within (Logs Store.runs) (updateTimerTx update now) := by
  intro s
  unfold updateTimerTx
  rw [wp_bind, wp_get]
  split
  · exact Std.Refl.refl s
  · split
    · exact Std.Refl.refl s
    · split
      · exact Std.Refl.refl s
      · rw [wp_bind, wp_orPanic]
        exact ⟨fun p _ => Logs.of_silent rfl rfl rfl rfl, fun p _ => Std.Refl.refl s⟩

end

theorem deleteTimer_logs (id : Uuid) : Within (Logs Store.runs) (deleteTimer id) :=
  within_modifyGet fun _ => .of_silent rfl rfl rfl rfl

theorem ackRunEventsTx_logs (timerId : Uuid) (throughSequence : Nat) :
    Within (Logs Store.runs) (ackRunEventsTx timerId throughSequence) :=
  within_modifyGet fun _ => .of_silent rfl rfl rfl rfl

theorem deleteTimerLifecycle_logs (timer : Timer) (owner : Option String) (utc : Int) :
    Within (Logs Store.runs) (deleteTimerLifecycle timer owner utc) := by
  have hcancel := (cancelOpenRun_logs timer owner utc).mono fun _ _ h => h.runs_of_core
  refine within_atomically (within_bind hcancel fun cancelled => ?_)
  refine within_bind (deleteTimer_logs timer.id) fun deleted => ?_
  refine within_bind (modify_logs (fun _ => rfl) (fun _ => rfl) fun _ => rfl) fun _ => ?_
  refine within_bind (modify_logs (fun _ => rfl) (fun _ => rfl) fun _ => rfl) fun _ => ?_
  refine within_bind (modify_logs (fun _ => rfl) (fun _ => rfl) fun _ => rfl) fun _ => ?_
  exact within_pure _

theorem slotDelete_logs (timerId : Uuid) (appName : String) (utc : Int) :
    Within (Logs Store.runs) (slotDelete timerId appName utc) := by
  refine within_atomically (within_bind within_get fun s => ?_)
  split
  · next timer _ =>
    have hcancel := (cancelOpenRun_logs timer (some appName) utc).mono
      fun _ _ h => h.runs_of_core
    refine within_bind hcancel fun cancelled => ?_
    refine within_bind (deleteTimer_logs timerId) fun existed => ?_
    refine within_bind (modify_logs (fun _ => rfl) (fun _ => rfl) fun _ => rfl) fun _ => ?_
    refine within_bind (modify_logs (fun _ => rfl) (fun _ => rfl) fun _ => rfl) fun _ => ?_
    exact within_pure _
  · refine within_bind (deleteTimer_logs timerId) fun existed => ?_
    refine within_bind (modify_logs (fun _ => rfl) (fun _ => rfl) fun _ => rfl) fun _ => ?_
    refine within_bind (modify_logs (fun _ => rfl) (fun _ => rfl) fun _ => rfl) fun _ => ?_
    exact within_pure _

theorem quiet_emit {α : Type} {m : StoreM α} (h : Within (Logs Store.quiet) m) :
    Within (Logs Store.runs) m :=
  h.mono fun _ _ hs => hs.core_of_quiet.runs_of_core

/-- Seen from the reply engine, a program that leaves the ledger alone. -/
def Quiet (r r' : ReplyState) : Prop := Logs Store.runs r.store r'.store

instance : Std.Refl Quiet := ⟨fun r => Std.Refl.refl r.store⟩

instance : IsTrans ReplyState Quiet :=
  ⟨fun _ _ _ h h' => IsTrans.trans (r := Logs Store.runs) _ _ _ h h'⟩

theorem onStore_quiet {α : Type} {m : StoreM α} (h : Within (Logs Store.runs) m) :
    Within Quiet (onStore m) :=
  within_zoom (h.mono fun s s' hs t ht => by
    subst ht
    exact hs)

theorem quiet_of_logs {α : Type} {m : ReplyM α} (h : Within ReplyLogs m) : Within Quiet m :=
  h.mono fun _ _ hs => hs.runs_of_core

theorem quiet_discard {α : Type} {m : ReplyM α} (h : Within Quiet m) :
    Within Quiet (do let _ ← m) :=
  within_bind h fun _ => within_pure _

/-- The commits that touch the run ledger, and the publication of an event,
which takes it out of the outbox. -/
def Commit.touchesRuns : Commit → Bool
  | claimRun .. | fire .. | activateRun .. | rependRun .. | rependAllActive | finishClaim .. |
    finishRun .. | markEventPublished .. => true
  | _ => false

/-! ### Commits on the run ledger -/

theorem finishClaim_spec {s : Store} (hs : s.Wf) (claim : RunClaim) (timerName : String)
    (e : JobEnd) (utc : Int) :
    wp (finishClaim claim timerName e utc)
      (fun _ s' => Rewrites (finishRow claim.runId e.outcome (some e.reason) utc) s s')
      (fun _ _ => False) s := by
  unfold finishClaim
  rw [wp_atomically]
  exact wp_finish_emit hs rfl fun _ h => h

theorem finishRun_spec {s : Store} (hs : s.Wf) (runId : Uuid) (outcome : RunOutcome)
    (reason : Option String) (now : Int) :
    wp (finishRun runId outcome reason now)
      (fun _ s' => s' = { s with runs := s.runs.map (finishRow runId outcome reason now) })
      (fun _ s' => s' = { s with runs := s.runs.map (finishRow runId outcome reason now) })
      s := by
  unfold finishRun fail
  rw [wp_bind, wp_finishRunConn hs]
  split
  · rw [wp_bind, wp_get]
    split <;> rfl
  · rfl

section Spec

variable [Calendar] {cfg : FireConfig} {c : Commit} {r : ReplyState}

/-- The state after a commit. -/
def Commit.after (cfg : FireConfig) (c : Commit) (r : ReplyState) : ReplyState :=
  ((c.prog cfg).run r).2

theorem after_of_wp {P : ReplyState → Prop}
    (h : wp (c.prog cfg) (fun _ => P) (fun _ => P) r) : P (c.after cfg r) := by
  unfold Commit.after
  rcases hrun : (c.prog cfg).run r with ⟨_ | _, r'⟩
  · exact wp_error h hrun
  · exact wp_ok h hrun

theorem Commit.quiet (hc : c.touchesRuns = false) (r : ReplyState) :
    Logs Store.runs r.store (c.after cfg r).store := by
  have h : Within Quiet (c.prog cfg) := by
    cases c with
    | createTimer new now => exact quiet_discard (onStore_quiet (createTimerTx_logs new now))
    | updateTimer update now => exact quiet_discard (onStore_quiet (updateTimerTx_logs update now))
    | deleteTimer id => exact quiet_discard (onStore_quiet (deleteTimer_logs id))
    | deleteTimerLifecycle timer owner utc =>
      exact quiet_discard (onStore_quiet (deleteTimerLifecycle_logs timer owner utc))
    | slotDelete timerId appName utc =>
      exact quiet_discard (onStore_quiet (slotDelete_logs timerId appName utc))
    | setTimerOwner timerId appName =>
      exact onStore_quiet (modify_logs (fun _ => rfl) (fun _ => rfl) fun _ => rfl)
    | clearTimerOwner timerId =>
      exact onStore_quiet (modify_logs (fun _ => rfl) (fun _ => rfl) fun _ => rfl)
    | ackRunEvents timerId throughSequence =>
      exact quiet_discard (onStore_quiet (ackRunEventsTx_logs timerId throughSequence))
    | ingest timer doc digest nowWall monoNow utc =>
      exact quiet_discard
        (quiet_of_logs (ingest_logs cfg.reply timer doc digest nowWall monoNow utc))
    | ackThrough timer throughSequence nowWall =>
      exact quiet_discard (quiet_of_logs (onAckThrough_logs timer throughSequence nowWall))
    | expirePickup timer runId nowWall =>
      exact quiet_discard (quiet_of_logs (expirePickupOne_logs timer runId nowWall))
    | expireWatchdog timer runId nowWall monoNow =>
      exact quiet_discard (quiet_of_logs (expireWatchdogOne_logs timer runId nowWall monoNow))
    | registerFire runId nowWall monoNow =>
      exact quiet_of_logs (registerFire_logs cfg.reply runId nowWall monoNow)
    | setRunTransport runId transport =>
      exact onStore_quiet (modify_logs (fun _ => rfl) (fun _ => rfl) fun _ => rfl)
    | logRejection timer runId reason utc =>
      exact onStore_quiet (quiet_emit (emit_logs rfl _ _ _))
    | logNote kind loggedAt timer scheduledFor note =>
      exact onStore_quiet (quiet_emit (emit_logs' (Bool.and_false _) _ _))
    | crash => exact within_modify fun r => Std.Refl.refl r.store
    | _ => cases hc
  exact after_of_wp (h r)

theorem effect_of_wp (h : wp (c.prog cfg) (fun _ r' => c.Effect r.store r'.store)
    (fun _ r' => c.Effect r.store r'.store) r) : c.Effect r.store (c.after cfg r).store :=
  after_of_wp h

/-- What a commit does to the rows. -/
theorem Commit.effect (cfg : FireConfig) (c : Commit) (hs : r.store.Wf) :
    c.Effect r.store (c.after cfg r).store := by
  cases c with
  | claimRun timerId scheduledFor now =>
    refine effect_of_wp ?_
    simp only [prog, wp_bind, wp_pure, wp_onStore]
    rw [wp_claimRunConn hs]
    split
    · exact .inl rfl
    · next hslot => exact .inr ⟨by simpa using hslot, rfl⟩
  | fire f =>
    refine effect_of_wp ?_
    simp only [prog, wp_bind, wp_pure]
    exact wp_mono (fireTx_spec cfg f r hs) (fun out r' h => .inr ⟨out.1, h⟩)
      fun _ r' h => .inl (congrArg Store.runs h)
  | activateRun runId => rfl
  | rependRun runId => rfl
  | rependAllActive => rfl
  | finishClaim claim timerName e utc =>
    refine effect_of_wp ?_
    simp only [prog, wp_onStore]
    exact wp_mono (finishClaim_spec hs claim timerName e utc) (fun _ _ h => h.runs)
      fun _ _ h => h.elim
  | finishRun how runId utc =>
    refine effect_of_wp ?_
    simp only [prog, wp_bind, wp_pure, wp_onStore]
    exact wp_mono (finishRun_spec hs runId _ _ utc) (fun _ _ h => congrArg Store.runs h)
      fun _ _ h => congrArg Store.runs h
  | markEventPublished eventId => exact (List.map_id _).symm
  | _ => exact (Commit.quiet rfl r).same.trans (List.map_id _).symm

/-- The claim is open, and the commit finishes it with no event. -/
def Commit.finishesBare (c : Commit) (s : Store) : Bool :=
  match c with
  | .finishRun _ runId _ => s.isOpen runId
  | _ => false

/-- A commit that finishes nothing bare accounts for the outcomes; the
publication of an event is the one that shortens the outbox. -/
theorem Commit.audited (cfg : FireConfig) (hbare : c.finishesBare r.store = false)
    (hpub : ∀ id, c ≠ .markEventPublished id) :
    Audited r.store (c.after cfg r).store := by
  intro hs
  by_cases hq : c.touchesRuns = false
  · exact Audited.of_logs (Commit.quiet hq r) (Commit.quiet hq r).same hs
  refine after_of_wp (P := fun r' => Audit r.store r'.store) ?_
  have hrefl : Audit r.store r.store := Std.Refl.refl (r := Audited) r.store hs
  cases c with
  | claimRun timerId scheduledFor now =>
    simp only [prog, wp_bind, wp_pure, wp_onStore]
    rw [wp_claimRunConn hs]
    split
    · exact Audited.of_logs (newUuid_logs.run r.store) rfl hs
    · next hslot => exact Audited.of_claim now (by simpa using hslot) hs
  | fire f =>
    simp only [prog, wp_bind, wp_pure]
    exact wp_mono (fireTx_spec cfg f r hs) (fun out r' h => h.audit)
      fun _ r' h => h ▸ hrefl
  | activateRun runId => exact Audited.of_move (by decide) (fun r h => by simp_all) hs
  | rependRun runId => exact Audited.of_move (by decide) (fun r h => by simp_all) hs
  | rependAllActive => exact Audited.of_move (by decide) (fun r h => by simp_all) hs
  | finishClaim claim timerName e utc =>
    simp only [prog, wp_onStore]
    exact wp_mono (finishClaim_spec hs claim timerName e utc) (fun _ _ h => h.audit)
      fun _ _ h => h.elim
  | finishRun how runId utc =>
    have heq := hs.map_finishRow_eq hbare how.outcome how.reason utc
    simp only [prog, wp_bind, wp_pure, wp_onStore]
    refine wp_imp (finishRun_spec hs runId _ _ utc) fun s' h => ?_
    rw [heq] at h
    exact h ▸ hrefl
  | markEventPublished eventId => exact absurd rfl (hpub eventId)
  | _ => exact absurd rfl hq

/-- Rows are never deleted, and keep their keys. -/
theorem Commit.getRun_key (cfg : FireConfig) (c : Commit) (hs : r.store.Wf) {run : Uuid}
    {q : RunClaim} (h : r.store.getRun run = some q) :
    ∃ q', (c.after cfg r).store.getRun run = some q' ∧ q'.key = q.key := by
  have hmap : ∀ (f : RunClaim → RunClaim) (new : List RunClaim), (∀ r, (f r).key = r.key) →
      (c.after cfg r).store.runs = (r.store.runs ++ new).map f →
      ∃ q', (c.after cfg r).store.getRun run = some q' ∧ q'.key = q.key := by
    intro f new hf hruns
    refine ⟨f q, ?_, hf q⟩
    have hget := Store.getRun_map (s := { r.store with runs := r.store.runs ++ new }) hf run
    have hold : ({ r.store with runs := r.store.runs ++ new } : Store).getRun run = some q := by
      unfold Store.getRun at h ⊢
      rw [List.find?_append, h, Option.some_or]
    rw [hold] at hget
    unfold Store.getRun at hget ⊢
    rwa [hruns]
  have heff := Commit.effect cfg c hs
  cases c with
  | claimRun timerId scheduledFor now =>
    rcases heff with heff | ⟨_, heff⟩
    · exact hmap (fun r => r) [] (fun _ => rfl) (by simpa using heff)
    · exact hmap (fun r => r) [_] (fun _ => rfl) (by simpa using heff)
  | fire f =>
    rcases heff with heff | ⟨claim, hfired⟩
    · exact hmap (fun r => r) [] (fun _ => rfl) (by simpa using heff)
    · obtain ⟨u, _, _, hruns⟩ := hfired.ledger
      exact hmap _ _ (key_dispose f.timer u _ f.utc) hruns
  | _ => exact hmap _ [] (key_row _) (by rw [List.append_nil]; exact heff)

/-! ### The states reached -/

/-- Every commit keeps the constraints of the schema. -/
theorem Commit.wf (hs : r.store.Wf) : (c.after cfg r).store.Wf := by
  cases c with
  | finishRun how runId utc =>
    refine after_of_wp (P := fun r' => r'.store.Wf) ?_
    simp only [prog, wp_bind, wp_pure, wp_onStore]
    exact wp_imp (finishRun_spec hs runId _ _ utc) fun s' h => h ▸ hs.finish runId _ _ utc
  | markEventPublished eventId =>
    exact
      { run_lt := hs.run_lt
        event_lt := fun e he => hs.event_lt e (List.mem_of_mem_filter he)
        run_nodup := hs.run_nodup
        slot_ne := hs.slot_ne
        seq_lt := hs.seq_lt
        outcome_iff := hs.outcome_iff }
  | _ => exact (Commit.audited cfg rfl (fun _ h => by cases h) hs).wf

/-- The states of a run keep them. -/
theorem wf_of_run {r₀ : ReplyState} {tr : List (System.Event ReplyState Commit)}
    (h : (ledger cfg).Run r₀ tr r) (h0 : r₀.store.Wf) : r.store.Wf :=
  h.invariant (G := fun _ => True) (I := fun r => r.store.Wf) (fun _ _ => trivial) h0
    fun _ _ _ hstep _ hwf => hstep ▸ Commit.wf hwf

theorem wf_of_reached {tr : List (System.Event ReplyState Commit)}
    (h : (ledger cfg).Run {} tr r) : r.store.Wf :=
  wf_of_run h Store.wf_empty

/-- The run that makes the given commits, one after another. -/
theorem run_commits (cfg : FireConfig) (cs : List Commit) :
    (ledger cfg).Run {} (System.trace (fun r c => c.after cfg r) {} cs)
      (cs.foldl (fun r c => c.after cfg r) {}) :=
  System.run_trace (fun _ _ => rfl) _ cs

end Spec

/-! ### A sample installation -/

/-- Routes for timers that no app owns. -/
def FireConfig.sample : FireConfig where
  reply := { pickupGrace := 60000000000, watchdogFactor := 2 }
  route := { firesDir := "", fireSlotFile := none, notification := fun _ _ _ _ _ => .ok "" }

/-- A timer that fires every minute. -/
def NewTimer.sample (overlap : OverlapPolicy) : NewTimer where
  name := "tick"
  occurrence := { kind := .interval 60 0, tz := "UTC" }
  overlap := overlap

/-- The same timer as the first row of the table, before its first fire. -/
def Timer.sample (overlap : OverlapPolicy) : Timer where
  id := ⟨0⟩
  name := "tick"
  enabled := true
  occurrence := { kind := .interval 60 0, tz := "UTC" }
  tz := "UTC"
  nextFireUtc := some (60 * NS)
  lastFired := none
  misfire := .skip
  overlap := overlap
  retry := {}
  validFrom := none
  validUntil := none
  maxRuns := none
  tags := []
  action := .none
  revision := 1
  jitterSecs := 0
  accuracySlackSecs := none
  wakeMachine := false
  transport := .json

/-- Its fire at a slot, on time. -/
def Firing.sample (overlap : OverlapPolicy) (slot : Int) : Firing where
  timer := Timer.sample overlap
  scheduledFor := slot
  kind := .onTime
  owner := none
  prev := none
  barrier := none
  selected := .json
  now := slot
  monoNow := slot
  utc := slot

end Bellman
