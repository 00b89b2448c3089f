/-
Bellman/Frame.lean

What the operations outside the run ledger leave alone.

`Store.Wf` collects the constraints that the schema and the insert
discipline maintain: ids are unique and were drawn from the supply, a slot
is claimed once, the event sequences of a timer grow in commit order, and a
claim has an outcome exactly when it is finished.

An operation that only logs is in `Logs`: some part of the store is the
same, `Wf` is kept, and the outbox has grown by events none of which
reports the outcome of a claim.  `Logs` is a preorder, so an operation is
in it as soon as its steps are.

Main results: each reply operation, and each closing of an open run, is in
`Logs Store.core` — it touches neither timers nor the run ledger.
-/
import Bellman.Fire

namespace Bellman

open ProgramLogic Prog ReplyM

namespace Store

/-- The constraints of the schema and the insert discipline. -/
structure Wf (s : Store) : Prop where
  run_lt : ∀ r ∈ s.runs, r.runId.n < s.nextUuid
  event_lt : ∀ e ∈ s.eventOutbox, e.eventId.n < s.nextUuid
  run_nodup : (s.runs.map (·.runId)).Nodup
  slot_ne : s.runs.Pairwise fun a b => a.timerId = b.timerId → a.scheduledFor ≠ b.scheduledFor
  seq_lt : s.runs.Pairwise fun a b => a.timerId = b.timerId → a.eventSequence < b.eventSequence
  outcome_iff : ∀ r ∈ s.runs, r.outcome.isSome ↔ r.status = .finished

theorem wf_empty : Wf {} := by
  constructor <;> simp

/-- `Wf` looks at the ledger, the outbox and the supply of ids only. -/
theorem Wf.congr {s s' : Store} (h : s.Wf) (hr : s'.runs = s.runs)
    (he : s'.eventOutbox = s.eventOutbox) (hn : s'.nextUuid = s.nextUuid) : s'.Wf := by
  constructor
  · rw [hr, hn]; exact h.run_lt
  · rw [he, hn]; exact h.event_lt
  · rw [hr]; exact h.run_nodup
  · rw [hr]; exact h.slot_ne
  · rw [hr]; exact h.seq_lt
  · rw [hr]; exact h.outcome_iff

/-- The tables without the outbox and the supply of ids. -/
def quiet (s : Store) : Store := { s with eventOutbox := [], nextUuid := 0 }

/-- The tables that no reply operation touches. -/
def core (s : Store) : Store := { s with runStates := [], eventOutbox := [], nextUuid := 0 }

end Store

/-! ### Logging -/

section Logs

variable {γ : Type}

/-- `proj` is the same, and the outbox has grown by events that report no
outcome. -/
structure Logs (proj : Store → γ) (s s' : Store) : Prop where
  same : proj s' = proj s
  wf : s.Wf → s'.Wf
  events : ∃ evs, s'.eventOutbox = s.eventOutbox ++ evs ∧ ∀ e ∈ evs, e.reportsOutcome = false

variable {proj : Store → γ}

instance : Std.Refl (Logs proj) := ⟨fun _ => ⟨rfl, id, [], by simp, by simp⟩⟩

instance : IsTrans Store (Logs proj) where
  trans s s' s'' h h' := by
    obtain ⟨evs, he, hk⟩ := h.events
    obtain ⟨evs', he', hk'⟩ := h'.events
    refine ⟨h'.same.trans h.same, h'.wf ∘ h.wf, evs ++ evs', ?_, ?_⟩
    · rw [he', he, List.append_assoc]
    · intro e hmem
      exact (List.mem_append.mp hmem).elim (hk e) (hk' e)

/-- A change that `Wf` does not look at, of a part that `proj` does not. -/
theorem Logs.of_silent {s s' : Store} (hp : proj s' = proj s) (hr : s'.runs = s.runs)
    (he : s'.eventOutbox = s.eventOutbox) (hn : s'.nextUuid = s.nextUuid) : Logs proj s s' :=
  ⟨hp, fun h => h.congr hr he hn, [], by simp [he], by simp⟩

theorem Logs.core_of_quiet {s s' : Store} (h : Logs Store.quiet s s') : Logs Store.core s s' :=
  have e : s'.quiet.core = s.quiet.core := congrArg Store.core h.same
  ⟨e, h.wf, h.events⟩

theorem Logs.runs_eq {s s' : Store} (h : Logs Store.core s s') : s'.runs = s.runs :=
  have e : s'.core.runs = s.core.runs := congrArg Store.runs h.same
  e

theorem Logs.timers_eq {s s' : Store} (h : Logs Store.core s s') : s'.timers = s.timers :=
  have e : s'.core.timers = s.core.timers := congrArg Store.timers h.same
  e

end Logs

/-- A fresh id is not in the outbox. -/
theorem outbox_any_fresh {s : Store} (h : ∀ e ∈ s.eventOutbox, e.eventId.n < s.nextUuid) :
    s.eventOutbox.any (·.eventId == ⟨s.nextUuid⟩) = false := by
  rw [List.any_eq_false]
  intro e he heq
  have hlt := h e he
  have hid : e.eventId = ⟨s.nextUuid⟩ := by simpa using heq
  simp [hid] at hlt

/-- An event with a fresh id goes into the outbox. -/
theorem run_emit {kind : RunState} {loggedAt : Int} {subject : EventSubject} {note : EventNote}
    {s : Store} (h : ∀ e ∈ s.eventOutbox, e.eventId.n < s.nextUuid) :
    ((emit kind loggedAt subject note).run s).2 = { s with
      nextUuid := s.nextUuid + 1
      eventOutbox := s.eventOutbox ++
        [{ subject, note with kind, loggedAt, eventId := ⟨s.nextUuid⟩ }] } :=
  if_neg (Bool.eq_false_iff.mp (outbox_any_fresh h))

theorem wp_emit {kind : RunState} {loggedAt : Int} {subject : EventSubject} {note : EventNote}
    {Q : Unit → Store → Prop} {E : Abort → Store → Prop} {s : Store} (h : s.Wf) :
    wp (emit kind loggedAt subject note) Q E s ↔
      Q () { s with
        nextUuid := s.nextUuid + 1
        eventOutbox := s.eventOutbox ++
          [{ subject, note with kind, loggedAt, eventId := ⟨s.nextUuid⟩ }] } := by
  have hany := outbox_any_fresh h.event_lt
  unfold emit newUuid enqueueEventConn
  simp only [wp_bind, wp_modifyGet, wp_modify, hany, Bool.false_eq_true, if_false]

theorem Store.Wf.emit {s : Store} (h : s.Wf) (rec : EventRecord)
    (hid : rec.eventId = ⟨s.nextUuid⟩) :
    Store.Wf { s with nextUuid := s.nextUuid + 1, eventOutbox := s.eventOutbox ++ [rec] } where
  run_lt r hr := Nat.lt_succ_of_lt (h.run_lt r hr)
  event_lt e he := by
    rcases List.mem_append.mp he with he | he
    · exact Nat.lt_succ_of_lt (h.event_lt e he)
    · obtain rfl := List.mem_singleton.mp he
      simp [hid]
  run_nodup := h.run_nodup
  slot_ne := h.slot_ne
  seq_lt := h.seq_lt
  outcome_iff := h.outcome_iff

theorem emit_logs' {kind : RunState} {subject : EventSubject}
    (hk : (kind.isOutcome && subject.runId.isSome) = false) (loggedAt : Int)
    (note : EventNote) : Within (Logs Store.quiet) (emit kind loggedAt subject note) := by
  intro s
  unfold emit newUuid enqueueEventConn
  simp only [wp_bind, wp_modifyGet, wp_modify]
  split
  · next hany =>
    refine ⟨rfl, fun h => ?_, [], by simp, by simp⟩
    obtain ⟨e, he, heq⟩ := List.any_eq_true.mp hany
    have hid : e.eventId = ⟨s.nextUuid⟩ := by simpa using heq
    have hlt := h.event_lt e he
    simp [hid] at hlt
  · refine ⟨rfl, fun h => h.emit _ rfl, [_], rfl, ?_⟩
    intro e he
    obtain rfl := List.mem_singleton.mp he
    exact hk

theorem emit_logs {kind : RunState} (hk : kind.isOutcome = false) (loggedAt : Int)
    (subject : EventSubject) (note : EventNote) :
    Within (Logs Store.quiet) (emit kind loggedAt subject note) :=
  emit_logs' (by rw [hk, Bool.false_and]) loggedAt note

theorem orPanic_logs {α γ : Type} (proj : Store → γ) (x : Except Panic α) :
    Within (Logs proj) (orPanic x) := by
  cases x with
  | ok a => exact within_pure a
  | error p => exact within_throw _

theorem logAcknowledged_logs (timer : Timer) (claim : RunClaim) (row : RunStateRow)
    (nowWall : Int) : Within (Logs Store.quiet) (logAcknowledged timer claim row nowWall) := by
  refine within_ite (fun _ => ?_) fun _ => within_pure _
  exact within_bind (emit_logs rfl _ _ _) fun _ => within_pure _

theorem logRunning_logs (timer : Timer) (claim : RunClaim) (row : RunStateRow)
    (doc : ReplyDocument) (newState : RunState) (nowWall : Int) :
    Within (Logs Store.quiet) (logRunning timer claim row doc newState nowWall) := by
  refine within_ite (fun _ => ?_) fun _ => within_pure _
  exact within_bind (emit_logs rfl _ _ _) fun _ => within_pure _

theorem logRejection_logs (timer : Timer) (runId : Option Uuid) (reason : String) (utc : Int) :
    Within (Logs Store.quiet) (logRejection timer runId reason utc) :=
  emit_logs rfl _ _ _

/-! ### Lifecycle rows -/

theorem core_logs {α : Type} {m : StoreM α} (h : Within (Logs Store.quiet) m) :
    Within (Logs Store.core) m :=
  h.mono fun _ _ hs => hs.core_of_quiet

theorem updateRunStateConn_logs (row : RunStateRow) :
    Within (Logs Store.core) (updateRunStateConn row) :=
  within_modify fun _ => .of_silent rfl rfl rfl rfl

theorem insertRunStateConn_logs (row : RunStateRow) :
    Within (Logs Store.core) (insertRunStateConn row) := by
  intro s
  unfold insertRunStateConn fail
  simp only [wp_bind, wp_get]
  split
  · exact Std.Refl.refl s
  · exact Logs.of_silent rfl rfl rfl rfl

theorem closeOpenRun_logs {verdict : RunState} (hv : verdict.isOutcome = false)
    (message : String) (timer : Timer) (owner : Option String) (run : Option RunClaim)
    (utc : Int) :
    Within (Logs Store.core) (closeOpenRun verdict message timer owner run utc) := by
  unfold closeOpenRun
  split
  · exact within_pure _
  · refine within_bind within_get fun s => within_ite (fun _ => ?_) fun _ => within_pure _
    refine within_bind (core_logs (emit_logs hv _ _ _)) fun _ => ?_
    split
    · exact within_bind (updateRunStateConn_logs _) fun _ => within_pure _
    · exact within_pure _

theorem cancelOpenRun_logs (timer : Timer) (owner : Option String) (utc : Int) :
    Within (Logs Store.core) (cancelOpenRun timer owner utc) :=
  within_bind within_get fun _ => closeOpenRun_logs rfl _ timer owner _ utc

theorem supersedePrevious_logs (timer : Timer) (owner : Option String) (prev : Option RunClaim)
    (utc : Int) : Within (Logs Store.core) (supersedePrevious timer owner prev utc) :=
  closeOpenRun_logs rfl _ timer owner prev utc

theorem ingestStale_logs (timer : Timer) (claim : RunClaim) (digest : String) (utc : Int) :
    Within (Logs Store.core) (ingestStale timer claim digest utc) := by
  refine within_bind within_get fun s => within_ite (fun _ => within_pure _) fun _ => ?_
  refine within_bind (core_logs (emit_logs rfl _ _ _)) fun _ => ?_
  split
  · exact within_bind (updateRunStateConn_logs _) fun _ => within_pure _
  · exact within_pure _

/-! ### The reply engine -/

/-- `Logs`, seen from the reply engine. -/
def ReplyLogs (r r' : ReplyState) : Prop := Logs Store.core r.store r'.store

instance : Std.Refl ReplyLogs := ⟨fun r => Std.Refl.refl r.store⟩

instance : IsTrans ReplyState ReplyLogs :=
  ⟨fun _ _ _ h h' => IsTrans.trans (r := Logs Store.core) _ _ _ h h'⟩

theorem onStore_logs {α : Type} {m : StoreM α} (h : Within (Logs Store.core) m) :
    Within ReplyLogs (onStore m) :=
  within_zoom (h.mono fun s s' hs t ht => by subst ht; exact hs)

theorem read_logs {α : Type} (f : Store → α) : Within ReplyLogs (ReplyM.read f) :=
  within_bind within_get fun _ => within_pure _

theorem onBook_logs (f : DeadlineBook → DeadlineBook) : Within ReplyLogs (onBook f) :=
  within_modify fun r => Std.Refl.refl r.store

theorem inTx_logs {α : Type} {m : ReplyM α} (h : Within ReplyLogs m) :
    Within ReplyLogs (inTx m) :=
  within_transact h fun r _ _ => Std.Refl.refl r.store

theorem armWatchdog_logs (cfg : ReplyConfig) (runId : Uuid) (expectedSecs : Nat)
    (nowWall monoNow : Int) :
    Within ReplyLogs (armWatchdog cfg runId expectedSecs nowWall monoNow) := by
  refine within_bind (onStore_logs (orPanic_logs _ _)) fun span => ?_
  refine within_bind (onStore_logs (orPanic_logs _ _)) fun at_ => ?_
  refine within_bind (onBook_logs _) fun _ => ?_
  refine within_bind (onStore_logs (orPanic_logs _ _)) fun wall => ?_
  exact within_bind (onBook_logs _) fun _ => within_pure _

theorem rearm_logs (cfg : ReplyConfig) (row : RunStateRow) (newState : RunState)
    (nowWall monoNow : Int) :
    Within ReplyLogs (rearm cfg row newState nowWall monoNow) := by
  refine within_bind (onBook_logs _) fun _ => within_ite (fun _ => ?_) fun _ =>
    within_ite (fun _ => ?_) fun _ => ?_
  · exact within_bind (onBook_logs _) fun _ => within_pure _
  · exact within_bind (armWatchdog_logs cfg _ _ nowWall monoNow) fun _ => within_pure _
  · exact within_bind (onBook_logs _) fun _ => within_pure _

theorem registerFire_logs (cfg : ReplyConfig) (runId : Uuid) (nowWall monoNow : Int) :
    Within ReplyLogs (registerFire cfg runId nowWall monoNow) := by
  refine within_bind (within_modify fun r => Std.Refl.refl r.store) fun _ => ?_
  refine within_bind (onStore_logs (orPanic_logs _ _)) fun wall => ?_
  refine within_bind (onStore_logs (orPanic_logs _ _)) fun at_ => ?_
  exact within_bind (onBook_logs _) fun _ => onBook_logs _

theorem durationMs_logs (runId : Uuid) (firedAt nowWall monoNow : Int) :
    Within ReplyLogs (durationMs runId firedAt nowWall monoNow) :=
  within_modifyGet fun r => by
    split <;> exact Std.Refl.refl r.store

theorem logVerdict_logs (timer : Timer) (claim : RunClaim) (row : RunStateRow)
    (doc : ReplyDocument) (curState newState : RunState) (nowWall monoNow utc : Int) :
    Within ReplyLogs
      (logVerdict timer claim row doc curState newState nowWall monoNow utc) := by
  refine within_ite (fun hterm => ?_) fun _ => within_pure _
  refine within_bind (durationMs_logs _ _ nowWall monoNow) fun d => ?_
  exact onStore_logs (core_logs
    (emit_logs (RunState.not_isOutcome_of_isTerminal hterm.1) _ _ _))

theorem apply_logs (cfg : ReplyConfig) (timer : Timer) (claim : RunClaim) (row : RunStateRow)
    (doc : ReplyDocument) (newState : RunState) (digest : String) (nowWall monoNow utc : Int) :
    Within ReplyLogs
      (apply cfg timer claim row doc newState digest nowWall monoNow utc) := by
  refine within_bind (rearm_logs cfg _ newState nowWall monoNow) fun row => ?_
  refine within_bind (onStore_logs (core_logs (logAcknowledged_logs timer claim row nowWall)))
    fun row => ?_
  refine within_bind (onStore_logs (core_logs
    (logRunning_logs timer claim row doc newState nowWall))) fun row => ?_
  refine within_bind (logVerdict_logs timer claim row doc _ newState nowWall monoNow utc)
    fun _ => ?_
  exact onStore_logs (updateRunStateConn_logs _)

theorem ingestInner_logs (cfg : ReplyConfig) (timer : Timer) (doc : ReplyDocument)
    (digest : String) (nowWall monoNow utc : Int) (currentOverride : Option Uuid) :
    Within ReplyLogs
      (ingestInner cfg timer doc digest nowWall monoNow utc currentOverride) := by
  unfold ingestInner
  split
  · exact within_pure _
  · next runId newState appName _ =>
    refine within_bind (read_logs _) fun claim => ?_
    split
    · exact within_pure _
    · next claim =>
      refine within_ite (fun _ => within_pure _) fun _ =>
        within_bind (read_logs _) fun newest => ?_
      refine within_ite (fun _ => onStore_logs (ingestStale_logs timer claim digest utc))
        fun _ => within_bind (read_logs _) fun row => ?_
      split
      · exact within_pure _
      · refine within_ite (fun _ => within_pure _) fun _ => ?_
        exact within_bind (apply_logs cfg timer claim row doc newState digest nowWall monoNow utc)
          fun _ => within_pure _

theorem ingest_logs (cfg : ReplyConfig) (timer : Timer) (doc : ReplyDocument)
    (digest : String) (nowWall monoNow utc : Int) :
    Within ReplyLogs (ingest cfg timer doc digest nowWall monoNow utc) :=
  inTx_logs (ingestInner_logs cfg timer doc digest nowWall monoNow utc none)

theorem markAcknowledged_logs (timer : Timer) (claim : RunClaim) (row : RunStateRow)
    (nowWall : Int) : Within ReplyLogs (markAcknowledged timer claim row nowWall) := by
  refine within_bind (onBook_logs _) fun _ => within_ite (fun _ => ?_) fun _ => ?_
  · refine within_bind (onStore_logs (core_logs (emit_logs rfl _ _ _))) fun _ => ?_
    exact onStore_logs (updateRunStateConn_logs _)
  · exact onStore_logs (updateRunStateConn_logs _)

theorem onAckThrough_logs (timer : Timer) (throughSequence : Nat) (nowWall : Int) :
    Within ReplyLogs (onAckThrough timer throughSequence nowWall) := by
  refine within_bind (read_logs _) fun row => ?_
  split
  · exact within_pure _
  · next row =>
    refine within_bind (read_logs _) fun claim => ?_
    split
    · exact within_pure _
    · next claim =>
      refine within_ite (fun _ => within_pure _) fun _ =>
        within_ite (fun _ => ?_) fun _ => within_pure _
      exact within_bind (inTx_logs (markAcknowledged_logs timer claim row nowWall))
        fun _ => within_pure _

theorem expirePickupOne_logs (timer : Timer) (runId : Uuid) (nowWall : Int) :
    Within ReplyLogs (expirePickupOne timer runId nowWall) := by
  refine inTx_logs (within_bind (read_logs _) fun row => ?_)
  split
  · exact within_pure _
  · next row =>
    refine within_ite (fun _ => within_pure _) fun _ =>
      within_bind (read_logs _) fun current => ?_
    refine within_ite (fun _ => within_pure _) fun _ =>
      within_bind (read_logs _) fun claim => ?_
    split
    · exact within_pure _
    · next claim =>
      refine within_ite (fun _ => within_pure _) fun _ =>
        within_bind (read_logs _) fun acked => within_ite (fun _ => ?_) fun _ => ?_
      · exact within_bind (markAcknowledged_logs timer claim row nowWall) fun _ => within_pure _
      · refine within_bind (onBook_logs _) fun _ => ?_
        refine within_bind (onStore_logs (core_logs (emit_logs rfl _ _ _))) fun _ => ?_
        exact within_bind (onStore_logs (updateRunStateConn_logs _)) fun _ => within_pure _

theorem expireWatchdogOne_logs (timer : Timer) (runId : Uuid) (nowWall monoNow : Int) :
    Within ReplyLogs (expireWatchdogOne timer runId nowWall monoNow) := by
  refine inTx_logs (within_bind (read_logs _) fun row => ?_)
  split
  · exact within_pure _
  · next row =>
    refine within_ite (fun _ => within_pure _) fun _ => within_ite (fun _ => within_pure _)
      fun _ => within_bind (read_logs _) fun current => ?_
    refine within_ite (fun _ => within_pure _) fun _ =>
      within_bind (read_logs _) fun claim => ?_
    split
    · exact within_pure _
    · next claim =>
      refine within_bind (onBook_logs _) fun _ => ?_
      refine within_bind (durationMs_logs _ _ nowWall monoNow) fun d => ?_
      refine within_bind (onStore_logs (core_logs (emit_logs rfl _ _ _))) fun _ => ?_
      exact within_bind (onStore_logs (updateRunStateConn_logs _)) fun _ => within_pure _

theorem barrierIngest_logs (cfg : FireConfig) (f : Firing) :
    Within ReplyLogs (barrierIngest cfg f) := by
  unfold barrierIngest
  split
  · refine within_bind (ingestInner_logs cfg.reply f.timer _ _ f.now f.monoNow f.utc _)
      fun outcome => ?_
    split
    · exact onStore_logs (core_logs (logRejection_logs f.timer _ _ f.utc))
    · exact within_pure _
  · exact within_pure _

end Bellman
