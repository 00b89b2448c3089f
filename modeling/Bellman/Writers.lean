/-
Bellman/Writers.lean

The writers of lifecycle rows.

A handful of programs write lifecycle rows: a fire opens one, a later fire
or a deletion closes one, the pump notes the transport it went out on, the
slot feed acknowledges one, the two deadlines expire one, and a reply is
folded into one.  Everything else that commits leaves them alone.

Main result: `RowWriters.after`, the one case analysis over all commits.  A
preorder on stores that each writer is in relates the stores before and
after any commit; whether a reply is in it may depend on the store it meets.
-/
import Bellman.Commit

namespace Bellman

open ProgramLogic Prog ReplyM

/-! ### What writes no lifecycle row -/

/-- The lifecycle rows are the same. -/
abbrev SameStates : ReplyState → ReplyState → Prop := Same fun r => r.store.runStates

theorem emit_states (kind : RunState) (loggedAt : Int) (subject : EventSubject)
    (note : EventNote) : Within (Same Store.runStates) (emit kind loggedAt subject note) := by
  intro s
  unfold emit newUuid enqueueEventConn
  simp only [wp_bind, wp_modifyGet, wp_modify]
  split <;> rfl

theorem orPanic_states {α : Type} (x : Except Panic α) :
    Within (Same Store.runStates) (orPanic x) := by
  cases x with
  | ok a => exact within_pure a
  | error p => exact within_throw _

theorem onStore_states {α : Type} {m : StoreM α} (h : Within (Same Store.runStates) m) :
    Within SameStates (onStore m) :=
  within_zoom (h.mono fun s s' hs t ht => by
    subst ht
    exact hs)

theorem onBook_states (f : DeadlineBook → DeadlineBook) : Within SameStates (onBook f) :=
  within_modify fun _ => rfl

theorem armWatchdog_states (cfg : ReplyConfig) (runId : Uuid) (expectedSecs : Nat)
    (nowWall monoNow : Int) :
    Within SameStates (armWatchdog cfg runId expectedSecs nowWall monoNow) := by
  refine within_bind (onStore_states (orPanic_states _)) fun span => ?_
  refine within_bind (onStore_states (orPanic_states _)) fun at_ => ?_
  refine within_bind (onBook_states _) fun _ => ?_
  refine within_bind (onStore_states (orPanic_states _)) fun wall => ?_
  exact within_bind (onBook_states _) fun _ => within_pure _

theorem durationMs_states (runId : Uuid) (firedAt nowWall monoNow : Int) :
    Within SameStates (durationMs runId firedAt nowWall monoNow) :=
  within_modifyGet fun r => by
    show _ = _
    split <;> rfl

theorem logVerdict_states (timer : Timer) (claim : RunClaim) (row : RunStateRow)
    (doc : ReplyDocument) (curState newState : RunState) (nowWall monoNow utc : Int) :
    Within SameStates
      (logVerdict timer claim row doc curState newState nowWall monoNow utc) := by
  refine within_ite (fun _ => ?_) fun _ => within_pure _
  exact within_bind (durationMs_states _ _ nowWall monoNow) fun d =>
    onStore_states (emit_states _ _ _ _)

theorem finishRunConn_states (runId : Uuid) (outcome : RunOutcome) (reason : Option String)
    (now : Int) : Within (Same Store.runStates) (finishRunConn runId outcome reason now) :=
  within_bind (within_modifyGet fun _ => rfl) fun _ => within_pure _

theorem claimRunConn_states (timerId : Uuid) (scheduledFor now : Int) :
    Within (Same Store.runStates) (claimRunConn timerId scheduledFor now) := by
  intro s
  unfold claimRunConn newUuid fail
  rw [wp_bind, wp_modifyGet, wp_bind, wp_get]
  split <;> rfl

theorem finishLogged_states (timer : Timer) (claim : RunClaim) (outcome : RunOutcome)
    (reason : String) (utc : Int) :
    Within (Same Store.runStates) (finishLogged timer claim outcome reason utc) :=
  within_bind (finishRunConn_states _ _ _ _) fun _ =>
    within_ite (fun _ => emit_states _ _ _ _) fun _ => within_pure _

theorem applyOverlapDisposition_states (timer : Timer) (claim : RunClaim) (utc : Int) :
    Within (Same Store.runStates) (applyOverlapDisposition timer claim utc) := by
  have hreplace : ∀ ps, Within (Same Store.runStates) (replacePending timer utc ps) := by
    intro ps
    induction ps with
    | nil => exact within_pure _
    | cons p ps ih => exact within_bind (finishLogged_states _ _ _ _ _) fun _ => ih
  refine within_ite (fun _ => ?_) fun _ => ?_
  · refine within_bind within_get fun s => within_bind (hreplace _) fun _ => ?_
    refine within_bind ?_ fun _ => within_pure _
    exact within_bind within_get fun s =>
      within_bind (within_modifyGet fun _ => rfl) fun _ => within_pure _
  · refine within_bind within_get fun s => ?_
    split
    · exact within_pure _
    · refine within_bind (finishRunConn_states _ _ _ _) fun _ => ?_
      refine within_bind (emit_states _ _ _ _) fun _ => ?_
      exact within_bind within_get fun _ => within_pure _

theorem registerFire_states (cfg : ReplyConfig) (runId : Uuid) (nowWall monoNow : Int) :
    Within SameStates (registerFire cfg runId nowWall monoNow) := by
  refine within_bind (within_modify fun _ => rfl) fun _ => ?_
  refine within_bind (onStore_states (orPanic_states _)) fun wall => ?_
  refine within_bind (onStore_states (orPanic_states _)) fun at_ => ?_
  exact within_bind (onBook_states _) fun _ => onBook_states _

section

variable [Calendar]

theorem createTimerTx_states (new : NewTimer) (now : Int) :
    Within (Same Store.runStates) (createTimerTx new now) := by
  unfold createTimerTx
  split
  · exact within_throw _
  · refine within_bind ?_ fun id => within_bind (orPanic_states _) fun p => ?_
    · cases new.id with
      | some id => exact within_pure id
      | none => exact within_modifyGet fun _ => rfl
    · intro s
      rw [wp_bind, wp_get]
      split <;> rfl

theorem updateTimerTx_states (update : TimerUpdate) (now : Int) :
    Within (Same Store.runStates) (updateTimerTx update now) := by
  intro s
  unfold updateTimerTx
  rw [wp_bind, wp_get]
  split
  · rfl
  · split
    · rfl
    · split
      · rfl
      · rw [wp_bind, wp_orPanic]
        exact ⟨fun _ _ => rfl, fun _ _ => rfl⟩

end

/-! ### The writers -/

/-- A relation on stores, seen from the reply engine. -/
def Through (K : Store → Store → Prop) (r r' : ReplyState) : Prop := K r.store r'.store

section

variable {K : Store → Store → Prop}

instance [Std.Refl K] : Std.Refl (Through K) := ⟨fun r => Std.Refl.refl (r := K) r.store⟩

instance [IsTrans Store K] : IsTrans ReplyState (Through K) :=
  ⟨fun _ _ _ h h' => IsTrans.trans (r := K) _ _ _ h h'⟩

theorem onStore_through {α : Type} {m : StoreM α} (h : Within K m) :
    Within (Through K) (onStore m) :=
  within_zoom (h.mono fun s s' hs t ht => by
    subst ht
    exact hs)

theorem through_discard {α : Type} [Std.Refl K] [IsTrans Store K] {m : ReplyM α}
    (h : Within (Through K) m) : Within (Through K) (do let _ ← m) :=
  within_bind h fun _ => within_pure _

theorem inTx_through {α : Type} [Std.Refl K] {m : ReplyM α} {r : ReplyState}
    (h : wp m (fun _ => Through K r) (fun _ => Through K r) r) :
    wp (inTx m) (fun _ => Through K r) (fun _ => Through K r) r := by
  rw [inTx, wp_transact]
  exact wp_mono h (fun _ _ h => h) fun _ _ _ => Std.Refl.refl (r := K) r.store

/-- Every writer of lifecycle rows is in `K`, replies apart. -/
structure RowWriters (K : Store → Store → Prop) : Prop where
  same : ∀ s s', Same Store.runStates s s' → K s s'
  opens : ∀ runId timerId appName kind firedAt deadline selected,
    Within K (insertRunStateConn ((RunStateRow.ofFire runId timerId appName (fireState kind)
      firedAt deadline).withTransport selected))
  closes : ∀ verdict message timer owner run utc, verdict = .superseded ∨ verdict = .cancelled →
    Within K (closeOpenRun verdict message timer owner run utc)
  delivers : ∀ runId transport, Within K (setRunTransport runId transport)
  acks : ∀ timer throughSequence nowWall,
    Within (Through K) (onAckThrough timer throughSequence nowWall)
  misses : ∀ timer runId nowWall, Within (Through K) (expirePickupOne timer runId nowWall)
  expires : ∀ timer runId nowWall monoNow,
    Within (Through K) (expireWatchdogOne timer runId nowWall monoNow)

/-- The part of a fire that is about the run it overtakes. -/
def overtake (cfg : FireConfig) (f : Firing) : ReplyM (Option Uuid) := do
  barrierIngest cfg f
  onStore (supersedePrevious f.timer f.owner f.prev f.utc)

namespace RowWriters

variable [Std.Refl K] [IsTrans Store K]

omit [Std.Refl K] [IsTrans Store K] in
theorem states {α : Type} (hK : RowWriters K) {m : StoreM α}
    (h : Within (Same Store.runStates) m) : Within K m :=
  h.mono hK.same

omit [Std.Refl K] [IsTrans Store K] in
theorem modify_states {α : Type} (hK : RowWriters K) {f : Store → α × Store}
    (h : ∀ s, (f s).2.runStates = s.runStates) : Within K (modifyGet f : StoreM α) :=
  hK.states (within_modifyGet h)

theorem openLifecycle (hK : RowWriters K) (cfg : FireConfig) (f : Firing) (claim : RunClaim) :
    Within K (openLifecycle cfg f claim) := by
  unfold Bellman.openLifecycle
  split
  · exact within_pure _
  · refine within_bind (hK.states (orPanic_states _)) fun deadline => ?_
    refine within_bind (hK.opens _ _ _ _ _ _ _) fun _ => within_bind within_get fun s => ?_
    dsimp only
    split
    · exact within_throw _
    · exact hK.states (within_modify fun _ => rfl)

/-- Overtaking a run, when the reply that the barrier found is in `K`. -/
theorem overtake (hK : RowWriters K) (cfg : FireConfig) (f : Firing) {r : ReplyState}
    (hreply : ∀ prev doc digest, f.prev = some prev → f.barrier = some (doc, digest) →
      wp (ingestAsCurrent cfg.reply f.timer doc digest prev.runId f.now f.monoNow f.utc)
        (fun _ => Through K r) (fun _ => Through K r) r) :
    wp (overtake cfg f) (fun _ => Through K r) (fun _ => Through K r) r := by
  have hbarrier : wp (barrierIngest cfg f) (fun _ => Through K r) (fun _ => Through K r) r := by
    unfold barrierIngest
    split
    · next prev doc digest hprev hbarrier =>
      rw [wp_bind]
      refine wp_mono (hreply prev doc digest hprev hbarrier) (fun outcome r₁ h₁ => ?_)
        fun _ _ h => h
      split
      · exact (onStore_through (hK.states (emit_states _ _ _ _))).wp
          (fun _ _ h => IsTrans.trans (r := K) _ _ _ h₁ h)
          fun _ _ h => IsTrans.trans (r := K) _ _ _ h₁ h
      · exact h₁
    · exact Std.Refl.refl (r := K) r.store
  unfold Bellman.overtake
  rw [wp_bind]
  refine wp_mono hbarrier (fun _ r₁ h₁ => ?_) fun _ _ h => h
  exact (onStore_through (hK.closes _ _ _ _ _ _ (.inl rfl))).wp
    (fun _ _ h => IsTrans.trans (r := K) _ _ _ h₁ h)
    fun _ _ h => IsTrans.trans (r := K) _ _ _ h₁ h

/-- What a fire does once it has overtaken the run before. -/
theorem afterOvertake (hK : RowWriters K) (cfg : FireConfig) (f : Firing)
    (superseded : Option Uuid) : Within (Through K) (do
      let claim ← onStore (claimRunConn f.timer.id f.scheduledFor f.utc)
      onStore (emit (fireState f.kind) f.utc (.ofRun f.timer claim) f.kind.note)
      let claim ← onStore (applyOverlapDisposition f.timer claim f.utc)
      onStore (Bellman.openLifecycle cfg f claim)
      return (claim, superseded)) := by
  refine within_bind (onStore_through (hK.states (claimRunConn_states _ _ _))) fun claim => ?_
  refine within_bind (onStore_through (hK.states (emit_states _ _ _ _))) fun _ => ?_
  refine within_bind (onStore_through (hK.states (applyOverlapDisposition_states _ _ _)))
    fun claim => ?_
  exact within_bind (onStore_through (hK.openLifecycle cfg f claim)) fun _ => within_pure _

/-- A fire, from what becomes of the run it overtakes. -/
theorem wp_fireTx (hK : RowWriters K) (cfg : FireConfig) (f : Firing) {r : ReplyState}
    {I : Store → Prop} (hI : ∀ s s', K s s' → I s → I s')
    (hover : wp (Bellman.overtake cfg f) (fun _ r' => I r'.store) (fun _ _ => True) r) :
    wp (Bellman.fireTx cfg f) (fun _ r' => I r'.store) (fun _ r' => r'.store = r.store) r := by
  unfold Bellman.overtake at hover
  rw [wp_bind] at hover
  unfold Bellman.fireTx
  rw [inTx, wp_transact, wp_bind]
  refine wp_mono hover (fun _ r₁ h₁ => ?_) fun _ _ _ => rfl
  rw [wp_bind]
  refine wp_mono h₁ (fun superseded r₂ h₂ => ?_) fun _ _ _ => rfl
  exact (hK.afterOvertake cfg f superseded).wp (fun _ _ h => hI _ _ h h₂) fun _ _ _ => rfl

/-- A fire, when what it does to the run it overtakes is in `K`. -/
theorem fireTx (hK : RowWriters K) (cfg : FireConfig) (f : Firing) {r : ReplyState}
    (hover : wp (Bellman.overtake cfg f) (fun _ => Through K r) (fun _ => Through K r) r) :
    wp (fireTx cfg f) (fun _ => Through K r) (fun _ => Through K r) r := by
  refine wp_mono (hK.wp_fireTx cfg f (fun _ _ h h₁ => IsTrans.trans (r := K) _ _ _ h₁ h)
    (wp_mono hover (fun _ _ h => h) fun _ _ _ => trivial)) (fun _ _ h => h) fun _ r' h => ?_
  show K r.store r'.store
  rw [h]
  exact Std.Refl.refl (r := K) r.store

theorem cancelOpenRun (hK : RowWriters K) (timer : Timer) (owner : Option String) (utc : Int) :
    Within K (cancelOpenRun timer owner utc) :=
  within_bind within_get fun _ => hK.closes _ _ _ _ _ _ (.inr rfl)

theorem deleteTimerLifecycle (hK : RowWriters K) (timer : Timer) (owner : Option String)
    (utc : Int) : Within K (deleteTimerLifecycle timer owner utc) := by
  refine within_atomically (within_bind (hK.cancelOpenRun timer owner utc) fun cancelled => ?_)
  refine within_bind (hK.modify_states fun _ => rfl) fun deleted => ?_
  refine within_bind (hK.states (within_modify fun _ => rfl)) fun _ => ?_
  refine within_bind (hK.states (within_modify fun _ => rfl)) fun _ => ?_
  exact within_bind (hK.states (within_modify fun _ => rfl)) fun _ => within_pure _

theorem slotDelete (hK : RowWriters K) (timerId : Uuid) (appName : String) (utc : Int) :
    Within K (slotDelete timerId appName utc) := by
  refine within_atomically (within_bind within_get fun s => ?_)
  split
  · refine within_bind (hK.cancelOpenRun _ _ utc) fun cancelled => ?_
    refine within_bind (hK.modify_states fun _ => rfl) fun existed => ?_
    refine within_bind (hK.states (within_modify fun _ => rfl)) fun _ => ?_
    exact within_bind (hK.states (within_modify fun _ => rfl)) fun _ => within_pure _
  · refine within_bind (hK.modify_states fun _ => rfl) fun existed => ?_
    refine within_bind (hK.states (within_modify fun _ => rfl)) fun _ => ?_
    exact within_bind (hK.states (within_modify fun _ => rfl)) fun _ => within_pure _

/-- **Every commit** relates the stores before and after it as its writers
do; a reply need only do so from the store that it meets. -/
theorem after [Calendar] (hK : RowWriters K) {cfg : FireConfig} {r : ReplyState} (c : Commit)
    (hingest : ∀ timer doc digest nowWall monoNow utc,
      c = .ingest timer doc digest nowWall monoNow utc →
      wp (ingestInner cfg.reply timer doc digest nowWall monoNow utc none)
        (fun _ => Through K r) (fun _ => Through K r) r)
    (hover : ∀ f, c = .fire f →
      wp (Bellman.overtake cfg f) (fun _ => Through K r) (fun _ => Through K r) r) :
    K r.store (c.after cfg r).store := by
  have hstate : ∀ {α : Type} {m : StoreM α}, Within (Same Store.runStates) m →
      Within (Through K) (onStore m) := fun h => onStore_through (hK.states h)
  have hmodify : ∀ {α : Type} {f : Store → α × Store}, (∀ s, (f s).2.runStates = s.runStates) →
      Within (Through K) (onStore (modifyGet f : StoreM α)) := fun h =>
    onStore_through (hK.modify_states h)
  have h : wp (c.prog cfg) (fun _ => Through K r) (fun _ => Through K r) r := by
    cases c with
    | createTimer new now => exact through_discard (hstate (createTimerTx_states new now)) r
    | updateTimer update now => exact through_discard (hstate (updateTimerTx_states update now)) r
    | deleteTimer id => exact through_discard (hmodify fun _ => rfl) r
    | deleteTimerLifecycle timer owner utc =>
      exact through_discard (onStore_through (hK.deleteTimerLifecycle timer owner utc)) r
    | slotDelete timerId appName utc =>
      exact through_discard (onStore_through (hK.slotDelete timerId appName utc)) r
    | setTimerOwner timerId appName =>
      exact hstate (m := Bellman.setTimerOwner timerId appName) (fun _ => rfl) r
    | clearTimerOwner timerId =>
      exact hstate (m := Bellman.clearTimerOwner timerId) (fun _ => rfl) r
    | ackRunEvents timerId throughSequence => exact through_discard (hmodify fun _ => rfl) r
    | claimRun timerId scheduledFor now =>
      exact through_discard (hstate (claimRunConn_states timerId scheduledFor now)) r
    | fire f =>
      rw [Commit.prog, wp_bind]
      exact hK.fireTx cfg f (hover f rfl)
    | activateRun runId =>
      refine through_discard (hstate (within_bind ?_ fun _ => within_pure _)) r
      exact within_modifyGet fun _ => rfl
    | rependRun runId => exact hstate (m := Bellman.rependRun runId) (fun _ => rfl) r
    | rependAllActive => exact through_discard (hmodify fun _ => rfl) r
    | finishClaim claim timerName e utc =>
      refine hstate (within_atomically (within_bind (finishRunConn_states _ _ _ _) fun _ => ?_)) r
      exact within_ite (fun _ => emit_states _ _ _ _) fun _ => within_pure _
    | finishRun how runId utc =>
      refine through_discard (hstate (within_bind (finishRunConn_states _ _ _ _) fun _ => ?_)) r
      refine within_ite (fun _ => within_bind within_get fun s => ?_) fun _ => within_throw _
      split
      · exact within_pure _
      · exact within_throw _
    | ingest timer doc digest nowWall monoNow utc =>
      rw [Commit.prog, wp_bind]
      exact inTx_through (hingest _ _ _ _ _ _ rfl)
    | ackThrough timer throughSequence nowWall =>
      exact through_discard (hK.acks timer throughSequence nowWall) r
    | expirePickup timer runId nowWall =>
      exact through_discard (hK.misses timer runId nowWall) r
    | expireWatchdog timer runId nowWall monoNow =>
      exact through_discard (hK.expires timer runId nowWall monoNow) r
    | registerFire runId nowWall monoNow =>
      exact ((registerFire_states cfg.reply runId nowWall monoNow).mono fun _ _ => hK.same _ _) r
    | setRunTransport runId transport => exact onStore_through (hK.delivers runId transport) r
    | logRejection timer runId reason utc => exact hstate (emit_states _ _ _ _) r
    | logNote kind loggedAt timer scheduledFor note => exact hstate (emit_states _ _ _ _) r
    | markEventPublished eventId =>
      exact hstate (m := Bellman.markEventPublished eventId) (fun _ => rfl) r
    | crash => exact Std.Refl.refl (r := K) r.store
  exact after_of_wp h

end RowWriters

end

end Bellman
