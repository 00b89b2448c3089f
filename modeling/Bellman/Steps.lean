/-
Bellman/Steps.lean

What the handling of a timer is made of.

A timer is handled by a long program, but it touches the state in few ways:
it asks the outside, pushes an entry, writes the row of the timer, claims a
slot, acts on a claim, prunes and logs.  A relation that each of these keeps
is kept by the whole handling (`HandlingSteps.handleDueTimer_within`), and with
three more steps by the passes of the loop (`LoopSteps`), so what the loop
never does is proved of ten steps.

The first such relation is that nothing is taken off the heap.
-/
import Bellman.Scheduler

namespace Bellman

open ProgramLogic Prog ReplyM

namespace Scheduler

/-- The relation is kept by each step that the handling of the timer makes. -/
structure HandlingSteps [Calendar] (h : Handling) (id : Uuid) (R : Scheduler → Scheduler → Prop) :
    Prop where
  ask : ∀ (s : Scheduler) asked, R s { s with asked }
  push : ∀ (s : Scheduler) (e : HeapEntry), R s { s with heap := e :: s.heap }
  update : ∀ (t : Timer) patch, t.id = id → Within R (onMemory (updateRow h t patch))
  claim : ∀ (t : Timer) scheduledFor kind, t.id = id →
    Within R (onMemory (claimSlot h t scheduledFor kind))
  act : ∀ env claim, Within R (onMemory (actOn h env claim))
  prune : ∀ env t, Within R (onMemory (prunePass h env t))
  skipped : ∀ t scheduledFor missed now reason,
    Within R (onMemory (logSkippedMisfire h t scheduledFor missed now reason))

section

variable {α β : Type}

theorem onMemory_bind (m : SchedM β) (f : β → SchedM α) :
    onMemory (m >>= f) = (onMemory m >>= fun b => onMemory (f b)) := by
  funext s
  show onMemory (m >>= f) s = (onMemory m >>= fun b => onMemory (f b)) s
  unfold onMemory zoom
  simp only [Bind.bind]
  rcases m s.memory with ⟨e | b, r⟩ <;> rfl

@[simp] theorem wp_onMemory_getTimer {id : Uuid} {s : Scheduler}
    {Q : Option Timer → Scheduler → Prop} {E : SchedulerError → Scheduler → Prop} :
    wp (onMemory (getTimer id)) Q E s = Q (s.memory.store.getTimer id) s := rfl

theorem wp_memory_bind {f : ReplyState → EngineM α} {s : Scheduler} {Q : α → Scheduler → Prop}
    {E : SchedulerError → Scheduler → Prop} :
    wp (onMemory get >>= f) Q E s = wp (f s.memory) Q E s := rfl

theorem id_of_getTimer {st : Store} {id : Uuid} {t : Timer} (h : st.getTimer id = some t) :
    t.id = id := by
  simpa using List.find?_some h

variable {R : Scheduler → Scheduler → Prop} {id : Uuid}

/-- The row that is read has the id. -/
theorem getTimer_bind_within {f : Option Timer → EngineM α} (hnone : Within R (f none))
    (hsome : ∀ t, t.id = id → Within R (f (some t))) :
    Within R (onMemory (getTimer id) >>= f) := by
  intro s
  rw [wp_bind, wp_onMemory_getTimer]
  cases hget : s.memory.store.getTimer id with
  | none => exact hnone s
  | some t => exact hsome t (id_of_getTimer hget) s

variable [Std.Refl R]

theorem orPanic_within (x : Except Panic α) : Within R (orPanic x) := by
  cases x with
  | ok a => exact within_pure a
  | error p => exact within_throw _

theorem memory_within : Within R (onMemory get) := fun s => Std.Refl.refl s

theorem requireTimer_bind_within {f : Timer → SchedM α}
    (hf : ∀ t, t.id = id → Within R (onMemory (f t))) :
    Within R (onMemory (requireTimer id >>= f)) := by
  intro s
  unfold requireTimer
  rw [onMemory_bind, onMemory_bind, wp_bind, wp_bind, wp_onMemory_getTimer]
  cases hget : s.memory.store.getTimer id with
  | none => exact Std.Refl.refl s
  | some t => exact hf t (id_of_getTimer hget) s

theorem orAbort_within (x : Except Panic α) : Within R (onMemory (orAbort x)) := by
  cases x with
  | ok a => exact fun s => Std.Refl.refl s
  | error p => exact fun s => Std.Refl.refl s

theorem orAbort_bind_within {x : Except Panic β} {f : β → SchedM α}
    (hf : ∀ b, Within R (onMemory (f b))) : Within R (onMemory (orAbort x >>= f)) := by
  rw [onMemory_bind]
  cases x with
  | ok b => exact hf b
  | error p => exact fun s => Std.Refl.refl s

end

namespace HandlingSteps

theorem mono [Calendar] {h : Handling} {id : Uuid} {R R' : Scheduler → Scheduler → Prop}
    (hR : HandlingSteps h id R) (hsub : ∀ s s', R s s' → R' s s') : HandlingSteps h id R' where
  ask s asked := hsub _ _ (hR.ask s asked)
  push s e := hsub _ _ (hR.push s e)
  update t patch ht := (hR.update t patch ht).mono hsub
  claim t scheduledFor kind ht := (hR.claim t scheduledFor kind ht).mono hsub
  act env claim := (hR.act env claim).mono hsub
  prune env t := (hR.prune env t).mono hsub
  skipped t scheduledFor missed now reason :=
    (hR.skipped t scheduledFor missed now reason).mono hsub

variable [Calendar] {o : Outside} {config : SchedulerConfig} {id : Uuid} {t : Timer}
  {R : Scheduler → Scheduler → Prop} (hR : HandlingSteps o.handling id R)

include hR

theorem ask_within {α : Type} (f : Nat → α) : Within R (Scheduler.ask f) :=
  within_modifyGet fun s => hR.ask s _

theorem push_within (e : HeapEntry) : Within R (Scheduler.push e) :=
  within_modify fun s => hR.push s e

variable [Std.Refl R] [IsTrans Scheduler R]

theorem pushIfInHorizon_within (fireAt : Int) (timerId : Uuid) :
    Within R (pushIfInHorizon o config fireAt timerId) := by
  refine within_bind (hR.ask_within _) fun now => getTimer_bind_within ?_ fun t _ => ?_
  all_goals
    refine within_bind (orPanic_within _) fun execAt => within_bind (orPanic_within _) fun ok => ?_
    exact within_ite (fun _ => hR.push_within _) fun _ => within_pure _

theorem requeueTimer_within (timerId : Uuid) : Within R (requeueTimer o config timerId) := by
  refine getTimer_bind_within (within_pure _) fun t _ => ?_
  dsimp only
  split
  · exact hR.pushIfInHorizon_within _ _
  · exact within_pure _

theorem advancePastNow_within (now : Int) : Within R (advancePastNow o config id now) := by
  refine within_bind (requireTimer_bind_within fun t ht => ?_) fun _ => hR.requeueTimer_within _
  exact orAbort_bind_within fun _ => orAbort_bind_within fun _ => hR.update t _ ht

theorem ensureAdvancedPast_within (scheduledFor wallNow : Int) :
    Within R (ensureAdvancedPast o config id scheduledFor wallNow) := by
  refine getTimer_bind_within (within_pure _) fun t ht => ?_
  dsimp only
  split
  · exact hR.pushIfInHorizon_within _ _
  · refine within_bind (hR.update t _ ht) fun _ =>
      getTimer_bind_within (within_pure _) fun t _ => ?_
    exact within_ite (fun _ => hR.advancePastNow_within _) fun _ => hR.requeueTimer_within _

theorem actAndClose_within (ht : t.id = id) (claim : RunClaim) (kind : FireKind) :
    Within R (actAndClose o config t claim kind) := by
  subst ht
  have hmark : ∀ k : EngineM (Option DeliveredFire), Within R k → Within R (do
      onMemory (prunePass o.handling (o.handling.delivery claim.scheduledFor) t)
      let fresh ← onMemory (getTimer t.id)
      if fresh.any fun t => t.lastFired.all (· < claim.scheduledFor) then
        onMemory (markFired o.handling t.id claim.scheduledFor)
      else requeueTimer o config t.id
      k) := by
    intro k hk
    have hmarked : Within R (onMemory (markFired o.handling t.id claim.scheduledFor)) :=
      requireTimer_bind_within fun t' ht' => hR.update t' _ ht'
    refine within_bind (hR.prune _ _) fun _ => getTimer_bind_within ?_ fun fresh _ => ?_
    all_goals
      dsimp only
      split
      · exact within_bind hmarked fun _ => hk
      · exact within_bind (hR.requeueTimer_within _) fun _ => hk
  refine within_ite (fun _ => ?_) fun _ => within_ite (fun _ => hmark _ (within_pure _)) fun _ => ?_
  · exact within_bind (hR.ensureAdvancedPast_within _ _) fun _ => within_pure _
  · refine within_bind (hR.act _ _) fun err => hmark _ ?_
    cases err with
    | none => exact within_pure _
    | some e => exact within_throw _

theorem armPickup_within (claim : RunClaim) : Within R (armPickup config claim) :=
  within_bind memory_within fun _ => within_ite
    (fun _ => within_bind (orPanic_within _) fun _ => hR.push_within _) fun _ => within_pure _

theorem deliverOne_within (ht : t.id = id) (scheduledFor : Int) (kind : FireKind) :
    Within R (deliverOne o config t scheduledFor kind) := by
  subst ht
  refine within_bind (hR.claim t _ _ rfl) fun out => ?_
  cases out with
  | new claim =>
    exact within_ite
      (fun _ => within_bind (hR.armPickup_within _) fun _ => hR.actAndClose_within rfl _ _)
      fun _ => hR.actAndClose_within rfl _ _
  | taken =>
    refine within_bind memory_within fun r => ?_
    split
    · refine within_ite (fun _ => hR.actAndClose_within rfl _ _) fun _ => ?_
      exact within_bind (hR.ensureAdvancedPast_within _ _) fun _ => within_pure _
    · exact within_throw _

theorem catchUpLoop_within (now grace : Int) (maxCatchUp fuel : Nat) (scheduled : Int)
    (index : Nat) (delivered : List DeliveredFire) :
    Within R (catchUpLoop o config id now grace maxCatchUp fuel scheduled index delivered) := by
  induction fuel generalizing scheduled index delivered with
  | zero => exact within_pure _
  | succ fuel ih =>
    refine within_ite (fun _ => within_pure _) fun _ => within_ite (fun _ => ?_) fun _ => ?_
    · refine within_bind (requireTimer_bind_within fun t ht => hR.update t _ ht) fun _ =>
        getTimer_bind_within (within_pure _) fun t _ => ?_
      dsimp only
      cases t.nextFireUtc with
      | none => exact within_pure _
      | some nf => exact within_ite (fun _ => ih _ _ _) fun _ => within_pure _
    · refine getTimer_bind_within (within_pure _) fun timerNow ht => ?_
      refine within_bind (hR.deliverOne_within ht _ _) fun d =>
        getTimer_bind_within (within_pure _) fun t _ => ?_
      dsimp only
      cases t.nextFireUtc with
      | none => exact within_pure _
      | some nf =>
        refine within_ite (fun _ => ?_) fun _ => ih _ _ _
        exact within_bind (hR.pushIfInHorizon_within _ _) fun _ => within_pure _

/-- **The handling of a timer** keeps what its steps keep. -/
theorem handleDueTimer_within (now : Int) : Within R (handleDueTimer o config id now) := by
  refine getTimer_bind_within (within_pure _) fun t ht => ?_
  subst ht
  refine within_ite (fun _ => within_pure _) fun _ => ?_
  split
  · exact within_pure _
  refine within_ite (fun _ => ?_) fun _ => ?_
  · exact within_bind (hR.pushIfInHorizon_within _ _) fun _ => within_pure _
  cases t.misfire with
  | skip =>
    refine within_ite (fun _ => ?_) fun _ => within_bind (orAbort_within _) fun walk => ?_
    · exact within_bind (hR.deliverOne_within rfl _ _) fun d =>
        within_bind (hR.requeueTimer_within _) fun _ => within_pure _
    · exact within_bind (hR.skipped _ _ _ _ _) fun _ =>
        within_bind (hR.advancePastNow_within _) fun _ => within_pure _
  | coalesce _ =>
    refine within_bind (orAbort_within _) fun walk => ?_
    dsimp only
    split
    · exact within_bind (hR.skipped _ _ _ _ _) fun _ =>
        within_bind (hR.advancePastNow_within _) fun _ => within_pure _
    · exact within_bind (hR.deliverOne_within rfl _ _) fun d =>
        within_bind (hR.advancePastNow_within _) fun _ => within_pure _
  | catchUp graceSecs maxCatchUp =>
    refine within_bind (hR.catchUpLoop_within _ _ _ _ _ _ _) fun delivered =>
      getTimer_bind_within (within_pure _) fun t' _ => ?_
    refine within_ite (fun _ => ?_) fun _ => ?_
    · exact within_bind (hR.advancePastNow_within _) fun _ => within_pure _
    · exact within_bind (hR.requeueTimer_within _) fun _ => within_pure _

end HandlingSteps

/-! ### Deadlines -/

section

variable {o : Outside} {R : Scheduler → Scheduler → Prop} [Std.Refl R] [IsTrans Scheduler R]

theorem handleDueDeadline_within (hask : ∀ (s : Scheduler) asked, R s { s with asked })
    (hpush : ∀ (s : Scheduler) (e : HeapEntry), R s { s with heap := e :: s.heap })
    {runId : Uuid} {kind : DeadlineKind} {now : Int}
    (hexpire : ∀ timer monoNow, Within R (expireOne o timer runId kind now monoNow)) :
    Within R (handleDueDeadline o runId kind now) := by
  refine within_ite (fun _ => within_pure _) fun _ => within_bind memory_within fun r => ?_
  dsimp only
  split
  · exact within_pure _
  · refine within_bind (within_modifyGet fun s => hask s _) fun monoNow => ?_
    refine within_ite (fun _ => ?_) fun _ => within_bind memory_within fun r => ?_
    · exact within_bind (orPanic_within _) fun _ => within_modify fun s => hpush s _
    · split
      · exact within_pure _
      · exact getTimer_bind_within (within_pure _) fun t _ => hexpire t monoNow

end

/-! ### The passes of the loop -/

/-- The relation is kept by each step of the passes that handle timers. -/
structure LoopSteps [Calendar] (o : Outside) (R : Scheduler → Scheduler → Prop) : Prop where
  handling : ∀ id, HandlingSteps o.handling id R
  heap : ∀ (s : Scheduler) heap, R s { s with heap }
  expire : ∀ timer runId kind now monoNow, Within R (expireOne o timer runId kind now monoNow)
  orphan : ∀ runId,
    Within R (onMemory (onRows (Prog.attempt (atomically (failRun runId o.handling.utc)))))

namespace LoopSteps

variable [Calendar] {o : Outside} {config : SchedulerConfig} {R : Scheduler → Scheduler → Prop}
  (hR : LoopSteps o R)

include hR

theorem ask_within {α : Type} (f : Nat → α) : Within R (Scheduler.ask f) :=
  (hR.handling ⟨0⟩).ask_within f

theorem push_within (e : HeapEntry) : Within R (Scheduler.push e) :=
  within_modify fun s => hR.heap s _

variable [Std.Refl R] [IsTrans Scheduler R]

theorem misfirePass_within : Within R (misfirePass o config) := by
  have hover : ∀ now timers, Within R (misfirePassOver o config now timers) := by
    intro now timers
    induction timers with
    | nil => exact within_pure _
    | cons t timers ih =>
      refine within_ite (fun _ => ?_) fun _ => ih
      exact within_bind ((hR.handling t.id).handleDueTimer_within now) fun _ =>
        within_bind ih fun _ => within_pure _
  exact within_bind (hR.ask_within _) fun _ => within_bind memory_within fun _ => hover _ _

theorem recoverPendingClaims_within : Within R (recoverPendingClaims o config) := by
  have hclaims : ∀ claims, Within R (recoverClaims o config claims) := by
    intro claims
    induction claims with
    | nil => exact within_pure _
    | cons claim claims ih =>
      refine getTimer_bind_within ?_ fun t ht => ?_
      · exact within_bind (hR.orphan claim.runId) fun _ => ih
      · refine within_bind (hR.ask_within _) fun now => ?_
        refine within_bind ((hR.handling t.id).actAndClose_within rfl _ _) fun d => ?_
        exact within_bind ih fun _ => within_pure _
  exact within_ite (fun _ => within_pure _) fun _ => within_bind memory_within fun _ => hclaims _

theorem dueDeadline_within (runId : Uuid) (kind : DeadlineKind) (now : Int) :
    Within R (handleDueDeadline o runId kind now) :=
  handleDueDeadline_within (hR.handling ⟨0⟩).ask (fun s _ => hR.heap s _) fun timer monoNow =>
    hR.expire timer runId kind now monoNow

theorem drainLoop_within (now : Int) (fuel : Nat) (resolved : List Uuid) :
    Within R (drainLoop o config now fuel resolved) := by
  have hentry : ∀ resolved e, Within R (drainEntry o config now resolved e) := by
    intro resolved e
    cases e with
    | deadline wallAt runId kind =>
      exact within_bind (hR.dueDeadline_within _ _ _) fun _ => within_pure _
    | fire execAt id =>
      refine within_ite (fun _ => within_pure _) fun _ =>
        getTimer_bind_within (within_pure _) fun t _ => ?_
      dsimp only
      split
      · refine within_bind (orPanic_within _) fun execAt => within_ite (fun _ => ?_) fun _ =>
          within_ite (fun _ => ?_) fun _ => ?_
        · exact within_bind (hR.push_within _) fun _ => within_pure _
        · exact within_bind (hR.push_within _) fun _ => within_pure _
        · exact within_bind ((hR.handling t.id).handleDueTimer_within now) fun _ =>
            within_pure _
      · exact within_pure _
  induction fuel generalizing resolved with
  | zero => exact within_pure _
  | succ fuel ih =>
    intro s
    unfold drainLoop
    rw [wp_bind, wp_get]
    split
    · exact Std.Refl.refl s
    · next entry rest _ =>
      split
      · exact Std.Refl.refl s
      · rw [wp_bind, wp_set]
        have hnext : Within R (do
            let out ← drainEntry o config now resolved entry
            return out.1 ++ (← drainLoop o config now fuel out.2)) :=
          within_bind (hentry resolved entry) fun out => within_bind (ih out.2) fun _ =>
            within_pure _
        -- The entry has been taken off the heap before.
        exact wp_mono (hnext { s with heap := rest })
          (fun _ _ h => IsTrans.trans _ _ _ (hR.heap s rest) h)
          fun _ _ h => IsTrans.trans _ _ _ (hR.heap s rest) h

end LoopSteps

/-! ### Relations of the memory -/

/-- The relation, of the store and the deadline book. -/
def OnMemory (R : ReplyState → ReplyState → Prop) (s s' : Scheduler) : Prop := R s.memory s'.memory

section

variable {R : ReplyState → ReplyState → Prop}

instance [Std.Refl R] : Std.Refl (OnMemory R) := ⟨fun s => Std.Refl.refl s.memory⟩

instance [IsTrans ReplyState R] : IsTrans Scheduler (OnMemory R) :=
  ⟨fun s s' s'' h h' => IsTrans.trans s.memory s'.memory s''.memory h h'⟩

theorem onMemory_within {α : Type} {m : SchedM α} (hm : Within R m) :
    Within (OnMemory R) (onMemory m) := by
  refine within_zoom (hm.mono fun r r' h s hs => ?_)
  subst hs
  exact h

/-- A relation that the steps on the memory keep. -/
theorem memory_steps [Calendar] [Std.Refl R] {h : Handling} {id : Uuid}
    (update : ∀ (t : Timer) patch, t.id = id → Within R (updateRow h t patch))
    (claim : ∀ (t : Timer) scheduledFor kind, t.id = id →
      Within R (claimSlot h t scheduledFor kind))
    (act : ∀ env claim, Within R (actOn h env claim))
    (prune : ∀ env t, Within R (prunePass h env t))
    (skipped : ∀ t scheduledFor missed now reason,
      Within R (logSkippedMisfire h t scheduledFor missed now reason)) :
    HandlingSteps h id (OnMemory R) where
  ask s _ := Std.Refl.refl s.memory
  push s _ := Std.Refl.refl s.memory
  update t patch ht := onMemory_within (update t patch ht)
  claim t scheduledFor kind ht := onMemory_within (claim t scheduledFor kind ht)
  act env claim := onMemory_within (act env claim)
  prune env t := onMemory_within (prune env t)
  skipped t scheduledFor missed now reason :=
    onMemory_within (skipped t scheduledFor missed now reason)

theorem expireOne_within [Std.Refl R] [IsTrans ReplyState R] {o : Outside} {timer : Timer}
    {runId : Uuid} {now monoNow : Int} (hpickup : Within R (expirePickupOne timer runId now))
    (hwatchdog : Within R (expireWatchdogOne timer runId now monoNow)) (kind : DeadlineKind) :
    Within (OnMemory R) (expireOne o timer runId kind now monoNow) := by
  unfold expireOne
  split
  · exact within_throw _
  · refine within_bind (onMemory_within (within_mapError ?_)) fun out => ?_
    · cases kind with
      | pickup => exact hpickup
      | watchdog => exact hwatchdog
    · split
      · exact within_throw _
      · exact within_pure _

end

/-! ### Nothing is taken off the heap -/

/-- What was on the heap is still there. -/
def HeapGrows (s s' : Scheduler) : Prop := s.heap ⊆ s'.heap

instance : Std.Refl HeapGrows := ⟨fun s => List.Subset.refl s.heap⟩

instance : IsTrans Scheduler HeapGrows := ⟨fun _ _ _ h h' => List.Subset.trans h h'⟩

theorem onMemory_grows {α : Type} (m : SchedM α) : Within HeapGrows (onMemory m) := by
  intro s
  unfold onMemory
  rw [wp_zoom, wp_iff]
  exact ⟨fun _ _ _ => List.Subset.refl s.heap, fun _ _ _ => List.Subset.refl s.heap⟩

theorem handleDueDeadline_grows {o : Outside} (runId : Uuid) (kind : DeadlineKind) (now : Int) :
    Within HeapGrows (handleDueDeadline o runId kind now) := by
  refine handleDueDeadline_within (fun s _ => List.Subset.refl s.heap)
    (fun s e => List.subset_cons_self e s.heap) fun timer monoNow => ?_
  unfold expireOne
  split
  · exact within_throw _
  · refine within_bind (onMemory_grows _) fun out => ?_
    split
    · exact within_throw _
    · exact within_pure _

theorem heapGrows_steps [Calendar] (h : Handling) (id : Uuid) : HandlingSteps h id HeapGrows where
  ask s _ := List.Subset.refl s.heap
  push s e := List.subset_cons_self e s.heap
  update _ _ _ := onMemory_grows _
  claim _ _ _ _ := onMemory_grows _
  act _ _ := onMemory_grows _
  prune _ _ := onMemory_grows _
  skipped _ _ _ _ _ := onMemory_grows _

end Scheduler

end Bellman
