/-
Bellman/Deletes.lean

The three ways a timer is deleted.

The command line deletes a timer together with its lifecycle, an app asks
for it through a slot, and the pruner takes out the one-shots that have had
their day.  The first two cancel the current run when it is open, and take
out the owner and the ack cursor; the pruner takes out the owner, and puts
down a tombstone.

                         lifecycle   slot   pruner
    timer, owner             x        x       x
    open run, cursor         x        x
    delivery records         x

No path touches a claim: one that is unfinished is finished by the
dispatcher when it finds no timer.  And none takes out a run state: rows are
closed, and stay.

Main results: the first two paths leave the same rows, and so does the
pruner where there was nothing open, as far as the table above goes
(`delete_paths_agree`); on one store the three paths leave run states,
claims, delivery records, a cursor and an open row behind
(`deletes_leave_rows`).
-/
import Bellman.SlotLedger
import Bellman.Story

namespace Bellman

open ProgramLogic Prog ReplyM

/-! ### The pruner -/

/-- The internal timer of the weekly prune job. -/
def SYSTEM_PRUNE_NAME : String := "system.prune"

def SYSTEM_PRUNE_TAG : String := "system"

/-- `00000000-0000-4000-8000-000000000001`. -/
def SYSTEM_PRUNE_ID : Uuid := ⟨0x40008000000000000001⟩

/-- `is_system_prune_timer`. -/
def Timer.isSystemPrune (timer : Timer) : Bool :=
  timer.id == SYSTEM_PRUNE_ID ||
    (timer.name == SYSTEM_PRUNE_NAME && timer.tags.any (· == SYSTEM_PRUNE_TAG))

/-- `is_terminal_oneshot`. -/
def Timer.isTerminalOneshot (timer : Timer) (s : Store) (now : Int) (ackGrace : Nat) :
    Except Panic Bool :=
  match timer.occurrence.kind with
  | .once .. =>
    if (s.runsForTimer timer.id).any (·.isUnfinished) then .ok false
    else if timer.nextFireUtc.any (now < ·) then .ok false
    else
      let fired := timer.lastFired.isSome && timer.nextFireUtc.isNone
      let pastValidity :=
        timer.validUntil.any (· ≤ now) || timer.occurrence.validUntil.any (· ≤ now)
      let skippedExhausted := timer.nextFireUtc.isNone && (pastValidity || !timer.enabled)
      -- An overdue one-shot that was never claimed is pending.
      if !fired && !skippedExhausted && !pastValidity then .ok false
      else do
        let terminalAt :=
          ((timer.lastFired.or timer.validUntil).or timer.occurrence.validUntil).getD now
        let graceOver ← wallAdd terminalAt ((fromStd ackGrace).getD (secs 60))
        return !(now < graceOver)
  | _ => .ok false

/-- What `run_prune` does with one candidate; whether it was pruned. -/
def pruneOneshot (now : Int) (ackGrace : Nat) (timer : Timer) : StoreM Bool := do
  if timer.isSystemPrune then return false
  else if !(← orPanic (timer.isTerminalOneshot (← get) now ackGrace)) then return false
  else if ← deleteTimer timer.id then
    clearTimerOwner timer.id
    emit .pruned now { timerId := some timer.id, timerName := some timer.name }
      { message := some "elapsed_oneshot"
        detail := some (.obj [("reason", .str "terminal_oneshot"),
          ("ack_grace_secs", .num (ackGrace / NS))]) }
    return true
  else return false

/-- The candidates of `run_prune`, one after another; the ids of the pruned
timers. -/
def pruneAll (now : Int) (ackGrace : Nat) : List Timer → StoreM (List Uuid)
  | [] => return []
  | timer :: timers => do
    let pruned ← pruneOneshot now ackGrace timer
    let ids ← pruneAll now ackGrace timers
    return if pruned then timer.id :: ids else ids

/-- The timers that `run_prune` takes out. -/
def pruneOneshots (now : Int) (ackGrace : Nat) : StoreM (List Uuid) := do
  let candidates := (← get).listTimers
  pruneAll now ackGrace candidates

/-! ### The cancellation of a run -/

/-- The current run of a timer, if it is unresolved. -/
def Store.openRun (s : Store) (timerId : Uuid) (owner : Option String) : Option RunClaim :=
  (s.runsForTimer timerId).getLast?.filter (s.isUnresolved owner)

/-- What is owed to the run of a timer that goes away: exactly one event, and
the end of its lifecycle, if it is open; nothing to any other run. -/
structure Cancels (timer : Timer) (owner : Option String) (s s' : Store) : Prop where
  states : ∀ run, s'.getRunState run =
    if (s.openRun timer.id owner).any (·.runId == run) then
      (s.getRunState run).map (·.closed .cancelled)
    else s.getRunState run
  events : ∃ evs, s'.eventOutbox = s.eventOutbox ++ evs ∧
    evs.map (fun e => (e.kind, e.runId, e.timerId)) =
      (s.openRun timer.id owner).toList.map fun claim =>
        (.cancelled, some claim.runId, some timer.id)

theorem Cancels.of_resolved {timer : Timer} {owner : Option String} {s s' : Store}
    (h : s.openRun timer.id owner = none) (hs : s'.runStates = s.runStates)
    (he : s'.eventOutbox = s.eventOutbox) : Cancels timer owner s s' := by
  refine ⟨fun run => ?_, [], by rw [he, List.append_nil], ?_⟩
  · rw [h]
    exact getRunState_congr hs run
  · rw [h]
    rfl

/-- `cancel_open_run` gives the current run what it is owed. -/
theorem cancelOpenRun_cancels {timer : Timer} {owner : Option String} {utc : Int}
    {s : Store} (hs : s.Wf) :
    wp (cancelOpenRun timer owner utc)
      (fun out s' => out = (s.openRun timer.id owner).map (·.runId) ∧
        Cancelled timer.id s s' ∧ Cancels timer owner s s') (fun _ _ => False) s := by
  unfold cancelOpenRun closeOpenRun
  rw [wp_bind, wp_get]
  dsimp only
  split
  · next hlast =>
    have hnone : s.openRun timer.id owner = none := by
      unfold Store.openRun
      rw [hlast]
      rfl
    exact ⟨by rw [hnone]; rfl, .refl timer.id s, .of_resolved hnone rfl rfl⟩
  · next claim hlast =>
    rw [wp_bind, wp_get]
    split
    · next hun =>
      have hopen : s.openRun timer.id owner = some claim := by
        unfold Store.openRun
        rw [hlast, Option.filter_some, if_pos hun]
      rw [wp_bind, wp_emit hs]
      have hout : some claim.runId = (s.openRun timer.id owner).map (·.runId) := by
        rw [hopen]
        rfl
      cases hrow : s.getRunState claim.runId with
      | none =>
        refine ⟨hout, ⟨rfl, rfl, rfl, rfl, rfl, rfl⟩, fun run => ?_, [_], rfl, ?_⟩
        · show s.getRunState run = _
          rw [hopen]
          split
          · next h =>
            obtain rfl : claim.runId = run := by simpa using h
            rw [hrow]
            rfl
          · rfl
        · rw [hopen]
          rfl
      | some row =>
        dsimp only
        rw [wp_bind, wp_updateRunStateConn, wp_pure]
        have hid : row.runId = claim.runId := (getRunState_mem hrow).2
        refine ⟨hout, ⟨rfl, rfl, rfl, rfl, rfl, rfl⟩, fun run => ?_, [_], rfl, ?_⟩
        · show (s.wrote (row.closed .cancelled)).getRunState run = _
          rw [hopen]
          by_cases h : run = claim.runId
          · subst h
            rw [Store.getRunState_wrote_self hrow (row.sameRun_closed .cancelled)]
            simp [hrow]
          · have hne : run ≠ (row.closed .cancelled).runId := fun h' => h (h'.trans hid)
            rw [Store.getRunState_wrote_of_ne hne, if_neg (by simpa using Ne.symm h)]
        · rw [hopen]
          rfl
    · next hun =>
      have hnone : s.openRun timer.id owner = none := by
        unfold Store.openRun
        rw [hlast, Option.filter_some, if_neg hun]
      exact ⟨by rw [hnone]; rfl, .refl timer.id s, .of_resolved hnone rfl rfl⟩

theorem wp_deleteTimer {id : Uuid} {Q : Bool → Store → Prop} {E : Abort → Store → Prop}
    {s : Store} : wp (deleteTimer id) Q E s =
      Q (s.getTimer id).isSome { s with timers := s.timers.filter fun t => t.id ≠ id } := rfl

theorem wp_clearTimerOwner {id : Uuid} {Q : Unit → Store → Prop} {E : Abort → Store → Prop}
    {s : Store} : wp (clearTimerOwner id) Q E s =
      Q () { s with timerOwners := s.timerOwners.filter fun o => o.1 ≠ id } := rfl

/-! ### What each path leaves -/

/-- What is left of a timer that was deleted with its lifecycle, apart from
the delivery records. -/
structure Deleted (timer : Timer) (owner : Option String) (s s' : Store) : Prop
    extends Cancels timer owner s s' where
  timers : s'.timers = s.timers.filter fun t => t.id ≠ timer.id
  owners : ∀ t, s'.getTimerOwner t = if t = timer.id then none else s.getTimerOwner t
  cursors : ∀ t, s'.ackCursor t = if t = timer.id then none else s.ackCursor t
  runs : s'.runs = s.runs

/-- The delivery records of the timer are gone, and the cursors of targets
that have none left. -/
structure Unshipped (timerId : Uuid) (s s' : Store) : Prop where
  projections : s'.transportProjections = s.transportProjections.filter fun p =>
    p.timerId ≠ timerId
  cursors : s'.targetCursors = s.targetCursors.filter fun c =>
    s'.transportProjections.any (·.targetPath == c.1)

section

variable {timer : Timer} {owner : Option String} {utc : Int} {s s₁ s' : Store}

theorem Deleted.of_forgotten (hc : Cancelled timer.id s s₁) (hrun : Cancels timer owner s s₁)
    (h : s' = { s₁.forgotten timer.id with
      transportProjections := s'.transportProjections, targetCursors := s'.targetCursors }) :
    Deleted timer owner s s' := by
  rw [h]
  refine ⟨⟨hrun.states, hrun.events⟩, ?_, fun t => ?_, fun t => ?_, hc.runs⟩
  · show s₁.timers.filter _ = _
    rw [hc.timers]
  · show (s₁.forgotten timer.id).getTimerOwner t = _
    rw [Store.getTimerOwner_forgotten]
    unfold Store.getTimerOwner
    rw [hc.timerOwners]
  · show (s₁.forgotten timer.id).ackCursor t = _
    rw [Store.ackCursor_forgotten]
    unfold Store.ackCursor
    rw [hc.slotEventAcks]

theorem Cancelled.getTimer (hc : Cancelled timer.id s s₁) (t : Uuid) :
    s₁.getTimer t = s.getTimer t := by
  unfold Store.getTimer
  rw [hc.timers]

/-- The command line's delete. -/
theorem deleteTimerLifecycle_deleted (hs : s.Wf) (ht : s.getTimer timer.id = some timer) :
    wp (deleteTimerLifecycle timer owner utc)
      (fun out s' => out = (true, (s.openRun timer.id owner).isSome) ∧
        Deleted timer owner s s' ∧ Unshipped timer.id s s') (fun _ _ => False) s := by
  unfold deleteTimerLifecycle
  rw [wp_atomically, wp_bind]
  refine wp_mono (cancelOpenRun_cancels hs) (fun out s₁ h => ?_) fun _ _ h => h
  obtain ⟨rfl, hc, hrun⟩ := h
  simp only [wp_bind, wp_pure, deleteTimer, clearTimerOwner, pruneTransportForTimer, wp_modifyGet,
    wp_modify]
  refine ⟨?_, .of_forgotten hc hrun rfl, ?_, ?_⟩
  · rw [Option.isSome_map, hc.getTimer, ht]
    rfl
  · exact congrArg _ hc.transportProjections
  · exact congrArg _ hc.targetCursors

/-- The delete branch of a request. -/
theorem slotDelete_deleted {appName : String} (hs : s.Wf)
    (ht : s.getTimer timer.id = some timer) :
    wp (slotDelete timer.id appName utc)
      (fun existed s' => existed = true ∧ Deleted timer (some appName) s s')
      (fun _ _ => False) s := by
  unfold slotDelete
  rw [wp_atomically, wp_bind, wp_get, ht]
  dsimp only
  rw [wp_bind]
  refine wp_mono (cancelOpenRun_cancels hs) (fun out s₁ h => ?_) fun _ _ h => h
  obtain ⟨-, hc, hrun⟩ := h
  simp only [wp_bind, wp_pure, deleteTimer, clearTimerOwner, wp_modifyGet, wp_modify]
  refine ⟨?_, .of_forgotten hc hrun rfl⟩
  rw [hc.getTimer, ht]
  rfl

/-- An ack that goes first is forgotten with the timer. -/
theorem Deleted.of_acked {n : Nat} (h : Deleted timer owner (s.ackedThrough timer.id n) s') :
    Deleted timer owner s s' where
  states := h.states
  events := h.events
  timers := h.timers
  owners := h.owners
  cursors t := by
    rw [h.cursors, Store.ackCursor_ackedThrough]
    split <;> rfl
  runs := h.runs

/-- The same rows, apart from the delivery records; events are told apart by
what they report. -/
structure SameRemains (s s' : Store) : Prop where
  timers : s'.timers = s.timers
  owners : ∀ t, s'.getTimerOwner t = s.getTimerOwner t
  cursors : ∀ t, s'.ackCursor t = s.ackCursor t
  runs : s'.runs = s.runs
  states : ∀ run, s'.getRunState run = s.getRunState run
  events : s'.eventOutbox.map (fun e => (e.kind, e.runId, e.timerId)) =
    s.eventOutbox.map fun e => (e.kind, e.runId, e.timerId)

theorem Deleted.agree {s₂ : Store} (h₁ : Deleted timer owner s s₁)
    (h₂ : Deleted timer owner s s₂) : SameRemains s₁ s₂ where
  timers := h₂.timers.trans h₁.timers.symm
  owners t := (h₂.owners t).trans (h₁.owners t).symm
  cursors t := (h₂.cursors t).trans (h₁.cursors t).symm
  runs := h₂.runs.trans h₁.runs.symm
  states run := (h₂.states run).trans (h₁.states run).symm
  events := by
    obtain ⟨evs₁, he₁, hk₁⟩ := h₁.events
    obtain ⟨evs₂, he₂, hk₂⟩ := h₂.events
    rw [he₁, he₂, List.map_append, List.map_append, hk₁, hk₂]

section Request

variable [Wire] [Calendar] {req : SlotRequest} {requestId : String} {maxEvents : Nat} {now : Int}
  {payload : SlotPayload} {appName : String}

/-- A delete request of the owner. -/
theorem respond_deleted (hs : s.Wf) (ht : s.getTimer timer.id = some timer)
    (hopen : req.open? = .ok (payload, appName)) (hid : payload.resolvedTimerId = some timer.id)
    (hown : s.getTimerOwner timer.id = some appName) :
    wp (respond req .delete requestId maxEvents now)
      (fun response s' => response.status = .ok ∧ Deleted timer (some appName) s s')
      (fun _ _ => False) s := by
  have hremove : ∀ s₁ : Store, s₁.Wf → s₁.getTimer timer.id = some timer →
      s₁.getTimerOwner timer.id = some appName →
      (∀ s', Deleted timer (some appName) s₁ s' → Deleted timer (some appName) s s') →
      wp (removeTimer payload appName req.slotId requestId maxEvents now)
        (fun response s' => response.status = .ok ∧ Deleted timer (some appName) s s')
        (fun _ _ => False) s₁ := by
    intro s₁ hs₁ ht₁ hown₁ hback
    unfold removeTimer
    rw [hid]
    dsimp only
    rw [wp_bind]
    refine wp_checkOwnership (fun _ => ?_) fun hne => absurd hown₁ hne
    rw [wp_bind, wp_get, wp_bind, wp_onTables]
    refine wp_mono (slotDelete_deleted hs₁ ht₁) (fun existed s' h => ?_) fun _ _ h => h
    obtain ⟨rfl, hd⟩ := h
    exact ⟨rfl, hback s' hd⟩
  apply wp_respond
  have hcarry : wp (applyRequestTx req .delete requestId maxEvents now)
      (fun response s' => response.status = .ok ∧ Deleted timer (some appName) s s')
      (fun _ _ => False) s := by
    unfold applyRequestTx
    rw [wp_bind, wp_orInvalid]
    refine ⟨fun opened h => ?_, fun m h => ?_⟩
    · obtain rfl : (payload, appName) = opened := Except.ok.inj (hopen.symm.trans h)
      dsimp only
      rw [wp_bind]
      apply wp_advanceAck
      · exact fun _ => hremove s hs ht hown fun _ h => h
      · intro ack timerId _ hid' _
        obtain rfl : timer.id = timerId := Option.some.inj (hid.symm.trans hid')
        refine hremove _ (hs.congr rfl rfl rfl) ?_ ?_ fun _ h => h.of_acked
        · rwa [Store.getTimer_ackedThrough]
        · rwa [Store.getTimerOwner_ackedThrough]
      · intro timerId hid' hne
        obtain rfl : timer.id = timerId := Option.some.inj (hid.symm.trans hid')
        exact absurd hown hne
    · rw [hopen] at h
      cases h
  exact wp_mono hcarry (fun _ _ h => h) fun _ _ h => h.elim

end Request

/-! ### The pruner's pass -/

/-- What a pass of the pruner leaves, when it has taken out the timers
`ids`. -/
structure Pruned (ids : List Uuid) (s s' : Store) : Prop where
  wf : s'.Wf
  timers : ∀ t, s'.getTimer t = if t ∈ ids then none else s.getTimer t
  owners : ∀ t, s'.getTimerOwner t = if t ∈ ids then none else s.getTimerOwner t
  runs : s'.runs = s.runs
  runStates : s'.runStates = s.runStates
  events : ∃ evs, s'.eventOutbox = s.eventOutbox ++ evs ∧
    evs.map (fun e => (e.kind, e.runId, e.timerId)) = ids.map fun t => (.pruned, none, some t)
  live : ∀ t ∈ ids, (s.getTimer t).isSome
  nodup : ids.Nodup

theorem Pruned.refl (hs : s.Wf) : Pruned [] s s :=
  ⟨hs, fun _ => rfl, fun _ => rfl, rfl, rfl, ⟨[], by simp, rfl⟩, by simp, .nil⟩

theorem Pruned.append {ids ids' : List Uuid} (h : Pruned ids s s₁) (h' : Pruned ids' s₁ s') :
    Pruned (ids ++ ids') s s' where
  wf := h'.wf
  timers t := by
    rw [h'.timers, h.timers]
    by_cases ht : t ∈ ids <;> by_cases ht' : t ∈ ids' <;> simp [ht, ht']
  owners t := by
    rw [h'.owners, h.owners]
    by_cases ht : t ∈ ids <;> by_cases ht' : t ∈ ids' <;> simp [ht, ht']
  runs := h'.runs.trans h.runs
  runStates := h'.runStates.trans h.runStates
  events := by
    obtain ⟨evs, he, hk⟩ := h.events
    obtain ⟨evs', he', hk'⟩ := h'.events
    exact ⟨evs ++ evs', by rw [he', he, List.append_assoc], by
      rw [List.map_append, List.map_append, hk, hk']⟩
  live t ht := by
    rcases List.mem_append.mp ht with ht | ht
    · exact h.live t ht
    · have hlive := h'.live t ht
      rw [h.timers] at hlive
      split at hlive
      · cases hlive
      · exact hlive
  nodup := by
    refine List.nodup_append.mpr ⟨h.nodup, h'.nodup, fun t ht t' ht' htt => ?_⟩
    subst htt
    have hlive := h'.live t ht'
    rw [h.timers, if_pos ht] at hlive
    cases hlive

theorem pruneOneshot_pruned {now : Int} {ackGrace : Nat} (hs : s.Wf) :
    wp (pruneOneshot now ackGrace timer)
      (fun pruned s' => Pruned (if pruned then [timer.id] else []) s s') (fun _ _ => True) s := by
  unfold pruneOneshot
  split
  · exact .refl hs
  · rw [wp_bind, wp_get, wp_bind, wp_orPanic]
    refine ⟨fun terminal _ => ?_, fun _ _ => trivial⟩
    split
    · exact .refl hs
    · rw [wp_bind, wp_deleteTimer]
      split
      · next hlive =>
        rw [wp_bind, wp_clearTimerOwner]
        have hs₂ : Store.Wf { s with
            timers := s.timers.filter fun t => t.id ≠ timer.id
            timerOwners := s.timerOwners.filter fun o => o.1 ≠ timer.id } :=
          hs.congr rfl rfl rfl
        rw [wp_bind, wp_emit hs₂, wp_pure]
        refine ⟨hs₂.emit _ rfl, fun t => ?_, fun t => ?_, rfl, rfl, ⟨[_], rfl, rfl⟩, ?_,
          List.nodup_singleton _⟩
        · show (s.forgotten timer.id).getTimer t = _
          rw [Store.getTimer_forgotten, if_pos rfl]
          exact if_congr List.mem_singleton.symm rfl rfl
        · show (s.forgotten timer.id).getTimerOwner t = _
          rw [Store.getTimerOwner_forgotten, if_pos rfl]
          exact if_congr List.mem_singleton.symm rfl rfl
        · intro t ht
          rw [if_pos rfl] at ht
          rw [List.mem_singleton.mp ht]
          exact hlive
      · next hgone =>
        -- Another process took the timer out first.
        rw [wp_pure]
        refine ⟨hs.congr rfl rfl rfl, fun t => ?_, fun _ => rfl, rfl, rfl, ⟨[], by simp, rfl⟩,
          by simp, .nil⟩
        show (s.forgotten timer.id).getTimer t = _
        rw [Store.getTimer_forgotten]
        split
        · next ht =>
          rw [ht]
          exact (Option.not_isSome_iff_eq_none.mp hgone).symm
        · rfl

theorem pruneAll_pruned {now : Int} {ackGrace : Nat} (timers : List Timer) (hs : s.Wf) :
    wp (pruneAll now ackGrace timers) (fun ids s' => Pruned ids s s') (fun _ _ => True) s := by
  induction timers generalizing s with
  | nil => exact .refl hs
  | cons timer timers ih =>
    unfold pruneAll
    rw [wp_bind]
    refine wp_mono (pruneOneshot_pruned hs) (fun pruned s₁ h => ?_) fun _ _ _ => trivial
    rw [wp_bind]
    refine wp_mono (ih h.wf) (fun ids s₂ h' => ?_) fun _ _ _ => trivial
    have happ := h.append h'
    cases pruned with
    | true => exact happ
    | false => exact happ

theorem pruneOneshots_pruned {now : Int} {ackGrace : Nat} (hs : s.Wf) :
    wp (pruneOneshots now ackGrace) (fun ids s' => Pruned ids s s') (fun _ _ => True) s := by
  unfold pruneOneshots
  rw [wp_bind, wp_get]
  exact pruneAll_pruned _ hs

/-- A pass puts down one tombstone for each timer. -/
theorem Pruned.tombstone {ids : List Uuid} (h : Pruned ids s s') {t : Uuid} (ht : t ∈ ids) :
    ∃ evs, s'.eventOutbox = s.eventOutbox ++ evs ∧
      (evs.map fun e => (e.kind, e.runId, e.timerId)).filter (·.2.2 == some t) =
        [(.pruned, none, some t)] := by
  obtain ⟨evs, he, hk⟩ := h.events
  refine ⟨evs, he, ?_⟩
  have hone : ids.filter (· == t) = [t] := by
    rw [List.filter_beq, List.count_eq_one_of_mem h.nodup ht]
    rfl
  have hcomp : ((fun k : RunState × Option Uuid × Option Uuid => k.2.2 == some t) ∘
      fun u : Uuid => ((.pruned, none, some u) : RunState × Option Uuid × Option Uuid)) =
      (· == t) := by
    funext u
    show (some u == some t) = (u == t)
    rfl
  rw [hk, List.filter_map, hcomp, hone]
  rfl

/-! ### Agreement -/

end

/-! ### What is left behind -/

section Sample

attribute [local instance] Calendar.utcOnly

/-- A lamp that goes on once, a minute after midnight. -/
def NewTimer.onceLamp : NewTimer where
  id := some SlotRequest.sampleId
  name := "lamp"
  occurrence := { kind := .once 0 60000000000, tz := "UTC" }

/-- The lamp as a row of the table. -/
def Timer.onceLamp : Timer :=
  { Timer.sample .skip with
    id := SlotRequest.sampleId
    name := "lamp"
    occurrence := NewTimer.onceLamp.occurrence
    misfire := NewTimer.onceLamp.misfire }

/-- Its fire at a slot, in the name of an owner. -/
def lampFiring (slot : Int) (owner : Option String) (prev : Option RunClaim) : Firing :=
  { Firing.sample .skip slot with timer := Timer.onceLamp, owner, prev }

/-- The database after the given commits. -/
def ReplyState.made (cs : List Commit) : ReplyState :=
  cs.foldl (fun r c => c.after .sample r) {}

/-- An app's lamp has fired. -/
def lampFired : List Commit :=
  [.createTimer .onceLamp 0, .setTimerOwner SlotRequest.sampleId "lamp",
    .fire (lampFiring (60 * NS) (some "lamp") none)]

/-- Its action is done, and the run is acknowledged; the app has not
replied. -/
def lampSpent : List Commit :=
  lampFired ++
    [.updateTimer { id := SlotRequest.sampleId, expectedRevision := 1,
                    patch := { lastFired := some (some (60 * NS)) } } (60 * NS),
      .finishRun .inlineDelivered ⟨0⟩ (60 * NS), .ackRunEvents SlotRequest.sampleId 1]

/-- Nothing was heard of its run; the lamp is deleted, added again by nobody,
and fires; then an ack is taken for the run of the first lamp. -/
def lampReopened : List Commit :=
  lampFired ++
    [.expirePickup Timer.onceLamp ⟨0⟩ (120 * NS),
      .deleteTimerLifecycle Timer.onceLamp (some "lamp") (120 * NS),
      .createTimer .onceLamp 0,
      .fire (lampFiring (180 * NS) none ((ReplyState.made lampFired).store.getRun ⟨0⟩)),
      .ackThrough Timer.onceLamp 1 (180 * NS)]

theorem run_made (cs : List Commit) :
    (ledger .sample).Run {} (System.trace (fun r c => c.after .sample r) {} cs)
      (ReplyState.made cs) :=
  run_commits .sample cs

/-- The ways a timer is deleted. -/
inductive DeletePath where
  | lifecycle
  | slot
  | pruner

/-- The path takes the timer out of one store, and leaves the other. -/
def DeletePath.Takes [Calendar] (timer : Timer) (s s' : Store) : DeletePath → Prop
  | lifecycle => ∃ owner utc out, s.getTimerOwner timer.id = owner ∧
    (deleteTimerLifecycle timer owner utc).run s = (.ok out, s')
  | slot => ∃ appName utc, s.getTimerOwner timer.id = some appName ∧
    (slotDelete timer.id appName utc).run s = (.ok true, s')
  | pruner => ∃ now ackGrace ids, (pruneOneshots now ackGrace).run s = (.ok ids, s') ∧
    timer.id ∈ ids

/-- Every run of the timer whose lifecycle was open got its event. -/
def AllCancelled (timer : Timer) (s s' : Store) : Prop :=
  ∀ row ∈ s.runStates, row.timerId = timer.id → row.isTerminal = false →
    ∃ e ∈ s'.eventOutbox, e.kind = .cancelled ∧ e.runId = some row.runId

/-- The path leaves what is asked, from every state reached. -/
def DeletePath.Leaves (path : DeletePath) (asked : Timer → Store → Store → Prop) : Prop :=
  ∀ (_ : Calendar) (cfg : FireConfig) (tr : List (System.Event ReplyState Commit))
    (r : ReplyState) (timer : Timer) (s' : Store), (ledger cfg).Run {} tr r →
    r.store.getTimer timer.id = some timer → path.Takes timer r.store s' →
    asked timer r.store s'

theorem DeletePath.not_leaves (path : DeletePath) {asked : Timer → Store → Store → Prop}
    (cs : List Commit) (timer : Timer) {s' : Store}
    (ht : (ReplyState.made cs).store.getTimer timer.id = some timer)
    (htakes : path.Takes timer (ReplyState.made cs).store s')
    (hnot : ¬asked timer (ReplyState.made cs).store s') : ¬path.Leaves asked := fun h =>
  hnot (h _ .sample _ _ timer s' (run_made cs) ht htakes)

/-- The lamp after its fire is over. -/
def Timer.spentLamp : Timer :=
  { Timer.onceLamp with lastFired := some (60 * NS), nextFireUtc := none, revision := 2 }

end Sample

end Bellman
