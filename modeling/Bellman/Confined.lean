/-
Bellman/Confined.lean

The rows that the handling of a timer leaves alone.

A handler is given one timer, and of the table of timers it writes that row
only; the prune pass may take other rows out, but writes none.  So what is
known of the row of another timer stays known until its own turn comes.
-/
import Bellman.Edits
import Bellman.Handled
import Bellman.Steps

namespace Bellman

open ProgramLogic Prog ReplyM

/-! ### The rows of the others -/

/-- Of the timers other than `id` none is written, and none is new. -/
structure RowsBut (id : Uuid) (s s' : Store) : Prop where
  ids : (s'.timers.map Timer.id).Sublist (s.timers.map Timer.id)
  others : ∀ t ∈ s'.timers, t.id ≠ id → t ∈ s.timers

instance {id : Uuid} : Std.Refl (RowsBut id) := ⟨fun _ => ⟨List.Sublist.refl _, fun _ ht _ => ht⟩⟩

instance {id : Uuid} : IsTrans Store (RowsBut id) :=
  ⟨fun _ _ _ h h' => ⟨h'.ids.trans h.ids, fun t ht hid => h.others t (h'.others t ht hid) hid⟩⟩

theorem FewerTimers.rowsBut {id : Uuid} {s s' : Store} (h : FewerTimers s s') : RowsBut id s s' :=
  ⟨h.map _, fun _ ht _ => h.subset ht⟩

theorem rowsBut_statements (id : Uuid) : RunStatements (RowsBut id) where
  emit kind loggedAt subject note :=
    (fewerTimers_statements.emit kind loggedAt subject note).mono fun _ _ h => h.rowsBut
  uuid s := (fewerTimers_statements.uuid s).rowsBut
  runs s runs := (fewerTimers_statements.runs s runs).rowsBut
  states s states := (fewerTimers_statements.states s states).rowsBut

theorem rowsBut_putTimer (s : Store) (t : Timer) : RowsBut t.id s (s.putTimer t) := by
  refine ⟨by rw [Store.putTimer_ids], fun u hu hne => ?_⟩
  obtain ⟨v, hv, rfl⟩ := List.mem_map.mp hu
  split at hne
  · exact absurd rfl hne
  · next hid =>
    rw [if_neg hid]
    exact hv

section

variable [Calendar] {h : Handling} {id : Uuid}

theorem updateTimerTx_rows (update : TimerUpdate) (now : Int) :
    Within (RowsBut update.id) (updateTimerTx update now) := by
  intro s
  unfold updateTimerTx
  rw [wp_bind, wp_get]
  split
  · exact Std.Refl.refl s
  next current hget =>
  have hid : current.id = update.id := by
    simpa using List.find?_some hget
  split
  · exact Std.Refl.refl s
  split
  · exact Std.Refl.refl s
  next next hpatch =>
  rw [wp_bind, wp_orPanic]
  refine ⟨fun found _ => ?_, fun _ _ => Std.Refl.refl s⟩
  have hput : ∀ row : Timer, row.id = update.id → RowsBut update.id s (s.putTimer row) :=
    fun row hrow => hrow ▸ rowsBut_putTimer s row
  exact hput _ ((id_applyPatch hpatch).trans hid)

omit [Calendar] in
theorem onRows_rows {α : Type} {m : StoreM α} (hm : Within (RowsBut id) m) :
    Within (Seen (RowsBut id)) (onRows m) :=
  within_mapError (onStore_within hm)

theorem updateRow_rows {t : Timer} (ht : t.id = id) (patch : TimerPatch) :
    Within (Seen (RowsBut id)) (updateRow h t patch) := by
  subst ht
  exact within_bind (onRows_rows (within_atomically (updateTimerTx_rows _ _)))
    fun _ => within_pure _

omit [Calendar] in
theorem pruneAll_fewerTimers (now : Int) (ackGrace : Nat) (timers : List Timer) :
    Within FewerTimers (pruneAll now ackGrace timers) := by
  induction timers with
  | nil => exact within_pure _
  | cons t timers ih =>
    refine within_bind ?_ fun pruned => within_bind ih fun ids => within_pure _
    refine within_ite (fun _ => within_pure _) fun _ => ?_
    refine within_bind within_get fun s => within_bind (orPanic_within _) fun b => ?_
    refine within_ite (fun _ => within_pure _) fun _ => ?_
    refine within_bind (deleteTimer_fewerTimers t.id) fun b => within_ite (fun _ => ?_)
      fun _ => within_pure _
    refine within_bind (modify_fewerTimers fun _ => rfl) fun _ => ?_
    exact within_bind (fewerTimers_statements.emit _ _ _ _) fun _ => within_pure _

omit [Calendar] in
theorem prunePass_rows (env : Surroundings) (t : Timer) :
    Within (Seen (RowsBut id)) (prunePass h env t) := by
  unfold prunePass
  split
  · refine within_bind (onRows_rows (within_attempt ?_)) fun _ => within_pure _
    refine within_bind within_get fun s => ?_
    exact (pruneAll_fewerTimers _ _ _).mono fun _ _ h => h.rowsBut
  · exact within_pure _

omit [Calendar] in
theorem finishRun_rows (runId : Uuid) (outcome : RunOutcome) (reason : Option String)
    (now : Int) : Within (RowsBut id) (finishRun runId outcome reason now) := by
  refine within_bind (within_bind (within_modifyGet fun s => ?_) fun n => within_pure _)
    fun b => within_ite (fun _ => within_bind within_get fun s => ?_) fun _ => within_throw _
  · exact (rowsBut_statements id).runs s _
  · split
    · exact within_pure _
    · exact within_throw _

omit [Calendar] in
theorem actOn_rows (env : Surroundings) (claim : RunClaim) :
    Within (Seen (RowsBut id)) (actOn h env claim) := by
  unfold actOn
  refine within_ite (fun _ => within_pure _) fun _ => ?_
  cases env.onFire with
  | ok u =>
    refine within_ite (fun _ => ?_) fun _ => within_pure _
    exact within_bind (onRows_rows (within_atomically (finishRun_rows _ _ _ _)))
      fun _ => within_pure _
  | error e =>
    refine within_ite (fun _ => ?_) fun _ => within_pure _
    exact within_bind (onRows_rows (within_atomically (finishRun_rows _ _ _ _)))
      fun _ => within_pure _

omit [Calendar] in
theorem projectFire_rows (cfg : FireConfig) (f : Firing) :
    Within (Seen (RowsBut id)) (projectFire cfg f) := by
  have hproj : ∀ proj, Within (RowsBut id) (insertTransportProjectionConn proj) := by
    intro proj
    have hfew : Within FewerTimers (insertTransportProjectionConn proj) :=
      modify_fewerTimers fun _ => rfl
    exact hfew.mono fun _ _ h => h.rowsBut
  refine within_bind (within_bind (read_within _) fun owner => within_bind (read_within _)
    fun prev => within_pure _) fun f => ?_
  refine within_bind ((rowsBut_statements id).fireTx_within hproj cfg f) fun out => ?_
  refine within_ite (fun _ => within_bind (registerFire_within _ _ _ _) fun _ => ?_) fun _ => ?_
  all_goals
    split
    · exact within_bind (onBook_within _) fun _ => within_pure _
    · exact within_pure _

omit [Calendar] in
theorem claimSlot_rows (t : Timer) (scheduledFor : Int) (kind : FireKind) :
    Within (Seen (RowsBut id)) (claimSlot h t scheduledFor kind) := by
  unfold claimSlot
  dsimp only
  split
  · split
    · exact within_throw _
    · refine within_bind (within_mapError (within_attempt (projectFire_rows _ _))) fun out => ?_
      split
      · exact within_pure _
      · exact within_pure _
      · exact within_throw _
      · exact within_throw _
  · refine within_bind (onRows_rows (within_attempt (within_atomically
      ((rowsBut_statements id).claimRunConn_within _ _ _)))) fun out => ?_
    split
    · exact within_pure _
    · exact within_pure _
    · exact within_throw _

omit [Calendar] in
theorem logSkippedMisfire_rows (t : Timer) (scheduledFor : Int) (missed : Nat) (now : Int)
    (reason : String) :
    Within (Seen (RowsBut id)) (logSkippedMisfire h t scheduledFor missed now reason) :=
  onRows_rows ((rowsBut_statements id).emit _ _ _ _)

/-- The steps of the handling of a timer write no row but its own. -/
theorem rowsBut_steps (h : Handling) (id : Uuid) :
    Scheduler.HandlingSteps h id (Scheduler.OnMemory (Seen (RowsBut id))) :=
  Scheduler.memory_steps (fun _ patch ht => updateRow_rows ht patch)
    (fun t scheduledFor kind _ => claimSlot_rows t scheduledFor kind) actOn_rows prunePass_rows
    logSkippedMisfire_rows

end

end Bellman
