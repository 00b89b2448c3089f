/-
Bellman/Committed.lean

What the loop writes is a run of commits.

The ledger is the system of all processes as the store sees them, one commit
after another, and what is known of the states it reaches is known of them
in any order.  The loop of the scheduler is a program, with a heap and clock
readings of its own, and this module ties the two together: whatever a tick
does to the tables and to the anchors, some run of the ledger does.

The deadline book is left out: a fire takes the countdown of the run before
out of the book after its transaction, which is not a commit, and no commit
reads the book.
-/
import Bellman.Lib.Simulation
import Bellman.Handled
import Bellman.Steps

namespace Bellman

open ProgramLogic Prog ReplyM

/-- The tables and the anchors are the same. -/
def Unbooked (r r' : ReplyState) : Prop := r'.store = r.store ∧ r'.anchors = r.anchors

/-! ### No commit reads the deadline book -/

/-- The program does the same with another book. -/
abbrev Bookless {α : Type} (m : ReplyM α) : Prop := Alike Unbooked m m

section

variable {α β : Type} {cfg : ReplyConfig} {timer : Timer} {claim : RunClaim} {row : RunStateRow}
  {doc : ReplyDocument} {newState : RunState} {digest : String} {nowWall monoNow utc : Int}

theorem bookless_onStore (m : StoreM α) : Bookless (onStore m) := by
  have hself : Alike Eq m m := by
    rintro s _ rfl
    exact ⟨rfl, rfl⟩
  refine alike_zoom hself (fun _ _ hr => hr.1.symm) ?_
  rintro r r' s _ hr rfl
  exact ⟨rfl, hr.2⟩

theorem bookless_read (f : Store → α) : Bookless (read f) := by
  rintro r r' ⟨hs, hr⟩
  exact ⟨congrArg (fun s => Except.ok (f s)) hs.symm, hs, hr⟩

theorem bookless_onBook (f : DeadlineBook → DeadlineBook) : Bookless (onBook f) :=
  alike_modify fun _ _ h => h

theorem bookless_inTx {m : ReplyM α} (h : Bookless m) : Bookless (inTx m) :=
  alike_transact h fun _ _ _ _ hr ht => ⟨hr.1, ht.2⟩

theorem bookless_discard {m : ReplyM α} (h : Bookless m) :
    Bookless (do let _ ← m; return ()) :=
  alike_bind h fun _ => alike_pure _

theorem bookless_durationMs (runId : Uuid) (firedAt : Int) :
    Bookless (durationMs runId firedAt nowWall monoNow) := by
  unfold durationMs
  apply alike_modifyGet
  rintro r r' ⟨hs, hr⟩
  rw [hr]
  cases r.anchors.find? (·.1 == runId) with
  | none => exact ⟨rfl, hs, hr⟩
  | some anchor => exact ⟨rfl, hs, rfl⟩

theorem bookless_logVerdict (curState : RunState) :
    Bookless (logVerdict timer claim row doc curState newState nowWall monoNow utc) :=
  alike_ite (fun _ => alike_bind (bookless_durationMs _ _) fun _ => bookless_onStore _)
    fun _ => alike_pure _

theorem bookless_armWatchdog (runId : Uuid) (expectedSecs : Nat) :
    Bookless (armWatchdog cfg runId expectedSecs nowWall monoNow) := by
  refine alike_bind (bookless_onStore _) fun span => alike_bind (bookless_onStore _) fun at_ => ?_
  refine alike_bind (bookless_onBook _) fun _ => alike_bind (bookless_onStore _) fun wall => ?_
  exact alike_bind (bookless_onBook _) fun _ => alike_pure _

theorem bookless_rearm : Bookless (rearm cfg row newState nowWall monoNow) := by
  refine alike_bind (bookless_onBook _) fun _ => alike_ite (fun _ => ?_) fun _ =>
    alike_ite (fun _ => ?_) fun _ => ?_
  · exact alike_bind (bookless_onBook _) fun _ => alike_pure _
  · exact alike_bind (bookless_armWatchdog _ _) fun _ => alike_pure _
  · exact alike_bind (bookless_onBook _) fun _ => alike_pure _

theorem bookless_apply :
    Bookless (apply cfg timer claim row doc newState digest nowWall monoNow utc) := by
  refine alike_bind bookless_rearm fun row => alike_bind (bookless_onStore _) fun row => ?_
  refine alike_bind (bookless_onStore _) fun row => ?_
  exact alike_bind (bookless_logVerdict _) fun _ => bookless_onStore _

theorem bookless_ingestInner (current : Option Uuid) :
    Bookless (ingestInner cfg timer doc digest nowWall monoNow utc current) := by
  unfold ingestInner
  cases doc.validate with
  | error why => exact alike_pure _
  | ok valid =>
    refine alike_bind (bookless_read _) fun found => ?_
    cases found with
    | none => exact alike_pure _
    | some claim =>
      refine alike_ite (fun _ => alike_pure _) fun _ => ?_
      refine alike_bind (bookless_read _) fun newest => ?_
      refine alike_ite (fun _ => bookless_onStore _) fun _ => ?_
      refine alike_bind (bookless_read _) fun row => ?_
      split
      · exact alike_pure _
      · refine alike_ite (fun _ => alike_pure _) fun _ => ?_
        exact alike_bind bookless_apply fun _ => alike_pure _

theorem bookless_markAcknowledged : Bookless (markAcknowledged timer claim row nowWall) := by
  refine alike_bind (bookless_onBook _) fun _ => alike_ite (fun _ => ?_) fun _ => ?_
  · exact alike_bind (bookless_onStore _) fun _ => bookless_onStore _
  · exact bookless_onStore _

theorem bookless_onAckThrough (throughSequence : Nat) :
    Bookless (onAckThrough timer throughSequence nowWall) := by
  refine alike_bind (bookless_read _) fun current => ?_
  cases current with
  | none => exact alike_pure _
  | some row =>
    refine alike_bind (bookless_read _) fun found => ?_
    cases found with
    | none => exact alike_pure _
    | some claim =>
      refine alike_ite (fun _ => alike_pure _) fun _ => alike_ite (fun _ => ?_) fun _ =>
        alike_pure _
      exact alike_bind (bookless_inTx bookless_markAcknowledged) fun _ => alike_pure _

theorem bookless_expirePickupOne (runId : Uuid) :
    Bookless (expirePickupOne timer runId nowWall) := by
  refine bookless_inTx (alike_bind (bookless_read _) fun found => ?_)
  cases found with
  | none => exact alike_pure _
  | some row =>
    refine alike_ite (fun _ => alike_pure _) fun _ => alike_bind (bookless_read _) fun current => ?_
    refine alike_ite (fun _ => alike_pure _) fun _ => alike_bind (bookless_read _) fun found => ?_
    cases found with
    | none => exact alike_pure _
    | some claim =>
      refine alike_ite (fun _ => alike_pure _) fun _ => alike_bind (bookless_read _) fun acked => ?_
      refine alike_ite (fun _ => ?_) fun _ => ?_
      · exact alike_bind bookless_markAcknowledged fun _ => alike_pure _
      · refine alike_bind (bookless_onBook _) fun _ => alike_bind (bookless_onStore _) fun _ => ?_
        exact alike_bind (bookless_onStore _) fun _ => alike_pure _

theorem bookless_expireWatchdogOne (runId : Uuid) :
    Bookless (expireWatchdogOne timer runId nowWall monoNow) := by
  refine bookless_inTx (alike_bind (bookless_read _) fun found => ?_)
  cases found with
  | none => exact alike_pure _
  | some row =>
    refine alike_ite (fun _ => alike_pure _) fun _ => alike_ite (fun _ => alike_pure _) fun _ => ?_
    refine alike_bind (bookless_read _) fun current => alike_ite (fun _ => alike_pure _) fun _ => ?_
    refine alike_bind (bookless_read _) fun found => ?_
    cases found with
    | none => exact alike_pure _
    | some claim =>
      refine alike_bind (bookless_onBook _) fun _ => ?_
      refine alike_bind (bookless_durationMs _ _) fun d =>
        alike_bind (bookless_onStore _) fun _ => ?_
      exact alike_bind (bookless_onStore _) fun _ => alike_pure _

theorem bookless_registerFire (runId : Uuid) :
    Bookless (registerFire cfg runId nowWall monoNow) := by
  refine alike_bind (alike_modify ?_) fun _ => alike_bind (bookless_onStore _) fun wallAt => ?_
  · rintro r r' ⟨hs, hr⟩
    exact ⟨hs, by rw [hr]⟩
  · refine alike_bind (bookless_onStore _) fun at_ => alike_bind (bookless_onBook _) fun _ => ?_
    exact bookless_onBook _

theorem bookless_fireTx (cfg : FireConfig) (f : Firing) : Bookless (fireTx cfg f) := by
  have hbarrier : Bookless (barrierIngest cfg f) := by
    unfold barrierIngest
    split
    · refine alike_bind (bookless_ingestInner _) fun out => ?_
      cases out with
      | rejected why => exact bookless_onStore _
      | _ => exact alike_pure _
    · exact alike_pure _
  refine bookless_inTx (alike_bind hbarrier fun _ => alike_bind (bookless_onStore _) fun prev => ?_)
  refine alike_bind (bookless_onStore _) fun claim => alike_bind (bookless_onStore _) fun _ => ?_
  refine alike_bind (bookless_onStore _) fun claim => alike_bind (bookless_onStore _) fun _ => ?_
  exact alike_pure _

end

section

variable [Calendar] {cfg : FireConfig}

/-- **A commit does not read the book.** -/
theorem Commit.bookless (c : Commit) : Bookless (c.prog cfg) := by
  cases c with
  | fire f => exact bookless_discard (bookless_fireTx cfg f)
  | ingest timer doc digest nowWall monoNow utc =>
    exact bookless_discard (bookless_inTx (bookless_ingestInner none))
  | ackThrough timer throughSequence nowWall => exact bookless_discard (bookless_onAckThrough _)
  | expirePickup timer runId nowWall => exact bookless_discard (bookless_expirePickupOne _)
  | expireWatchdog timer runId nowWall monoNow =>
    exact bookless_discard (bookless_expireWatchdogOne _)
  | registerFire runId nowWall monoNow => exact bookless_registerFire _
  | setTimerOwner timerId appName => exact bookless_onStore _
  | clearTimerOwner timerId => exact bookless_onStore _
  | rependRun runId => exact bookless_onStore _
  | finishClaim claim timerName e utc => exact bookless_onStore _
  | setRunTransport runId transport => exact bookless_onStore _
  | logRejection timer runId reason utc => exact bookless_onStore _
  | logNote kind loggedAt timer scheduledFor note => exact bookless_onStore _
  | markEventPublished eventId => exact bookless_onStore _
  | crash => exact alike_modify fun _ _ h => ⟨h.1, rfl⟩
  | _ => exact bookless_discard (bookless_onStore _)

/-- What was done to the memory is what some run of the ledger does to it. -/
abbrev Commits (cfg : FireConfig) (r r' : ReplyState) : Prop :=
  (ledger cfg).Simulates Unbooked r r'

theorem commits_after (c : Commit) (r : ReplyState) : Commits cfg r (c.after cfg r) :=
  System.simulates_of_alike (i := c) c.bookless (fun _ => rfl) r

theorem commits_of_book {r r' : ReplyState} (h : Unbooked r r') : Commits cfg r r' :=
  System.simulates_stutter fun _ ht => ⟨ht.1.trans h.1.symm, ht.2.trans h.2.symm⟩

/-- The tables and the anchors are those of some state the ledger reaches. -/
abbrev Reached (cfg : FireConfig) (r : ReplyState) : Prop :=
  (ledger cfg).ReachableUpTo Unbooked r

theorem Reached.keyed {r : ReplyState} (h : Reached cfg r) : r.store.Keyed := by
  obtain ⟨t, ⟨_, tr, rfl, hrun⟩, ht⟩ := h
  rw [← ht.1]
  exact keyed_of_run hrun

/-! ### The statements of the loop -/

/-- What was done to the tables is what commits do. -/
def Tabled (cfg : FireConfig) (s s' : Store) : Prop :=
  ∀ r : ReplyState, r.store = s → Commits cfg r { r with store := s' }

instance : Std.Refl (Tabled cfg) := by
  refine ⟨fun s r hr => ?_⟩
  subst hr
  exact Std.Refl.refl (r := Commits cfg) r

instance : IsTrans Store (Tabled cfg) :=
  ⟨fun _ s' _ h h' r hr => IsTrans.trans _ _ _ (h r hr) (h' { r with store := s' } rfl)⟩

omit [Calendar] in
theorem run_discard {σ ε α : Type} (m : Prog σ ε α) (s : σ) :
    ((do let _ ← m; return () : Prog σ ε Unit).run s).2 = (m.run s).2 := by
  show ((m >>= fun _ => pure ()).run s).2 = _
  rw [run_bind]
  rcases m.run s with ⟨e | a, s'⟩ <;> rfl

/-- A statement that is a commit of its own. -/
theorem tabled_of_commit {α : Type} {m : StoreM α} (c : Commit)
    (h : c.prog cfg = do let _ ← onStore m; return ()) : Within (Tabled cfg) m := by
  refine within_of_run fun s r hr => ?_
  have hafter : Commits cfg r (c.after cfg r) := commits_after c r
  unfold Commit.after at hafter
  rw [h, run_discard] at hafter
  subst hr
  exact hafter

theorem tabled_of_commit_unit {m : StoreM Unit} (c : Commit) (h : c.prog cfg = onStore m) :
    Within (Tabled cfg) m := by
  refine within_of_run fun s r hr => ?_
  have hafter : Commits cfg r (c.after cfg r) := commits_after c r
  unfold Commit.after at hafter
  rw [h] at hafter
  subst hr
  exact hafter

theorem emit_tabled (kind : RunState) (loggedAt : Int) (timer : Option (Uuid × String))
    (scheduledFor : Option Int) (note : EventNote) :
    Within (Tabled cfg) (emit kind loggedAt
      { timerId := timer.map (·.1), timerName := timer.map (·.2), scheduledFor } note) :=
  tabled_of_commit_unit (.logNote kind loggedAt timer scheduledFor note) rfl

theorem pruneAll_tabled (now : Int) (ackGrace : Nat) (timers : List Timer) :
    Within (Tabled cfg) (pruneAll now ackGrace timers) := by
  induction timers with
  | nil => exact within_pure _
  | cons t timers ih =>
    refine within_bind ?_ fun pruned => within_bind ih fun ids => within_pure _
    refine within_ite (fun _ => within_pure _) fun _ => ?_
    refine within_bind within_get fun s => within_bind (orPanic_within _) fun b => ?_
    refine within_ite (fun _ => within_pure _) fun _ => ?_
    refine within_bind (tabled_of_commit (.deleteTimer t.id) rfl) fun b =>
      within_ite (fun _ => ?_) fun _ => within_pure _
    refine within_bind (tabled_of_commit_unit (.clearTimerOwner t.id) rfl) fun _ => ?_
    exact within_bind (emit_tabled _ _ (some (t.id, t.name)) none _) fun _ => within_pure _

/-! ### The steps of the loop -/

/-- The program writes only what commits write. -/
abbrev ByCommits (cfg : FireConfig) {ε α : Type} (m : Prog ReplyState ε α) : Prop :=
  Within (Commits cfg) m

theorem onStore_committed {α : Type} {m : StoreM α} (hm : Within (Tabled cfg) m) :
    ByCommits cfg (onStore m) :=
  within_of_run fun r => hm.run r.store r rfl

theorem onRows_committed {α : Type} {m : StoreM α} (hm : Within (Tabled cfg) m) :
    ByCommits cfg (onRows m) :=
  within_mapError (onStore_committed hm)

/-- A reply operation that is a commit of its own. -/
theorem committed_of_commit {α : Type} {m : ReplyM α} (c : Commit)
    (h : c.prog cfg = do let _ ← m; return ()) : ByCommits cfg m := by
  refine within_of_run fun r => ?_
  have hafter : Commits cfg r (c.after cfg r) := commits_after c r
  unfold Commit.after at hafter
  rwa [h, run_discard] at hafter

section

variable {h : Handling}

/-- With a data directory the loop fires under the settings of the ledger. -/
def Handling.Under (h : Handling) (cfg : FireConfig) : Prop := ∀ c, h.engine = some c → c = cfg

theorem orAbort_committed {α : Type} (x : Except Panic α) : ByCommits cfg (orAbort x) :=
  onRows_committed (orPanic_within x)

theorem getTimer_committed (id : Uuid) : ByCommits cfg (getTimer id) :=
  within_bind within_get fun _ => within_pure _

theorem requireTimer_committed (id : Uuid) : ByCommits cfg (requireTimer id) := by
  refine within_bind (getTimer_committed id) fun timer => ?_
  cases timer with
  | none => exact within_throw _
  | some t => exact within_pure _

theorem updateRow_committed (t : Timer) (patch : TimerPatch) :
    ByCommits cfg (updateRow h t patch) :=
  within_bind (onRows_committed (within_atomically
    (tabled_of_commit (.updateTimer ⟨t.id, t.revision, patch⟩ h.utc) rfl))) fun _ => within_pure _

theorem advancePastNow_committed (id : Uuid) (now : Int) :
    ByCommits cfg (advancePastNow h id now) :=
  within_bind (requireTimer_committed id) fun _ => within_bind (orAbort_committed _) fun _ =>
    within_bind (orAbort_committed _) fun _ => updateRow_committed _ _

theorem anchorLastFired_committed (id : Uuid) (anchor : Int) :
    ByCommits cfg (anchorLastFired h id anchor) :=
  within_bind (requireTimer_committed id) fun _ => updateRow_committed _ _

theorem markFired_committed (id : Uuid) (scheduledFor : Int) :
    ByCommits cfg (markFired h id scheduledFor) :=
  within_bind (requireTimer_committed id) fun _ => updateRow_committed _ _

theorem prunePass_committed (env : Surroundings) (t : Timer) :
    ByCommits cfg (prunePass h env t) := by
  unfold prunePass
  split
  · refine within_bind (onRows_committed (within_attempt ?_)) fun _ => within_pure _
    exact within_bind within_get fun s => pruneAll_tabled _ _ _
  · exact within_pure _

theorem actOn_committed (env : Surroundings) (claim : RunClaim) :
    ByCommits cfg (actOn h env claim) := by
  have hfinish : ∀ how : BareClose, Within (Tabled cfg)
      (finishRun claim.runId how.outcome how.reason h.utc) := fun how =>
    tabled_of_commit (.finishRun how claim.runId h.utc) rfl
  unfold actOn
  refine within_ite (fun _ => within_pure _) fun _ => ?_
  cases env.onFire with
  | ok u =>
    refine within_ite (fun _ => ?_) fun _ => within_pure _
    exact within_bind (onRows_committed (within_atomically (hfinish .inlineDelivered)))
      fun _ => within_pure _
  | error e =>
    refine within_ite (fun _ => ?_) fun _ => within_pure _
    exact within_bind (onRows_committed (within_atomically (hfinish .inlineFailed)))
      fun _ => within_pure _

theorem read_committed {α : Type} (f : Store → α) : ByCommits cfg (read f) :=
  within_bind within_get fun _ => within_pure _

theorem projectFire_committed (f : Firing) : ByCommits cfg (projectFire cfg f) := by
  refine within_bind (within_bind (read_committed _) fun owner => within_bind (read_committed _)
    fun prev => within_pure _) fun f => ?_
  have hclear : ∀ run, ByCommits cfg (clearDeadlines run) :=
    fun run => within_modify fun _ => commits_of_book ⟨rfl, rfl⟩
  have hregister : ∀ run, ByCommits cfg (registerFire cfg.reply run f.now f.monoNow) :=
    fun run => within_of_run fun r => commits_after (.registerFire run f.now f.monoNow) r
  refine within_bind (committed_of_commit (.fire f) rfl) fun out => ?_
  refine within_ite (fun _ => within_bind (hregister _) fun _ => ?_) fun _ => ?_
  all_goals
    split
    · exact within_bind (hclear _) fun _ => within_pure _
    · exact within_pure _

theorem claimSlot_committed (hcfg : h.Under cfg) (t : Timer) (scheduledFor : Int)
    (kind : FireKind) : ByCommits cfg (claimSlot h t scheduledFor kind) := by
  unfold claimSlot
  dsimp only
  split
  · next cfg' hengine =>
    obtain rfl := hcfg cfg' hengine
    split
    · exact within_throw _
    · refine within_bind (within_mapError (within_attempt (projectFire_committed _))) fun out => ?_
      split
      · exact within_pure _
      · exact within_pure _
      · exact within_throw _
      · exact within_throw _
  · refine within_bind (onRows_committed (within_attempt (within_atomically
      (tabled_of_commit (.claimRun t.id scheduledFor h.utc) rfl)))) fun out => ?_
    split
    · exact within_pure _
    · exact within_pure _
    · exact within_throw _

theorem logSkippedMisfire_committed (t : Timer) (scheduledFor : Int) (missed : Nat) (now : Int)
    (reason : String) : ByCommits cfg (logSkippedMisfire h t scheduledFor missed now reason) :=
  onRows_committed (emit_tabled _ _ (some (t.id, t.name)) (some scheduledFor) _)

end

/-! ### The loop -/

namespace Scheduler

section

variable {o : Outside} {config : SchedulerConfig} (hcfg : o.handling.Under cfg)

/-- The program of the loop writes only what commits write. -/
abbrev Ledgered (cfg : FireConfig) {α : Type} (m : EngineM α) : Prop :=
  Within (OnMemory (Commits cfg)) m

theorem ledgered_modify {f : Scheduler → Scheduler} (h : ∀ s, (f s).memory = s.memory) :
    Ledgered cfg (modify f : EngineM Unit) := by
  refine within_modify fun s => ?_
  show Commits cfg s.memory (f s).memory
  rw [h s]
  exact Std.Refl.refl s.memory

theorem ledgered_ask {α : Type} (f : Nat → α) : Ledgered cfg (ask f) :=
  within_modifyGet fun s => Std.Refl.refl (r := Commits cfg) s.memory

theorem ledgered_push (e : HeapEntry) : Ledgered cfg (push e) := ledgered_modify fun _ => rfl

include hcfg

theorem ledger_steps (id : Uuid) :
    HandlingSteps o.handling id (OnMemory (Commits cfg)) :=
  memory_steps (fun t patch _ => updateRow_committed t patch)
    (fun t scheduledFor kind _ => claimSlot_committed hcfg t scheduledFor kind)
    actOn_committed prunePass_committed logSkippedMisfire_committed

theorem ledger_loopSteps : LoopSteps o (OnMemory (Commits cfg)) where
  handling id := ledger_steps hcfg id
  heap s _ := Std.Refl.refl (r := Commits cfg) s.memory
  expire timer runId kind now monoNow :=
    expireOne_within (committed_of_commit (.expirePickup timer runId now) rfl)
      (committed_of_commit (.expireWatchdog timer runId now monoNow) rfl) kind
  orphan runId := onMemory_within (onRows_committed (within_attempt (within_atomically
    (tabled_of_commit (.finishRun .orphan runId o.handling.utc) rfl))))

omit hcfg in
theorem rebuildHorizon_ledgered : Ledgered cfg (rebuildHorizon o config) := by
  have hstore : ∀ {α : Type} (x : Except StoreError α),
      Ledgered cfg (rebuildHorizon.orStore x) := by
    intro α x
    cases x with
    | ok a => exact within_pure _
    | error e => exact within_throw _
  have hpush : ∀ entries, Ledgered cfg (rebuildHorizon.pushAll entries) :=
    fun entries => ledgered_modify fun _ => rfl
  refine within_bind (ledgered_ask _) fun version => within_bind (ledgered_ask _) fun monoNow => ?_
  refine within_bind (ledgered_modify fun _ => rfl) fun _ => within_bind (ledgered_ask _)
    fun now => ?_
  split
  · exact within_throw _
  · refine within_bind (orPanic_within _) fun limit => within_bind within_get fun s => ?_
    refine within_bind (hstore _) fun due => within_bind (orPanic_within _) fun fires => ?_
    refine within_bind (hpush _) fun _ => within_bind (hstore _) fun timers => ?_
    refine within_bind (orPanic_within _) fun resident => within_bind (hpush _) fun _ => ?_
    refine within_bind (ledgered_ask _) fun bookNow => within_bind (orPanic_within _)
      fun deadlines => ?_
    exact hpush _

omit hcfg in
theorem externalStoreChanged_ledgered : Ledgered cfg (externalStoreChanged o config) := by
  refine within_bind (ledgered_ask _) fun monoNow => within_bind within_get fun s => ?_
  refine within_ite (fun _ => within_pure _) fun _ => within_bind (ledgered_ask _) fun v => ?_
  cases v with
  | none => exact within_pure _
  | some v => exact within_pure _

theorem boot_ledgered : Ledgered cfg (boot o config) := by
  refine within_bind (ledgered_ask _) fun wall => within_bind (ledgered_ask _) fun mono => ?_
  refine within_bind (ledgered_modify fun _ => rfl) fun _ => ?_
  refine within_bind (ledger_loopSteps hcfg).recoverPendingClaims_within fun recovered => ?_
  refine within_bind (ledger_loopSteps hcfg).misfirePass_within fun overdue => ?_
  refine within_bind rebuildHorizon_ledgered fun _ => ?_
  exact within_bind (ledgered_modify fun _ => rfl) fun _ => within_pure _

omit hcfg in
theorem applyMessages_ledgered (messages : List ControlMsg) (result : TickResult) :
    Ledgered cfg (applyMessages o config messages result) := by
  induction messages generalizing result with
  | nil => exact within_pure _
  | cons msg messages ih =>
    cases msg with
    | refill => exact within_bind rebuildHorizon_ledgered fun _ => ih _
    | shutdown => exact within_pure _
    | setPauseAll paused => exact within_bind (ledgered_modify fun _ => rfl) fun _ => ih _
    | armDeadline runId kind wallAt => exact within_bind (ledgered_push _) fun _ => ih _

theorem runTick_ledgered (result : TickResult) : Ledgered cfg (runTick o config result) := by
  refine within_bind (ledgered_ask _) fun wall => within_bind (ledgered_ask _) fun mono => ?_
  refine within_bind within_get fun s => ?_
  have hrest : ∀ overdue, Ledgered cfg (do
      modify fun s => { s with lastWall := wall, lastMono := mono }
      let now ← ask o.wall
      let fires ← drainDue o config now
      return { result with
        clockJump := isClockJump config s wall mono
        refilled := result.refilled || isClockJump config s wall mono
        fires := result.fires ++ overdue ++ fires }) := by
    intro overdue
    refine within_bind (ledgered_modify fun _ => rfl) fun _ => within_bind (ledgered_ask _)
      fun now => ?_
    exact within_bind ((ledger_loopSteps hcfg).drainLoop_within _ _ _) fun _ => within_pure _
  dsimp only
  split
  · refine within_bind (ledger_loopSteps hcfg).misfirePass_within fun overdue => ?_
    exact within_bind rebuildHorizon_ledgered fun _ => hrest overdue
  · exact hrest []

theorem tick_ledgered (messages : List ControlMsg) : Ledgered cfg (tick o config messages) := by
  have hrest : Ledgered cfg (do
      let result ← applyMessages o config messages {}
      if result.shutdown then return result
      else
        let changed ← externalStoreChanged o config
        if changed then rebuildHorizon o config
        let result := { result with refilled := result.refilled || changed }
        if (← get).pauseAll then return result else runTick o config result) := by
    refine within_bind (applyMessages_ledgered _ _) fun result => ?_
    refine within_ite (fun _ => within_pure _) fun _ => ?_
    refine within_bind externalStoreChanged_ledgered fun changed => ?_
    have hrun : Ledgered cfg (do
        let result := { result with refilled := result.refilled || changed }
        if (← get).pauseAll then return result else runTick o config result) :=
      within_bind within_get fun s => within_ite (fun _ => within_pure _) fun _ =>
        runTick_ledgered hcfg _
    exact within_ite (fun _ => within_bind rebuildHorizon_ledgered fun _ => hrun) fun _ => hrun
  refine within_bind within_get fun s => within_ite (fun _ => ?_) fun _ => hrest
  exact within_bind (boot_ledgered hcfg) fun _ => hrest

end

end Scheduler

end

end Bellman
