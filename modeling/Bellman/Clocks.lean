/-
Bellman/Clocks.lean

The passes over the deadline book, and the arithmetic of deadlines.

The countdowns of the book are instants of the monotonic clock, their copies
in the rows are instants of the wall clock, and a watchdog is a number of
seconds from the app times a factor.  Each has a range of its own, and the
sums that leave it panic:

    the span       seconds × factor, below 2 ^ 64 seconds
    the countdown  monotonic clock + span, up to `maxInstant`
    the copy       wall clock + span, up to `maxUtc`; a span that chrono
                   cannot tell counts as none

A pass first rebuilds the countdowns that are only in the rows, and then
expires what is due.

Main result: no reply and no pass panics if and only if the deadline that it
computes is in range (`reply_total_iff`).
-/
import Bellman.Lifecycle
import Bellman.Lib.Rows

namespace Bellman

open ProgramLogic Prog ReplyM

/-! ### The watchdog -/

/-- `watchdog_instant`. -/
def watchdogInstant (cfg : ReplyConfig) (expectedSecs : Nat) (monoNow : Int) :
    Except Panic Int := do
  monoAdd monoNow (← watchdogSpan cfg expectedSecs)

/-- `watchdog_wall`. -/
def watchdogWall (cfg : ReplyConfig) (expectedSecs : Nat) (nowWall : Int) : Except Panic Int := do
  wallAdd nowWall ((fromStd (← watchdogSpan cfg expectedSecs)).getD 0)

/-- The watchdog goes in before it is known that its wall-clock copy is in
range. -/
theorem wp_armWatchdog_eq {cfg : ReplyConfig} {run : Uuid} {secs : Nat} {nowWall monoNow : Int}
    {Q : Int → ReplyState → Prop} {E : Abort → ReplyState → Prop} {r : ReplyState} :
    wp (armWatchdog cfg run secs nowWall monoNow) Q E r =
      match watchdogInstant cfg secs monoNow with
      | .error p => E (.panic p) r
      | .ok at_ =>
        let armed := { r with book := r.book.insert run ⟨.watchdog, at_⟩ }
        match watchdogWall cfg secs nowWall with
        | .error p => E (.panic p) armed
        | .ok wall => Q wall { armed with book := armed.book.armHint run .watchdog wall } := by
  unfold armWatchdog watchdogInstant watchdogWall
  rw [wp_bind]
  cases watchdogSpan cfg secs with
  | error p => rfl
  | ok span =>
    show wp (onStore (orPanic (.ok span))) _ _ r = match monoAdd monoNow span with
      | .error p => E (.panic p) r
      | .ok at_ => match wallAdd nowWall ((fromStd span).getD 0) with
        | .error p => _
        | .ok wall => _
    show wp (onStore (orPanic (monoAdd monoNow span)) >>= _) Q E r = _
    cases monoAdd monoNow span with
    | error p => rfl
    | ok at_ =>
      show wp (onStore (orPanic (wallAdd nowWall ((fromStd span).getD 0))) >>= _) Q E _ = _
      cases wallAdd nowWall ((fromStd span).getD 0) with
      | error p => rfl
      | ok wall => rfl

/-! ### Passes over the book -/

/-- `armed_deadlines`: the rows that wait for a deadline, by run. -/
def Store.armedDeadlines (s : Store) : List RunStateRow :=
  (s.runStates.filter fun row => row.pickupDeadline.isSome || row.watchdogDeadline.isSome)
    |>.insertionSort fun a b => a.runId.n ≤ b.runId.n

/-- `remaining`: the wall-clock remainder until a deadline, at least none. -/
def remaining (deadline nowWall : Int) : Nat := (deadline - nowWall).toNat

/-- The deadline that a row waits for. -/
def RunStateRow.waitsFor (row : RunStateRow) : Option (DeadlineKind × Int) :=
  match row.pickupDeadline with
  | some deadline => some (.pickup, deadline)
  | none => row.watchdogDeadline.map (DeadlineKind.watchdog, ·)

/-- The countdown that a row implies. -/
def RunStateRow.countdown (row : RunStateRow) (nowWall monoNow : Int) :
    Except Panic (Option MonoDeadline) :=
  match row.waitsFor with
  | some (kind, deadline) => do return some ⟨kind, ← monoAdd monoNow (remaining deadline nowWall)⟩
  | none => return none

/-- The loop of `sync_deadline_book`: how many countdowns were added. -/
def syncRows (nowWall monoNow : Int) : List RunStateRow → ReplyM Nat
  | [] => return 0
  | row :: rows => do
    -- Existing live entries always win.
    if ((← get).book.get row.runId).isSome then syncRows nowWall monoNow rows
    else
      match ← onStore (orPanic (row.countdown nowWall monoNow)) with
      | some entry =>
        onBook (·.insert row.runId entry)
        return (← syncRows nowWall monoNow rows) + 1
      | none => syncRows nowWall monoNow rows

/-- `sync_deadline_book`. -/
def syncDeadlineBook (nowWall monoNow : Int) : ReplyM Nat := do
  syncRows nowWall monoNow (← read (·.armedDeadlines))

/-- `due_deadlines`. -/
def DeadlineBook.dueDeadlines (b : DeadlineBook) (kind : DeadlineKind) (monoNow : Int) :
    List Uuid :=
  (b.entries.filter fun e => e.2.kind = kind ∧ e.2.at_ ≤ monoNow).map Prod.fst

/-- The loop of a sweep: a run without a row, or whose timer is gone, loses
its countdown. -/
def expireRuns (expireOne : Timer → Uuid → ReplyM Bool) : List Uuid → ReplyM (List Uuid)
  | [] => return []
  | runId :: due => do
    match ← read (·.getRunState runId) with
    | none =>
      clearDeadlines runId
      expireRuns expireOne due
    | some row =>
      match ← read (·.getTimer row.timerId) with
      | none =>
        clearDeadlines runId
        expireRuns expireOne due
      | some timer =>
        let transitioned ← expireOne timer runId
        let rest ← expireRuns expireOne due
        return if transitioned then runId :: rest else rest

/-- `expire_pickups`. -/
def expirePickups (nowWall monoNow : Int) : ReplyM (List Uuid) := do
  expireRuns (fun timer runId => expirePickupOne timer runId nowWall)
    ((← get).book.dueDeadlines .pickup monoNow)

/-- `expire_watchdogs`. -/
def expireWatchdogs (nowWall monoNow : Int) : ReplyM (List Uuid) := do
  expireRuns (fun timer runId => expireWatchdogOne timer runId nowWall monoNow)
    ((← get).book.dueDeadlines .watchdog monoNow)

/-- An error is logged and the pass goes on; a panic ends it. -/
def ReplyM.caught {α : Type} (m : ReplyM α) : ReplyM (Option α) :=
  tryCatch (do return some (← m)) fun
    | .error _ => return none
    | .panic p => throw (.panic p)

/-- The due deadlines of `expire_all_deadlines`, each with the timer of its
run; a run without a row loses its countdown. -/
def dueByTimer : List (Uuid × DeadlineKind) → ReplyM (List (Uuid × Uuid × DeadlineKind))
  | [] => return []
  | (runId, kind) :: due => do
    match ← read (·.getRunState runId) with
    | none =>
      clearDeadlines runId
      dueByTimer due
    | some row => return (row.timerId, runId, kind) :: (← dueByTimer due)

/-- The loop of `expire_all_deadlines`: how many runs moved on.  The gate of
a timer may be refused. -/
def expireByTimer (gate : Uuid → Bool) (nowWall monoNow : Int) :
    List (Uuid × Uuid × DeadlineKind) → ReplyM Nat
  | [] => return 0
  | (timerId, runId, kind) :: due => do
    let timer ← read (·.getTimer timerId)
    match if gate timerId then timer else none with
    | none => expireByTimer gate nowWall monoNow due
    | some timer =>
      let transitioned ← caught (match kind with
        | .pickup => expirePickupOne timer runId nowWall
        | .watchdog => expireWatchdogOne timer runId nowWall monoNow)
      match transitioned with
      | some true => return (← expireByTimer gate nowWall monoNow due) + 1
      | some false =>
        clearDeadlines runId
        expireByTimer gate nowWall monoNow due
      | none => expireByTimer gate nowWall monoNow due

/-- `expire_all_deadlines`, the projections of the moved runs apart.  The
entries of the hash map by timer come in some order. -/
def Watcher.expireAllDeadlines
    (order : List (Uuid × Uuid × DeadlineKind) → List (Uuid × Uuid × DeadlineKind))
    (gate : Uuid → Bool) (nowWall monoNow : Int) : ReplyM Nat := do
  let _ ← caught (syncDeadlineBook nowWall monoNow)
  let due (kind : DeadlineKind) : ReplyM (List (Uuid × DeadlineKind)) := do
    return ((← get).book.dueDeadlines kind monoNow).map fun runId => (runId, kind)
  let pickups ← dueByTimer (← due .pickup)
  let watchdogs ← dueByTimer (← due .watchdog)
  expireByTimer gate nowWall monoNow (order (pickups ++ watchdogs))

/-! ### Ranges -/

/-- The span of a watchdog, in nanoseconds. -/
def ReplyConfig.span (cfg : ReplyConfig) (expectedSecs : Nat) : Int :=
  roundTiesEven (max (expectedSecs * cfg.watchdogFactor) 0 * 1000000000)

/-- The deadlines of a watchdog are in the ranges of their clocks. -/
structure WatchdogFits (cfg : ReplyConfig) (expectedSecs : Nat) (nowWall monoNow : Int) : Prop where
  span : cfg.span expectedSecs < 18446744073709551616 * NS
  mono : monoNow + cfg.span expectedSecs ≤ maxInstant
  -- What chrono cannot tell counts as none.
  wall : nowWall + (if cfg.span expectedSecs ≤ Occurrence.I64_MAX * 1000000 then
    cfg.span expectedSecs else 0) ≤ Occurrence.maxUtc

section Watchdog

variable {cfg : ReplyConfig} {expectedSecs : Nat} {nowWall monoNow : Int}

theorem roundTiesEven_nonneg {q : Rat} (h : 0 ≤ q) : 0 ≤ roundTiesEven q := by
  have hfloor : 0 ≤ q.floor := Rat.le_floor_iff.mpr h
  unfold roundTiesEven
  dsimp only
  split
  · exact hfloor
  · split
    · omega
    · split
      · exact hfloor
      · omega

theorem ReplyConfig.span_nonneg : 0 ≤ cfg.span expectedSecs := by
  have hmax : (0 : Rat) ≤ max (expectedSecs * cfg.watchdogFactor) 0 := by
    show 0 ≤ if _ ≤ _ then _ else _
    split
    · exact Rat.le_refl
    · next h => exact Rat.le_of_lt (Rat.not_le.mp h)
  apply roundTiesEven_nonneg
  exact Rat.mul_nonneg hmax (by decide)

theorem watchdogSpan_eq (h : cfg.span expectedSecs < 18446744073709551616 * NS) :
    watchdogSpan cfg expectedSecs = .ok (cfg.span expectedSecs).toNat := by
  unfold watchdogSpan fromSecsF64
  exact if_neg (Int.not_le.mpr h)

theorem watchdogSpan_error (h : ¬cfg.span expectedSecs < 18446744073709551616 * NS) :
    ∃ p, watchdogSpan cfg expectedSecs = .error p := by
  unfold watchdogSpan fromSecsF64
  exact ⟨_, if_pos (Int.not_lt.mp h)⟩

/-- Which instants the monotonic clock has. -/
theorem monoAdd_ok_iff {t : Int} {d : Nat} :
    (∃ at_, monoAdd t d = .ok at_) ↔ t + d ≤ maxInstant := by
  unfold monoAdd
  split
  · next h => simp [Int.not_le.mpr h]
  · next h => simp [Int.not_lt.mp h]

theorem wallAdd_ok_iff {t d : Int} :
    (∃ at_, wallAdd t d = .ok at_) ↔ t + d ≤ Occurrence.maxUtc := by
  unfold wallAdd
  split
  · next h => simp [Int.not_le.mpr h]
  · next h => simp [Int.not_lt.mp h]

theorem watchdogInstant_ok_iff : (∃ at_, watchdogInstant cfg expectedSecs monoNow = .ok at_) ↔
    cfg.span expectedSecs < 18446744073709551616 * NS ∧
      monoNow + cfg.span expectedSecs ≤ maxInstant := by
  unfold watchdogInstant
  by_cases h : cfg.span expectedSecs < 18446744073709551616 * NS
  · rw [watchdogSpan_eq h]
    show (∃ at_, monoAdd monoNow _ = .ok at_) ↔ _
    rw [monoAdd_ok_iff, Int.toNat_of_nonneg ReplyConfig.span_nonneg]
    exact ⟨fun hm => ⟨h, hm⟩, fun hm => hm.2⟩
  · obtain ⟨p, hp⟩ := watchdogSpan_error h
    rw [hp]
    exact ⟨fun ⟨_, he⟩ => (by cases he), fun hc => absurd hc.1 h⟩

theorem fromStd_getD {d : Int} (h : 0 ≤ d) :
    (fromStd d.toNat).getD 0 = if d ≤ Occurrence.I64_MAX * 1000000 then d else 0 := by
  unfold fromStd
  rw [Int.toNat_of_nonneg h]
  split <;> rfl

theorem watchdogWall_ok_iff : (∃ at_, watchdogWall cfg expectedSecs nowWall = .ok at_) ↔
    cfg.span expectedSecs < 18446744073709551616 * NS ∧
      nowWall + (if cfg.span expectedSecs ≤ Occurrence.I64_MAX * 1000000 then
        cfg.span expectedSecs else 0) ≤ Occurrence.maxUtc := by
  unfold watchdogWall
  by_cases h : cfg.span expectedSecs < 18446744073709551616 * NS
  · rw [watchdogSpan_eq h]
    show (∃ at_, wallAdd nowWall _ = .ok at_) ↔ _
    rw [wallAdd_ok_iff, fromStd_getD ReplyConfig.span_nonneg]
    exact ⟨fun hm => ⟨h, hm⟩, fun hm => hm.2⟩
  · obtain ⟨p, hp⟩ := watchdogSpan_error h
    rw [hp]
    exact ⟨fun ⟨_, he⟩ => (by cases he), fun hc => absurd hc.1 h⟩

theorem watchdogFits_iff : WatchdogFits cfg expectedSecs nowWall monoNow ↔
    (∃ at_, watchdogInstant cfg expectedSecs monoNow = .ok at_) ∧
      ∃ wall, watchdogWall cfg expectedSecs nowWall = .ok wall := by
  rw [watchdogInstant_ok_iff, watchdogWall_ok_iff]
  exact ⟨fun h => ⟨⟨h.span, h.mono⟩, h.span, h.wall⟩, fun h => ⟨h.1.1, h.1.2, h.2.2⟩⟩

end Watchdog

/-! ### Panics -/

/-- The abort is a panic. -/
def Abort.IsPanic (e : Abort) : Prop := ∃ p, e = .panic p

theorem Abort.isPanic_panic (p : Panic) : (Abort.panic p).IsPanic := ⟨p, rfl⟩

section Calm

variable {α β : Type} {timer : Timer} {claim : RunClaim} {row : RunStateRow}

/-- The program never panics. -/
abbrev Calm (m : ReplyM α) : Prop := Avoids Abort.IsPanic m

theorem calm_read (f : Store → α) : Calm (read f) := fun _ => trivial

theorem avoidsIff_read {C : Prop} {g : Store → β} {f : β → ReplyM α} {r : ReplyState}
    (h : AvoidsIff Abort.IsPanic C (f (g r.store)) r) :
    AvoidsIff Abort.IsPanic C (read g >>= f) r := h

theorem calm_onBook (f : DeadlineBook → DeadlineBook) : Calm (onBook f) := fun _ => trivial

theorem calm_onStore {m : StoreM α} (h : Avoids Abort.IsPanic m) : Calm (onStore m) :=
  avoids_zoom h

theorem avoids_emit (kind : RunState) (loggedAt : Int) (subject : EventSubject)
    (note : EventNote) : Avoids Abort.IsPanic (emit kind loggedAt subject note) := by
  unfold emit newUuid enqueueEventConn
  exact avoids_bind (avoids_modifyGet _) fun _ => avoids_modify _

theorem avoids_updateRunStateConn (row : RunStateRow) :
    Avoids Abort.IsPanic (updateRunStateConn row) := by
  intro s
  rw [wp_updateRunStateConn]
  trivial

theorem calm_emit (kind : RunState) (loggedAt : Int) (subject : EventSubject)
    (note : EventNote) : Calm (onStore (emit kind loggedAt subject note)) :=
  calm_onStore (avoids_emit kind loggedAt subject note)

theorem calm_updateRunState (row : RunStateRow) : Calm (onStore (updateRunStateConn row)) :=
  calm_onStore (avoids_updateRunStateConn row)

theorem calm_durationMs (runId : Uuid) (firedAt nowWall monoNow : Int) :
    Calm (durationMs runId firedAt nowWall monoNow) :=
  avoids_modifyGet _

theorem calm_ite {c : Prop} [Decidable c] {m m' : ReplyM α} (hm : Calm m) (hm' : Calm m') :
    Calm (if c then m else m') := by
  split
  · exact hm
  · exact hm'

theorem calm_markAcknowledged (nowWall : Int) :
    Calm (markAcknowledged timer claim row nowWall) := by
  refine avoids_bind (calm_onBook _) fun _ => calm_ite ?_ (calm_updateRunState _)
  exact avoids_bind (calm_emit _ _ _ _) fun _ => calm_updateRunState _

theorem calm_expirePickupOne (runId : Uuid) (nowWall : Int) :
    Calm (expirePickupOne timer runId nowWall) := by
  unfold expirePickupOne expirePickupOneInner
  refine avoids_transact (avoids_bind (calm_read _) fun row => ?_)
  split
  · exact avoids_pure _
  · next row _ =>
    refine calm_ite (avoids_pure _) (avoids_bind (calm_read _) fun current => ?_)
    refine calm_ite (avoids_pure _) (avoids_bind (calm_read _) fun claim => ?_)
    split
    · exact avoids_pure _
    · refine calm_ite (avoids_pure _) (avoids_bind (calm_read _) fun acked => ?_)
      apply calm_ite
      · exact avoids_bind (calm_markAcknowledged _) fun _ => avoids_pure _
      · refine avoids_bind (calm_onBook _) fun _ => avoids_bind (calm_emit _ _ _ _) fun _ => ?_
        exact avoids_bind (calm_updateRunState _) fun _ => avoids_pure _

theorem calm_expireWatchdogOne (runId : Uuid) (nowWall monoNow : Int) :
    Calm (expireWatchdogOne timer runId nowWall monoNow) := by
  unfold expireWatchdogOne expireWatchdogOneInner
  refine avoids_transact (avoids_bind (calm_read _) fun row => ?_)
  split
  · exact avoids_pure _
  · next row _ =>
    refine calm_ite (avoids_pure _) (calm_ite (avoids_pure _) ?_)
    refine avoids_bind (calm_read _) fun current => calm_ite (avoids_pure _) ?_
    refine avoids_bind (calm_read _) fun claim => ?_
    split
    · exact avoids_pure _
    · refine avoids_bind (calm_onBook _) fun _ => avoids_bind (calm_durationMs _ _ _ _) fun d => ?_
      refine avoids_bind (calm_emit _ _ _ _) fun _ => ?_
      exact avoids_bind (calm_updateRunState _) fun _ => avoids_pure _

theorem calm_expireRuns {expireOne : Timer → Uuid → ReplyM Bool}
    (h : ∀ timer runId, Calm (expireOne timer runId)) (due : List Uuid) :
    Calm (expireRuns expireOne due) := by
  induction due with
  | nil => exact avoids_pure _
  | cons runId due ih =>
    refine avoids_bind (calm_read _) fun row => ?_
    split
    · exact avoids_bind (calm_onBook _) fun _ => ih
    · refine avoids_bind (calm_read _) fun timer => ?_
      split
      · exact avoids_bind (calm_onBook _) fun _ => ih
      · exact avoids_bind (h _ _) fun _ => avoids_bind ih fun _ => avoids_pure _

theorem calm_caught {m : ReplyM α} (h : Calm m) : Calm (caught m) := by
  refine avoids_tryCatch (avoids_bind h fun _ => avoids_pure _) fun e he => ?_
  cases e with
  | error _ => exact avoids_pure _
  | panic p => exact avoids_throw he

theorem calm_dueByTimer (due : List (Uuid × DeadlineKind)) : Calm (dueByTimer due) := by
  induction due with
  | nil => exact avoids_pure _
  | cons d due ih =>
    refine avoids_bind (calm_read _) fun row => ?_
    split
    · exact avoids_bind (calm_onBook _) fun _ => ih
    · exact avoids_bind ih fun _ => avoids_pure _

theorem calm_expireByTimer (gate : Uuid → Bool) (nowWall monoNow : Int)
    (due : List (Uuid × Uuid × DeadlineKind)) :
    Calm (expireByTimer gate nowWall monoNow due) := by
  induction due with
  | nil => exact avoids_pure _
  | cons d due ih =>
    obtain ⟨timerId, runId, kind⟩ := d
    refine avoids_bind (calm_read _) fun timer => ?_
    split
    · exact ih
    · refine avoids_bind (calm_caught ?_) fun transitioned => ?_
      · cases kind with
        | pickup => exact calm_expirePickupOne _ _
        | watchdog => exact calm_expireWatchdogOne _ _ _
      · split
        · exact avoids_bind ih fun _ => avoids_pure _
        · exact avoids_bind (calm_onBook _) fun _ => ih
        · exact ih

end Calm

/-! ### What can panic -/

/-- The row and the state of a reply that is accepted. -/
def Store.acceptedReply (s : Store) (timer : Timer) (doc : ReplyDocument) (digest : String)
    (nowWall : Int) (currentOverride : Option Uuid) : Option (RunStateRow × RunState) :=
  match doc.validate with
  | .error _ => none
  | .ok (runId, newState, appName) =>
    match s.getRun runId with
    | none => none
    | some claim =>
      let newest := (s.runsForTimer timer.id).getLast?.map (·.runId)
      let row := currentRow s timer claim appName nowWall
      if claim.timerId = timer.id ∧ currentOverride.or newest = some runId ∧
          row.refuses doc appName newState = none ∧ row.replyDigest ≠ some digest then
        some (row, newState)
      else none

/-- A report that is no verdict, over a run with error detection and an
estimate, sets the watchdog by it. -/
def ReplyDocument.Watches (doc : ReplyDocument) (row : RunStateRow) (newState : RunState) : Prop :=
  newState.isTerminal = false ∧ doc.errorDetection.or row.errorDetection = some true ∧
    0 < (doc.expectedSecs.or row.expectedSecs).getD 0

/-- The watchdog that an accepted reply sets is in range. -/
def ReplyDocument.Fits (cfg : ReplyConfig) (doc : ReplyDocument) (row : RunStateRow)
    (newState : RunState) (nowWall monoNow : Int) : Prop :=
  doc.Watches row newState →
    WatchdogFits cfg ((doc.expectedSecs.or row.expectedSecs).getD 0) nowWall monoNow

section Reply

variable {cfg : ReplyConfig} {timer : Timer} {claim : RunClaim} {row : RunStateRow}
  {doc : ReplyDocument} {newState : RunState} {digest : String} {nowWall monoNow utc : Int}
  {r : ReplyState}

theorem armWatchdog_panics_iff {runId : Uuid} {expectedSecs : Nat} :
    AvoidsIff Abort.IsPanic (WatchdogFits cfg expectedSecs nowWall monoNow)
      (armWatchdog cfg runId expectedSecs nowWall monoNow) r := by
  unfold AvoidsIff
  rw [wp_armWatchdog_eq, watchdogFits_iff]
  cases watchdogInstant cfg expectedSecs monoNow with
  | error p =>
    refine iff_of_true (Abort.isPanic_panic p) fun h => ?_
    obtain ⟨⟨_, he⟩, -⟩ := h
    cases he
  | ok at_ =>
    cases watchdogWall cfg expectedSecs nowWall with
    | error p =>
      refine iff_of_true (Abort.isPanic_panic p) fun h => ?_
      obtain ⟨-, _, he⟩ := h
      cases he
    | ok wall => exact ⟨⟨at_, rfl⟩, wall, rfl⟩

theorem rearm_panics_iff :
    AvoidsIff Abort.IsPanic (newState.isTerminal = false → row.errorDetection = some true →
      0 < row.expectedSecs.getD 0 → WatchdogFits cfg (row.expectedSecs.getD 0) nowWall monoNow)
      (rearm cfg row newState nowWall monoNow) r := by
  unfold rearm AvoidsIff
  rw [wp_bind]
  by_cases hterm : newState.isTerminal = true
  · rw [if_pos hterm]
    show newState.isTerminal = false → _
    intro hopen
    rw [hterm] at hopen
    cases hopen
  · rw [if_neg hterm]
    by_cases harm : row.errorDetection = some true ∧ 0 < row.expectedSecs.getD 0
    · rw [if_pos harm]
      refine AvoidsIff.bind_avoids (armWatchdog_panics_iff.congr ?_) fun wall => avoids_pure _
      exact ⟨fun h _ _ _ => h, fun h => h (by simpa using hterm) harm.1 harm.2⟩
    · rw [if_neg harm]
      exact fun _ hon hsecs => absurd ⟨hon, hsecs⟩ harm

/-- The lines of an accepted reply do not panic. -/
theorem calm_logVerdict {curState : RunState} :
    Calm (logVerdict timer claim row doc curState newState nowWall monoNow utc) := by
  refine calm_ite (avoids_bind (calm_durationMs _ _ _ _) fun d => ?_) (avoids_pure _)
  exact calm_emit _ _ _ _

theorem avoids_logAcknowledged :
    Avoids Abort.IsPanic (logAcknowledged timer claim row nowWall) := by
  unfold logAcknowledged
  split
  · exact avoids_bind (avoids_emit _ _ _ _) fun _ => avoids_pure _
  · exact avoids_pure _

theorem avoids_logRunning :
    Avoids Abort.IsPanic (logRunning timer claim row doc newState nowWall) := by
  unfold logRunning
  split
  · exact avoids_bind (avoids_emit _ _ _ _) fun _ => avoids_pure _
  · exact avoids_pure _

theorem apply_panics_iff :
    AvoidsIff Abort.IsPanic (doc.Fits cfg row newState nowWall monoNow)
      (apply cfg timer claim row doc newState digest nowWall monoNow utc) r := by
  have hdetect : (row.report doc newState nowWall).errorDetection =
      doc.errorDetection.or row.errorDetection := by cases newState <;> rfl
  have hsecs : (row.report doc newState nowWall).expectedSecs =
      doc.expectedSecs.or row.expectedSecs := by cases newState <;> rfl
  have hfits : AvoidsIff Abort.IsPanic (doc.Fits cfg row newState nowWall monoNow)
      (rearm cfg (row.report doc newState nowWall) newState nowWall monoNow) r := by
    apply rearm_panics_iff.congr
    rw [hdetect, hsecs]
    exact ⟨fun h hw => h hw.1 hw.2.1 hw.2.2, fun h hopen hon hpos => h ⟨hopen, hon, hpos⟩⟩
  refine AvoidsIff.bind_avoids hfits fun row₁ => ?_
  refine avoids_bind (calm_onStore avoids_logAcknowledged) fun row₂ => ?_
  refine avoids_bind (calm_onStore avoids_logRunning) fun row₃ => ?_
  exact avoids_bind calm_logVerdict fun _ => calm_updateRunState _

theorem avoids_ingestStale : Avoids Abort.IsPanic (ingestStale timer claim digest utc) := by
  refine avoids_bind avoids_get fun s => ?_
  dsimp only
  split
  · exact avoids_pure _
  · refine avoids_bind (avoids_emit _ _ _ _) fun _ => ?_
    cases s.getRunState claim.runId with
    | none => exact avoids_pure _
    | some row => exact avoids_bind (avoids_updateRunStateConn _) fun _ => avoids_pure _

/-- What an ingest does is decided by the reply that it accepts, if any. -/
theorem avoidsIff_ingestInner {C : Prop} {currentOverride : Option Uuid}
    (h : match r.store.acceptedReply timer doc digest nowWall currentOverride with
      | some (row, newState) => doc.Fits cfg row newState nowWall monoNow ↔ C
      | none => C) :
    AvoidsIff Abort.IsPanic C
      (ingestInner cfg timer doc digest nowWall monoNow utc currentOverride) r := by
  unfold ingestInner
  unfold Store.acceptedReply at h
  split
  · next why hdoc =>
    rw [hdoc] at h
    exact (avoids_pure _).iff h
  · next runId newState appName hdoc =>
    rw [hdoc] at h
    dsimp only at h
    refine avoidsIff_read ?_
    split
    · next hnone =>
      rw [hnone] at h
      exact (avoids_pure _).iff h
    · next claim hclaim =>
      rw [hclaim] at h
      dsimp only at h
      split
      · next hother =>
        rw [if_neg fun hc => hother hc.1] at h
        exact (avoids_pure _).iff h
      · next hown =>
        refine avoidsIff_read ?_
        split
        · next hstale =>
          rw [if_neg fun hc => hstale hc.2.1] at h
          exact (calm_onStore avoids_ingestStale).iff h
        · next hcurrent =>
          refine avoidsIff_read ?_
          split
          · next why hwhy =>
            rw [if_neg fun hc => by rw [hwhy] at hc; cases hc.2.2.1] at h
            exact (avoids_pure _).iff h
          · next hfine =>
            split
            · next hdup =>
              rw [if_neg fun hc => hc.2.2.2 hdup] at h
              exact (avoids_pure _).iff h
            · next hnew =>
              rw [if_pos ⟨not_not.mp hown, not_not.mp hcurrent, hfine, hnew⟩] at h
              exact AvoidsIff.bind_avoids (apply_panics_iff.congr h) fun _ => avoids_pure _

/-- An ingest panics exactly when it accepts a reply whose watchdog is out of
range. -/
theorem ingestInner_panics_iff {currentOverride : Option Uuid} :
    AvoidsIff Abort.IsPanic
      (∀ row newState, r.store.acceptedReply timer doc digest nowWall currentOverride =
        some (row, newState) → doc.Fits cfg row newState nowWall monoNow)
      (ingestInner cfg timer doc digest nowWall monoNow utc currentOverride) r := by
  refine avoidsIff_ingestInner ?_
  generalize r.store.acceptedReply timer doc digest nowWall currentOverride = accepted
  match accepted with
  | none => exact fun _ _ he => absurd he (by simp)
  | some (row, newState) =>
    constructor
    · intro hfits row' newState' he
      obtain ⟨rfl, rfl⟩ := Prod.mk.inj (Option.some.inj he)
      exact hfits
    · intro hall
      exact hall row newState rfl

end Reply

/-! ### Passes -/

/-- The sum that a countdown rebuilt from the row would be is in range. -/
def RunStateRow.CountsDown (row : RunStateRow) (nowWall monoNow : Int) : Prop :=
  ∀ kind deadline, row.waitsFor = some (kind, deadline) →
    monoNow + remaining deadline nowWall ≤ maxInstant

/-- The row from which a pass rebuilds the countdown of a run. -/
def ReplyState.rebuilds (r : ReplyState) (run : Uuid) : Option RunStateRow :=
  if (r.book.get run).isSome then none else r.store.armedDeadlines.find? (·.runId == run)

section Pass

variable {r : ReplyState} {nowWall monoNow : Int}

theorem DeadlineBook.get_insert (b : DeadlineBook) (run : Uuid) (d : MonoDeadline) (k : Uuid) :
    (b.insert run d).get k = if k = run then some d else b.get k := by
  show ((b.entries.filter (fun e => e.1 ≠ run) ++ [(run, d)]).find? (·.1 == k)).map Prod.snd = _
  rw [show ((b.entries.filter (fun e => e.1 ≠ run) ++ [(run, d)]).find? (·.1 == k)) = _ from
    Rows.find?_put Prod.fst (run, d) k]
  split <;> rfl

theorem RunStateRow.countdown_of_waitsFor {row : RunStateRow} {kind : DeadlineKind}
    {deadline : Int} (h : row.waitsFor = some (kind, deadline)) :
    row.countdown nowWall monoNow =
      (monoAdd monoNow (remaining deadline nowWall)).map fun at_ => some ⟨kind, at_⟩ := by
  unfold countdown
  rw [h]
  show (monoAdd monoNow (remaining deadline nowWall) >>= _) = _
  cases monoAdd monoNow (remaining deadline nowWall) <;> rfl

theorem RunStateRow.countsDown_iff {row : RunStateRow} :
    row.CountsDown nowWall monoNow ↔ ∃ entry, row.countdown nowWall monoNow = .ok entry := by
  unfold CountsDown
  cases hwaits : row.waitsFor with
  | none =>
    refine iff_of_true nofun ⟨none, ?_⟩
    unfold countdown
    rw [hwaits]
    rfl
  | some waits =>
    obtain ⟨kind, deadline⟩ := waits
    have hsum := monoAdd_ok_iff (t := monoNow) (d := remaining deadline nowWall)
    rw [countdown_of_waitsFor hwaits]
    constructor
    · intro h
      obtain ⟨at_, hat⟩ := hsum.mpr (h kind deadline rfl)
      rw [hat]
      exact ⟨some ⟨kind, at_⟩, rfl⟩
    · rintro ⟨entry, he⟩ kind' deadline' heq
      obtain ⟨rfl, rfl⟩ := Prod.mk.inj (Option.some.inj heq)
      apply hsum.mp
      cases hat : monoAdd monoNow (remaining deadline nowWall) with
      | error p =>
        rw [hat] at he
        cases he
      | ok at_ => exact ⟨at_, rfl⟩

/-- The loop panics exactly when the first row of some run without a
countdown is out of range. -/
theorem syncRows_panics_iff {rows : List RunStateRow} (hwait : ∀ row ∈ rows, row.waitsFor.isSome) :
    AvoidsIff Abort.IsPanic
      (∀ run row, r.book.get run = none → rows.find? (·.runId == run) = some row →
        row.CountsDown nowWall monoNow)
      (syncRows nowWall monoNow rows) r := by
  induction rows generalizing r with
  | nil => exact (avoids_pure _).iff (by simp)
  | cons row rows ih =>
    have ih (r : ReplyState) := ih (r := r) fun row' hrow' => hwait row' (.tail _ hrow')
    have hother {run : Uuid} (hne : run ≠ row.runId) :
        (row :: rows).find? (·.runId == run) = rows.find? (·.runId == run) :=
      List.find?_cons_of_neg (by simpa using Ne.symm hne)
    show AvoidsIff _ _ (if (r.book.get row.runId).isSome then _ else _) r
    split
    · next hbooked =>
      refine (ih r).congr ⟨fun h run row' hfree hfind => ?_, fun h run row' hfree hfind => ?_⟩
      all_goals
        have hne : run ≠ row.runId := by
          rintro rfl
          rw [hfree] at hbooked
          cases hbooked
      · exact h run row' hfree (hother hne ▸ hfind)
      · exact h run row' hfree ((hother hne).symm ▸ hfind)
    · next hbooked =>
      have hfree : r.book.get row.runId = none := by simpa using hbooked
      have hhead : (row :: rows).find? (·.runId == row.runId) = some row :=
        List.find?_cons_of_pos (by simp)
      unfold AvoidsIff
      rw [wp_bind, wp_onStore]
      cases hcount : row.countdown nowWall monoNow with
      | error p =>
        refine iff_of_true (Abort.isPanic_panic p) fun h => ?_
        obtain ⟨entry, hentry⟩ := RunStateRow.countsDown_iff.mp (h _ _ hfree hhead)
        rw [hcount] at hentry
        cases hentry
      | ok entry? =>
        have hfits : row.CountsDown nowWall monoNow := RunStateRow.countsDown_iff.mpr ⟨_, hcount⟩
        cases entry? with
        | none =>
          -- An armed row waits for something.
          exfalso
          have hsome := hwait row (.head _)
          obtain ⟨⟨kind, deadline⟩, hwaits⟩ := Option.isSome_iff_exists.mp hsome
          rw [RunStateRow.countdown_of_waitsFor hwaits] at hcount
          cases hat : monoAdd monoNow (remaining deadline nowWall) <;> rw [hat] at hcount <;>
            cases hcount
        | some entry =>
          show AvoidsIff _ _ (syncRows nowWall monoNow rows >>= _) _
          refine AvoidsIff.bind_avoids ((ih _).congr ?_) fun n => avoids_pure _
          have hbook (run : Uuid) : (r.book.insert row.runId entry).get run =
              if run = row.runId then some entry else r.book.get run :=
            r.book.get_insert row.runId entry run
          constructor
          · intro h run row' hfree' hfind
            by_cases hne : run = row.runId
            · rw [hne, hhead] at hfind
              exact Option.some.inj hfind ▸ hfits
            · refine h run row' ?_ (hother hne ▸ hfind)
              rw [hbook, if_neg hne]
              exact hfree'
          · intro h run row' hfree' hfind
            rw [hbook] at hfree'
            split at hfree'
            · cases hfree'
            · next hne => exact h run row' hfree' ((hother hne).symm ▸ hfind)

theorem waitsFor_of_armed {row : RunStateRow} (h : row ∈ r.store.armedDeadlines) :
    row.waitsFor.isSome := by
  have hrow := ((List.perm_insertionSort _ _).mem_iff.mp h)
  have harmed := (List.mem_filter.mp hrow).2
  unfold RunStateRow.waitsFor
  cases hp : row.pickupDeadline with
  | some deadline => rfl
  | none => simpa [hp] using harmed

theorem syncDeadlineBook_panics_iff :
    AvoidsIff Abort.IsPanic
      (∀ run row, r.rebuilds run = some row → row.CountsDown nowWall monoNow)
      (syncDeadlineBook nowWall monoNow) r := by
  refine avoidsIff_read ((syncRows_panics_iff fun row => waitsFor_of_armed).congr ?_)
  unfold ReplyState.rebuilds
  constructor
  · intro h run row hrow
    split at hrow
    · cases hrow
    · next hfree => exact h run row (by simpa using hfree) hrow
  · intro h run row hfree hrow
    refine h run row ?_
    rw [hfree]
    exact hrow

end Pass

/-! ### The operations -/

/-- What the reply engine is called for. -/
inductive EngineCall where
  | ingest (timer : Timer) (doc : ReplyDocument) (digest : String) (nowWall monoNow utc : Int)
  | ingestAsCurrent (timer : Timer) (doc : ReplyDocument) (digest : String) (asCurrent : Uuid)
      (nowWall monoNow utc : Int)
  | watchdogInstant (expectedSecs : Nat) (monoNow : Int)
  | watchdogWall (expectedSecs : Nat) (nowWall : Int)
  | syncDeadlineBook (nowWall monoNow : Int)
  | expirePickups (nowWall monoNow : Int)
  | expireWatchdogs (nowWall monoNow : Int)
  | expireAllDeadlines
      (order : List (Uuid × Uuid × DeadlineKind) → List (Uuid × Uuid × DeadlineKind))
      (gate : Uuid → Bool) (nowWall monoNow : Int)

namespace EngineCall

def perform (cfg : ReplyConfig) : EngineCall → ReplyM Unit
  | ingest timer doc digest nowWall monoNow utc => do
    let _ ← Bellman.ingest cfg timer doc digest nowWall monoNow utc
  | ingestAsCurrent timer doc digest asCurrent nowWall monoNow utc => do
    let _ ← Bellman.ingestAsCurrent cfg timer doc digest asCurrent nowWall monoNow utc
  | watchdogInstant expectedSecs monoNow => do
    let _ ← onStore (orPanic (Bellman.watchdogInstant cfg expectedSecs monoNow))
  | watchdogWall expectedSecs nowWall => do
    let _ ← onStore (orPanic (Bellman.watchdogWall cfg expectedSecs nowWall))
  | syncDeadlineBook nowWall monoNow => do
    let _ ← Bellman.syncDeadlineBook nowWall monoNow
  | expirePickups nowWall monoNow => do
    let _ ← Bellman.expirePickups nowWall monoNow
  | expireWatchdogs nowWall monoNow => do
    let _ ← Bellman.expireWatchdogs nowWall monoNow
  | expireAllDeadlines order gate nowWall monoNow => do
    let _ ← Watcher.expireAllDeadlines order gate nowWall monoNow

/-- The deadlines that the call computes are in the ranges of their clocks. -/
def InRange (cfg : ReplyConfig) (r : ReplyState) : EngineCall → Prop
  | ingest timer doc digest nowWall monoNow _ =>
    ∀ row newState, r.store.acceptedReply timer doc digest nowWall none = some (row, newState) →
      doc.Fits cfg row newState nowWall monoNow
  | ingestAsCurrent timer doc digest asCurrent nowWall monoNow _ =>
    ∀ row newState, r.store.acceptedReply timer doc digest nowWall (some asCurrent) =
      some (row, newState) → doc.Fits cfg row newState nowWall monoNow
  | watchdogInstant expectedSecs monoNow =>
    cfg.span expectedSecs < 18446744073709551616 * NS ∧
      monoNow + cfg.span expectedSecs ≤ maxInstant
  | watchdogWall expectedSecs nowWall =>
    cfg.span expectedSecs < 18446744073709551616 * NS ∧
      nowWall + (if cfg.span expectedSecs ≤ Occurrence.I64_MAX * 1000000 then
        cfg.span expectedSecs else 0) ≤ Occurrence.maxUtc
  | syncDeadlineBook nowWall monoNow | expireAllDeadlines _ _ nowWall monoNow =>
    ∀ run row, r.rebuilds run = some row → row.CountsDown nowWall monoNow
  | expirePickups _ _ | expireWatchdogs _ _ => True

end EngineCall

theorem orPanic_panics_iff {α : Type} {x : Except Panic α} {r : ReplyState} :
    AvoidsIff Abort.IsPanic (∃ a, x = .ok a) (onStore (orPanic x)) r := by
  cases x with
  | error p =>
    refine iff_of_true (Abort.isPanic_panic p) fun h => ?_
    obtain ⟨_, he⟩ := h
    cases he
  | ok a => exact ⟨a, rfl⟩

/-- A panic of the first step ends the pass, an error does not. -/
theorem avoidsIff_caught {α : Type} {C : Prop} {m : ReplyM α} {r : ReplyState}
    (h : AvoidsIff Abort.IsPanic C m r) : AvoidsIff Abort.IsPanic C (caught m) r := by
  unfold caught AvoidsIff
  rw [wp_tryCatch, wp_bind]
  refine wp_mono h (fun _ _ hC => hC) fun e r' he => ?_
  cases e with
  | error err =>
    -- The error is none of the panics that the condition excludes.
    by_contra hC
    obtain ⟨p, hp⟩ := he.mpr hC
    cases hp
  | panic p => exact he

theorem EngineCall.panics_iff (cfg : ReplyConfig) (r : ReplyState) (c : EngineCall) :
    AvoidsIff Abort.IsPanic (c.InRange cfg r) (c.perform cfg) r := by
  cases c with
  | ingest timer doc digest nowWall monoNow utc =>
    refine AvoidsIff.bind_avoids ?_ fun _ => avoids_pure _
    show wp (Prog.transact _ _) _ _ r
    rw [wp_transact]
    exact ingestInner_panics_iff
  | ingestAsCurrent timer doc digest asCurrent nowWall monoNow utc =>
    exact AvoidsIff.bind_avoids ingestInner_panics_iff fun _ => avoids_pure _
  | watchdogInstant expectedSecs monoNow =>
    exact AvoidsIff.bind_avoids (orPanic_panics_iff.congr watchdogInstant_ok_iff) fun _ =>
      avoids_pure _
  | watchdogWall expectedSecs nowWall =>
    exact AvoidsIff.bind_avoids (orPanic_panics_iff.congr watchdogWall_ok_iff) fun _ =>
      avoids_pure _
  | syncDeadlineBook nowWall monoNow =>
    exact AvoidsIff.bind_avoids syncDeadlineBook_panics_iff fun _ => avoids_pure _
  | expirePickups nowWall monoNow =>
    refine Avoids.iff (avoids_bind (avoids_bind avoids_get fun r' => ?_) fun _ => avoids_pure _)
      trivial
    exact calm_expireRuns (fun timer runId => calm_expirePickupOne runId nowWall) _
  | expireWatchdogs nowWall monoNow =>
    refine Avoids.iff (avoids_bind (avoids_bind avoids_get fun r' => ?_) fun _ => avoids_pure _)
      trivial
    exact calm_expireRuns (fun timer runId => calm_expireWatchdogOne runId nowWall monoNow) _
  | expireAllDeadlines order gate nowWall monoNow =>
    refine AvoidsIff.bind_avoids (AvoidsIff.bind_avoids (avoidsIff_caught
      syncDeadlineBook_panics_iff) fun _ => ?_) fun _ => avoids_pure _
    have hdue (kind : DeadlineKind) : Calm (do
        return ((← get).book.dueDeadlines kind monoNow).map fun runId => (runId, kind) :
        ReplyM (List (Uuid × DeadlineKind))) :=
      avoids_bind avoids_get fun _ => avoids_pure _
    refine avoids_bind (hdue _) fun _ => avoids_bind (calm_dueByTimer _) fun _ => ?_
    refine avoids_bind (hdue _) fun _ => avoids_bind (calm_dueByTimer _) fun _ => ?_
    exact calm_expireByTimer gate nowWall monoNow _

/-- **When the reply engine is total.**  A call panics, whatever the reply,
the factor and the state, if and only if it computes a deadline that is out
of range. -/
theorem reply_total_iff (cfg : ReplyConfig) (r : ReplyState) (c : EngineCall) :
    (∀ p r', (c.perform cfg).run r ≠ (.error (.panic p), r')) ↔ c.InRange cfg r := by
  rw [← (c.panics_iff cfg r).iff]
  constructor
  · rintro h e r' hrun ⟨p, rfl⟩
    exact h p r' hrun
  · intro h p r' hrun
    exact h _ r' hrun (Abort.isPanic_panic p)

section Sample

attribute [local instance] Calendar.utcOnly

/-- The app is at work, for so many seconds. -/
def ReplyDocument.watched (expectedSecs : Nat) : ReplyDocument where
  schema := some REPLY_SCHEMA_V1
  runId := some ⟨1⟩
  appName := some "app"
  state := some "running"
  expectedSecs := some expectedSecs
  errorDetection := some true

/-- A run that waits for its app. -/
def awaitingApp : List Commit :=
  [.createTimer (.sample .skip) 0, .setTimerOwner ⟨0⟩ "app", .fire (.owned (60 * NS)),
    .registerFire ⟨1⟩ (60 * NS) (60 * NS)]

/-- The largest estimate that a reply can name is too large. -/
theorem reply_panics :
    ¬∀ (tr : List (System.Event ReplyState Commit)) (r : ReplyState),
      (ledger .sample).Run {} tr r → ∀ (c : EngineCall) (p : Panic) (r' : ReplyState),
        (c.perform FireConfig.sample.reply).run r ≠ (.error (.panic p), r') := by
  intro h
  let r := awaitingApp.foldl (fun r c => Commit.after .sample c r) {}
  let c : EngineCall := .ingest (.sample .skip) (.watched 18446744073709551615) "first"
    (61 * NS) (61 * NS) (61 * NS)
  have hpanics : ∃ p, ((c.perform FireConfig.sample.reply).run r).1 = .error (.panic p) :=
    ⟨.durationOutOfBounds 36893488147419103230, by decide +kernel⟩
  obtain ⟨p, hp⟩ := hpanics
  exact h _ r (run_commits .sample awaitingApp) c p _ (Prod.ext hp rfl)

end Sample

end Bellman
