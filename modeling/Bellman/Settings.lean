/-
Bellman/Settings.lean

The settings, and the instants that are computed from them.

`config.json` holds spans as numbers of seconds.  Loading it replaces the
zeros and leaves everything else as it is, so a span may be anything that
fits 64 bits.  The engine turns it into a `Duration`, and where that has no
counterpart in chrono it falls back on another span or on none:

    too long for chrono     the fallback
    otherwise               instant + span, which aborts past the last instant

Main result: when the calls that compute instants from the settings complete
(`completes_iff`).
-/
import Bellman.Clocks
import Bellman.DueQuery
import Bellman.Misfire
import Bellman.Pruner
import Bellman.Windows

namespace Bellman

open ProgramLogic Prog ReplyM
open Windows (shiftUtc)

/-! ### The settings -/

/-- `config.json`, as far as it is looked at when it is loaded. -/
structure AppConfig where
  horizonSecs : UInt64 := 24 * 60 * 60
  retentionDays : UInt64 := 30
  minFreeSlots : UInt64 := 5
  maxConcurrentActions : UInt64 := 16
  ackGraceSecs : UInt64 := 60
  pruneIntervalSecs : UInt64 := 7 * 24 * 60 * 60
  defaultMisfirePolicy : String := "coalesce"
  defaultMisfireGraceSecs : UInt64 := 3600
  logRotationMaxBytes : UInt64 := 64 * 1024 * 1024
  logRetentionBudgetBytes : UInt64 := 1024 * 1024 * 1024
  pickupGraceSecs : UInt64 := 60
  /-- A finite number: JSON has no other. -/
  watchdogFactor : Rat := 2
  quarantineBudgetBytes : UInt64 := 64 * 1024 * 1024
  deriving Repr, DecidableEq

namespace AppConfig

/-- Replace a zero. -/
def orDefault (n default : UInt64) : UInt64 := if n = 0 then default else n

def sanitized (cfg : AppConfig) : AppConfig :=
  let p := cfg.defaultMisfirePolicy.map Char.toLower
  { cfg with
    horizonSecs := orDefault cfg.horizonSecs (24 * 60 * 60)
    retentionDays := orDefault cfg.retentionDays 30
    minFreeSlots := orDefault cfg.minFreeSlots 5
    maxConcurrentActions := max 1 (min cfg.maxConcurrentActions 256)
    pruneIntervalSecs := orDefault cfg.pruneIntervalSecs (7 * 24 * 60 * 60)
    defaultMisfirePolicy :=
      if p = "skip" ∨ p = "coalesce" ∨ p = "catch_up" then p else "coalesce"
    defaultMisfireGraceSecs := orDefault cfg.defaultMisfireGraceSecs 3600
    logRotationMaxBytes := max cfg.logRotationMaxBytes (1024 * 1024)
    logRetentionBudgetBytes := max cfg.logRetentionBudgetBytes (4 * 1024 * 1024)
    pickupGraceSecs := orDefault cfg.pickupGraceSecs 60
    watchdogFactor := if 0 < cfg.watchdogFactor then cfg.watchdogFactor else 2
    quarantineBudgetBytes := max cfg.quarantineBudgetBytes (1024 * 1024) }

/-- `load`, given what is read from the path, where there is a file, and the
parser; what cannot be parsed counts as the defaults. -/
def load (fromSlice : List UInt8 → Option AppConfig)
    (file : Option (Except String (List UInt8))) : Except String AppConfig :=
  match file with
  | none => .ok {}
  | some (.error e) => .error e
  | some (.ok bytes) =>
    match fromSlice bytes with
    | some cfg => .ok cfg.sanitized
    | none => .ok {}

/-- `Duration::from_secs`. -/
def fromSecs (n : UInt64) : Nat := n.toNat * 1000000000

def horizon (cfg : AppConfig) : Nat := fromSecs cfg.horizonSecs

def pruneInterval (cfg : AppConfig) : Nat := fromSecs cfg.pruneIntervalSecs

def ackGrace (cfg : AppConfig) : Nat := fromSecs cfg.ackGraceSecs

def pickupGrace (cfg : AppConfig) : Nat := fromSecs cfg.pickupGraceSecs

/-- The settings of the reply engine. -/
def reply (cfg : AppConfig) : ReplyConfig where
  pickupGrace := cfg.pickupGrace
  watchdogFactor := cfg.watchdogFactor

end AppConfig

/-! ### Jitter -/

def HIGH_FREQ_PERIOD_SECS : Nat := 5 * 60

def Timer.isHighFrequency (timer : Timer) : Bool :=
  match timer.occurrence.kind with
  | .interval everySecs _ => decide (everySecs < HIGH_FREQ_PERIOD_SECS)
  | _ => false

/-- `jitter_offset_secs`; `hash` is the standard hasher, on the id and the
nanoseconds of the instant. -/
def jitterOffsetSecs (hash : Uuid → Int → Nat) (timerId : Uuid) (scheduledFor : Int)
    (jitterSecs : Nat) : Int :=
  if jitterSecs = 0 then 0
  else
    let raw := hash timerId ((Occurrence.checkedI64 scheduledFor).getD 0)
    let span := jitterSecs * 2 + 1
    (raw % span : Nat) - jitterSecs

def applyExecutionJitter (hash : Uuid → Int → Nat) (timerId : Uuid) (fireAt : Int)
    (jitterSecs : Nat) : Except Panic Int :=
  shiftUtc fireAt (secs (jitterOffsetSecs hash timerId fireAt jitterSecs))

/-! ### The heap -/

inductive HeapEntry where
  | fire (execAt : Int) (timerId : Uuid)
  | deadline (wallAt : Int) (runId : Uuid) (kind : DeadlineKind)
  deriving Repr, DecidableEq

/-- What the engine works on. -/
structure EngineState where
  memory : ReplyState := {}
  /-- There is a data directory, and with it a reply engine. -/
  engine : Bool := true

namespace EngineState

def rows (sv : EngineState) : List TimerRow := sv.memory.store.timers.map Timer.toRow

/-- `list_timers`. -/
def listTimers (sv : EngineState) : Except StoreError (List Timer) :=
  (sv.memory.store.listTimers.map Timer.toRow).mapM rowToTimer

/-- `get_timer(..).ok().flatten()`. -/
def getTimer (sv : EngineState) (id : Uuid) : Option Timer :=
  (sv.memory.store.getTimer id).bind fun t => (rowToTimer t.toRow).toOption

def deadlines (sv : EngineState) : List (Uuid × MonoDeadline) :=
  if sv.engine then sv.memory.book.entries else []

end EngineState

abbrev HeapM (α : Type) : Type := ExceptT SchedulerError (Except Panic) α

def orStoreError {α : Type} : Except StoreError α → HeapM α
  | .ok a => pure a
  | .error e => throw (.abort (.error e))

/-- The entry of a timer that has a next fire. -/
def fireEntry (hash : Uuid → Int → Nat) (t : Timer) : Except Panic (Option HeapEntry) :=
  match t.nextFireUtc with
  | some nf => do return some (.fire (← applyExecutionJitter hash t.id nf t.jitterSecs) t.id)
  | none => .ok none

/-- The entry of a countdown, by a wall clock estimate. -/
def deadlineEntry (now monoNow : Int) (e : Uuid × MonoDeadline) : Except Panic HeapEntry := do
  -- `saturating_duration_since`
  let remaining := (e.2.at_ - monoNow).toNat
  return .deadline (← shiftUtc now ((fromStd remaining).getD 0)) e.1 e.2.kind

/-- The ids of the timers that are on the heap. -/
def seenIds (due : List Timer) : List Uuid :=
  (due.filter (·.nextFireUtc.isSome)).map Timer.id

/-- A high-frequency timer that is always on the heap. -/
def IsResident (due : List Timer) (t : Timer) : Prop :=
  t.enabled = true ∧ t.id ∉ seenIds due ∧ t.isHighFrequency = true

instance (due : List Timer) (t : Timer) : Decidable (IsResident due t) :=
  inferInstanceAs (Decidable (_ ∧ _ ∧ _))

/-- `rebuild_horizon`: what is on the heap afterwards. -/
def rebuildHorizon (hash : Uuid → Int → Nat) (horizon : Nat) (sv : EngineState)
    (now monoNow : Int) : HeapM (List HeapEntry) :=
  match fromStd horizon with
  | none => throw (.internal
      "horizon duration: Source duration value is out of range for the target type")
  | some d => do
    let limit ← liftM (shiftUtc now d)
    let due ← orStoreError (timersDueBy sv.rows limit)
    let fires ← liftM (due.mapM (fireEntry hash))
    let timers ← orStoreError sv.listTimers
    let resident ← liftM ((timers.filter (IsResident due ·)).mapM (fireEntry hash))
    let deadlines ← liftM (sv.deadlines.mapM (deadlineEntry now monoNow))
    return fires.filterMap id ++ resident.filterMap id ++ deadlines

/-- Whether the instant is on the heap; a horizon that chrono cannot tell has
no end. -/
def withinHorizon (horizon : Nat) (now execAt : Int) : Except Panic Bool :=
  match fromStd horizon with
  | none => .ok true
  | some d => do
    let limit ← shiftUtc now d
    return execAt ≤ limit

/-- `push_if_in_horizon`: the entry that is pushed, if any. -/
def pushIfInHorizon (hash : Uuid → Int → Nat) (horizon : Nat) (sv : EngineState) (fireAt : Int)
    (timerId : Uuid) (now : Int) : Except Panic (Option HeapEntry) := do
  let timer := sv.getTimer timerId
  let execAt ← applyExecutionJitter hash timerId fireAt ((timer.map Timer.jitterSecs).getD 0)
  let horizonOk ← withinHorizon horizon now execAt
  return if horizonOk || timer.any Timer.isHighFrequency then some (.fire execAt timerId) else none

/-! ### The calls -/

/-- The calls that compute instants from the settings. -/
inductive ServiceCall where
  | rebuildHorizon (now monoNow : Int)
  | pushIfInHorizon (fireAt : Int) (timerId : Uuid) (now : Int)
  | pruneIsDue (lastPrune : Option Int) (now : Int)
  | isTerminalOneshot (timer : Timer) (now : Int)
  | registerFire (runId : Uuid) (nowWall monoNow : Int)
  | syncDeadlineBook (nowWall monoNow : Int)

/-- A value or an error, unless it is a panic. -/
def unlessPanic {α : Type} : Except Abort α → Except Panic Unit
  | .error (.panic p) => .error p
  | .error (.error _) | .ok _ => .ok ()

namespace ServiceCall

def perform (hash : Uuid → Int → Nat) (cfg : AppConfig) (sv : EngineState) :
    ServiceCall → Except Panic Unit
  | rebuildHorizon now monoNow => do
    let _ ← (Bellman.rebuildHorizon hash cfg.horizon sv now monoNow).run
  | pushIfInHorizon fireAt timerId now => do
    let _ ← Bellman.pushIfInHorizon hash cfg.horizon sv fireAt timerId now
  | pruneIsDue lastPrune now => do
    let _ ← Bellman.pruneIsDue lastPrune now cfg.pruneInterval
  | isTerminalOneshot timer now => do
    let _ ← timer.isTerminalGiven (sv.memory.store.runsForTimer timer.id) now cfg.ackGrace
  | registerFire runId nowWall monoNow =>
    unlessPanic ((Bellman.registerFire cfg.reply runId nowWall monoNow).run sv.memory).1
  | syncDeadlineBook nowWall monoNow =>
    unlessPanic ((Bellman.syncDeadlineBook nowWall monoNow).run sv.memory).1

end ServiceCall

/-! ### The ranges -/

section

variable {hash : Uuid → Int → Nat} {cfg : AppConfig} {sv : EngineState} {t d now : Int}

theorem shiftUtc_ok_iff : (∃ u, shiftUtc t d = .ok u) ↔ IsUtc (t + d) := by
  constructor
  · rintro ⟨u, h⟩
    obtain ⟨hrange, rfl⟩ := Windows.shiftUtc_eq_ok.mp h
    exact hrange
  · exact fun h => ⟨_, Windows.shiftUtc_eq_ok.mpr ⟨h, rfl⟩⟩

theorem faultless_shiftUtc_iff {ε α : Type} {f : Int → ExceptT ε (Except Panic) α} :
    Faultless ((liftM (shiftUtc t d) : ExceptT ε (Except Panic) Int) >>= f) ↔
      IsUtc (t + d) ∧ Faultless (f (t + d)) := by
  rw [faultless_lift_bind_iff]
  constructor
  · rintro ⟨u, h, hf⟩
    obtain ⟨hrange, rfl⟩ := Windows.shiftUtc_eq_ok.mp h
    exact ⟨hrange, hf⟩
  · exact fun ⟨h, hf⟩ => ⟨_, Windows.shiftUtc_eq_ok.mpr ⟨h, rfl⟩, hf⟩

/-- The fire can be put off, or brought forward, by its jitter. -/
def JitterFits (hash : Uuid → Int → Nat) (timerId : Uuid) (fireAt : Int) (jitterSecs : Nat) :
    Prop :=
  IsUtc (fireAt + secs (jitterOffsetSecs hash timerId fireAt jitterSecs))

/-- The next fire, if any, with its jitter. -/
def Timer.JitterFits (hash : Uuid → Int → Nat) (timer : Timer) : Prop :=
  ∀ nf, timer.nextFireUtc = some nf → Bellman.JitterFits hash timer.id nf timer.jitterSecs

theorem fireEntry_ok_iff {timer : Timer} :
    (∃ e, fireEntry hash timer = .ok e) ↔ timer.JitterFits hash := by
  unfold fireEntry Timer.JitterFits
  cases timer.nextFireUtc with
  | none => exact iff_of_true ⟨none, rfl⟩ nofun
  | some nf =>
    simp only [Option.some.injEq, forall_eq']
    rw [exists_bind_iff]
    constructor
    · rintro ⟨u, h, -⟩
      exact shiftUtc_ok_iff.mp ⟨u, h⟩
    · intro h
      obtain ⟨u, hu⟩ := shiftUtc_ok_iff.mpr h
      exact ⟨u, hu, _, rfl⟩

/-- The wall clock estimate of a countdown; what chrono cannot tell counts as
none. -/
def DeadlineFits (now monoNow : Int) (d : MonoDeadline) : Prop :=
  IsUtc (now + (fromStd (d.at_ - monoNow).toNat).getD 0)

theorem deadlineEntry_ok_iff {monoNow : Int} {e : Uuid × MonoDeadline} :
    (∃ entry, deadlineEntry now monoNow e = .ok entry) ↔ DeadlineFits now monoNow e.2 := by
  unfold deadlineEntry DeadlineFits
  dsimp only
  rw [exists_bind_iff, ← shiftUtc_ok_iff]
  exact ⟨fun ⟨u, h, _⟩ => ⟨u, h⟩, fun ⟨u, h⟩ => ⟨u, h, _, rfl⟩⟩

theorem faultless_orStoreError_iff {α β : Type} {x : Except StoreError α} {f : α → HeapM β} :
    Faultless (orStoreError x >>= f) ↔ ∀ a, x = .ok a → Faultless (f a) := by
  cases x with
  | error e => exact iff_of_true ⟨_, rfl⟩ nofun
  | ok a =>
    simp only [Except.ok.injEq, forall_eq']
    exact Iff.rfl

/-- A horizon that chrono can tell ends before the last instant, and what is
put on the heap is in range. -/
def HorizonFits (hash : Uuid → Int → Nat) (horizon : Nat) (sv : EngineState) (now monoNow : Int) :
    Prop :=
  ∀ d, fromStd horizon = some d → IsUtc (now + d) ∧
    ∀ due, timersDueBy sv.rows (now + d) = .ok due → (∀ t ∈ due, t.JitterFits hash) ∧
      ∀ timers, sv.listTimers = .ok timers →
        (∀ t ∈ timers, IsResident due t → t.JitterFits hash) ∧
        ∀ e ∈ sv.deadlines, DeadlineFits now monoNow e.2

/-- What comes after a loop may depend on it only by whether it ends. -/
theorem faultless_mapM_bind_iff {α β γ : Type} {g : α → Except Panic β} {l : List α}
    {f : List β → HeapM γ} {C : Prop} (hf : ∀ bs, Faultless (f bs) ↔ C) :
    Faultless ((liftM (l.mapM g) : HeapM (List β)) >>= f) ↔ (∀ a ∈ l, ∃ b, g a = .ok b) ∧ C := by
  rw [faultless_lift_bind_iff, ← exists_mapM_iff]
  simp only [hf, exists_and_right]

theorem faultless_rebuildHorizon_iff {horizon : Nat} {monoNow : Int} :
    Faultless (rebuildHorizon hash horizon sv now monoNow) ↔
      HorizonFits hash horizon sv now monoNow := by
  unfold rebuildHorizon HorizonFits
  cases fromStd horizon with
  | none => exact iff_of_true ⟨_, rfl⟩ nofun
  | some d =>
    simp only [Option.some.injEq, forall_eq']
    rw [faultless_shiftUtc_iff]
    refine and_congr_right fun _ => ?_
    rw [faultless_orStoreError_iff]
    refine forall₂_congr fun due _ => ?_
    simp only [← fireEntry_ok_iff, ← deadlineEntry_ok_iff]
    refine faultless_mapM_bind_iff fun fires => ?_
    rw [faultless_orStoreError_iff]
    refine forall₂_congr fun timers _ => ?_
    have hresident : (∀ t ∈ timers, IsResident due t → ∃ e, fireEntry hash t = .ok e) ↔
        ∀ t ∈ timers.filter (IsResident due ·), ∃ e, fireEntry hash t = .ok e := by
      simp only [List.mem_filter, decide_eq_true_eq, and_imp]
    rw [hresident]
    refine faultless_mapM_bind_iff fun resident => ?_
    rw [← and_true (∀ e ∈ sv.deadlines, _)]
    exact faultless_mapM_bind_iff fun _ => iff_true_intro (faultless_pure _)

/-- The horizon ends before the last instant, unless chrono cannot tell it. -/
theorem withinHorizon_ok_iff {horizon : Nat} {execAt : Int} :
    (∃ b, withinHorizon horizon now execAt = .ok b) ↔
      ∀ d, fromStd horizon = some d → IsUtc (now + d) := by
  unfold withinHorizon
  cases fromStd horizon with
  | none => exact iff_of_true ⟨_, rfl⟩ nofun
  | some d =>
    simp only [Option.some.injEq, forall_eq']
    rw [exists_bind_iff, ← shiftUtc_ok_iff]
    exact ⟨fun ⟨u, h, _⟩ => ⟨u, h⟩, fun ⟨u, h⟩ => ⟨u, h, _, rfl⟩⟩

theorem pushIfInHorizon_ok_iff {horizon : Nat} {fireAt : Int} {timerId : Uuid} :
    (∃ e, pushIfInHorizon hash horizon sv fireAt timerId now = .ok e) ↔
      JitterFits hash timerId fireAt (((sv.getTimer timerId).map Timer.jitterSecs).getD 0) ∧
        ∀ d, fromStd horizon = some d → IsUtc (now + d) := by
  unfold pushIfInHorizon JitterFits
  dsimp only
  rw [exists_bind_iff, ← shiftUtc_ok_iff]
  constructor
  · rintro ⟨execAt, hexec, e, he⟩
    obtain ⟨b, hb, -⟩ := exists_bind_iff.mp ⟨e, he⟩
    exact ⟨⟨execAt, hexec⟩, withinHorizon_ok_iff.mp ⟨b, hb⟩⟩
  · rintro ⟨⟨execAt, hexec⟩, hhorizon⟩
    obtain ⟨b, hb⟩ := withinHorizon_ok_iff.mpr hhorizon
    exact ⟨execAt, hexec, exists_bind_iff.mpr ⟨b, hb, _, rfl⟩⟩

theorem pruneIsDue_ok_iff {lastPrune : Option Int} {interval : Nat} :
    (∃ b, pruneIsDue lastPrune now interval = .ok b) ↔ ∀ lp, lastPrune = some lp →
      lp + (fromStd interval).getD (secs (7 * 24 * 60 * 60)) ≤ Occurrence.maxUtc := by
  unfold pruneIsDue
  cases lastPrune with
  | none => exact iff_of_true ⟨true, rfl⟩ nofun
  | some lp =>
    simp only [Option.some.injEq, forall_eq']
    rw [exists_bind_iff, ← wallAdd_ok_iff]
    exact ⟨fun ⟨u, h, _⟩ => ⟨u, h⟩, fun ⟨u, h⟩ => ⟨u, h, _, rfl⟩⟩

/-- The one-shot is finished but for the grace. -/
structure Timer.AwaitsGrace (timer : Timer) (runs : List RunClaim) (now : Int) : Prop where
  once : timer.isOnce = true
  claims : runs.any (·.isUnfinished) = false
  past : timer.nextFireUtc.any (now < ·) = false
  done : timer.hasFired = true ∨ timer.wasSkipped = true ∨ timer.windowEnded now = true

theorem judged_ok_iff {c : Bool} {x : Except Panic Bool} :
    (∃ b, (if c then .ok false else x) = .ok b) ↔ (c = false → ∃ b, x = .ok b) := by
  cases c with
  | true => exact iff_of_true ⟨false, rfl⟩ nofun
  | false => exact ⟨fun h _ => h, fun h => h rfl⟩

theorem isTerminalGiven_ok_iff {timer : Timer} {runs : List RunClaim} {grace : Nat} :
    (∃ b, timer.isTerminalGiven runs now grace = .ok b) ↔ (timer.AwaitsGrace runs now →
      timer.terminalMoment now + (fromStd grace).getD (secs 60) ≤ Occurrence.maxUtc) := by
  have hawaits : timer.AwaitsGrace runs now ↔ timer.isOnce = true ∧
      runs.any (·.isUnfinished) = false ∧ timer.nextFireUtc.any (now < ·) = false ∧
      (timer.hasFired = true ∨ timer.wasSkipped = true ∨ timer.windowEnded now = true) :=
    ⟨fun h => ⟨h.once, h.claims, h.past, h.done⟩, fun h => ⟨h.1, h.2.1, h.2.2.1, h.2.2.2⟩⟩
  rw [hawaits]
  unfold Timer.isTerminalGiven Timer.isOnce
  split
  · rw [eq_self_iff_true, true_and, and_imp, and_imp]
    refine judged_ok_iff.trans (imp_congr_right fun _ => ?_)
    refine judged_ok_iff.trans (imp_congr_right fun _ => ?_)
    refine judged_ok_iff.trans (imp_congr ?_ ?_)
    · simp only [Timer.hasFired, Timer.wasSkipped, Timer.windowEnded]
      generalize (timer.lastFired.isSome && timer.nextFireUtc.isNone) = fired
      generalize (timer.validUntil.any (· ≤ now) ||
        timer.occurrence.validUntil.any (· ≤ now)) = ended
      cases timer.nextFireUtc.isNone <;> cases timer.enabled <;> cases fired <;> cases ended <;>
        simp
    · dsimp only
      rw [exists_bind_iff, ← wallAdd_ok_iff]
      constructor
      · rintro ⟨u, h, _⟩
        exact ⟨u, h⟩
      · rintro ⟨u, h⟩
        exact ⟨u, h, _, rfl⟩
  · refine iff_of_true ⟨false, rfl⟩ fun h => ?_
    cases h.1

theorem unlessPanic_ok_iff {α : Type} {C : Prop} {m : ReplyM α} {r : ReplyState}
    (h : AvoidsIff Abort.IsPanic C m r) : (∃ out, unlessPanic (m.run r).1 = .ok out) ↔ C := by
  rw [← h.iff]
  rcases hrun : m.run r with ⟨e | a, r'⟩
  · cases e with
    | error e =>
      refine iff_of_true ⟨(), rfl⟩ fun e' r'' heq hpanic => ?_
      obtain ⟨p, rfl⟩ := hpanic
      cases heq
    | panic p =>
      refine iff_of_false (fun ⟨_, h⟩ => nomatch h) fun h => ?_
      exact h (.panic p) r' rfl (Abort.isPanic_panic p)
  · exact iff_of_true ⟨(), rfl⟩ nofun

theorem registerFire_panics_iff {reply : ReplyConfig} {runId : Uuid} {nowWall monoNow : Int}
    {r : ReplyState} :
    AvoidsIff Abort.IsPanic
      (nowWall + (fromStd reply.pickupGrace).getD (secs 60) ≤ Occurrence.maxUtc ∧
        monoNow + reply.pickupGrace ≤ maxInstant)
      (registerFire reply runId nowWall monoNow) r := by
  rw [← wallAdd_ok_iff, ← monoAdd_ok_iff]
  unfold AvoidsIff registerFire
  show wp (onStore (orPanic (wallAdd nowWall _)) >>= _) _ _ _
  rw [wp_bind, wp_onStore]
  cases wallAdd nowWall ((fromStd reply.pickupGrace).getD (secs 60)) with
  | error p => exact iff_of_true (Abort.isPanic_panic p) fun h => nomatch h.1
  | ok wall =>
    show wp (onStore (orPanic (monoAdd monoNow _)) >>= _) _ _ _
    rw [wp_bind, wp_onStore]
    cases monoAdd monoNow reply.pickupGrace with
    | error p => exact iff_of_true (Abort.isPanic_panic p) fun h => nomatch h.2
    | ok at_ => exact ⟨⟨wall, rfl⟩, at_, rfl⟩

end

/-! ### Completion -/

namespace ServiceCall

/-- The instants that the call computes are in the ranges of their clocks. -/
def InRange (hash : Uuid → Int → Nat) (cfg : AppConfig) (sv : EngineState) : ServiceCall → Prop
  | rebuildHorizon now monoNow => HorizonFits hash cfg.horizon sv now monoNow
  | pushIfInHorizon fireAt timerId now =>
    JitterFits hash timerId fireAt (((sv.getTimer timerId).map Timer.jitterSecs).getD 0) ∧
      ∀ d, fromStd cfg.horizon = some d → IsUtc (now + d)
  | pruneIsDue lastPrune _ => ∀ lp, lastPrune = some lp →
      lp + (fromStd cfg.pruneInterval).getD (secs (7 * 24 * 60 * 60)) ≤ Occurrence.maxUtc
  | isTerminalOneshot timer now =>
    timer.AwaitsGrace (sv.memory.store.runsForTimer timer.id) now →
      timer.terminalMoment now + (fromStd cfg.ackGrace).getD (secs 60) ≤ Occurrence.maxUtc
  | registerFire _ nowWall monoNow =>
    nowWall + (fromStd cfg.pickupGrace).getD (secs 60) ≤ Occurrence.maxUtc ∧
      monoNow + cfg.pickupGrace ≤ maxInstant
  | syncDeadlineBook nowWall monoNow =>
    ∀ run row, sv.memory.rebuilds run = some row → row.CountsDown nowWall monoNow

theorem perform_ok_iff (hash : Uuid → Int → Nat) (cfg : AppConfig) (sv : EngineState)
    (c : ServiceCall) : (∃ out, c.perform hash cfg sv = .ok out) ↔ c.InRange hash cfg sv := by
  have hdone : ∀ {α : Type} {x : Except Panic α},
      (∃ out, (do let _ ← x : Except Panic Unit) = .ok out) ↔ ∃ a, x = .ok a := by
    intro α x
    rw [exists_bind_iff]
    exact ⟨fun ⟨a, h, _⟩ => ⟨a, h⟩, fun ⟨a, h⟩ => ⟨a, h, _, rfl⟩⟩
  cases c with
  | rebuildHorizon now monoNow => exact hdone.trans faultless_rebuildHorizon_iff
  | pushIfInHorizon fireAt timerId now => exact hdone.trans pushIfInHorizon_ok_iff
  | pruneIsDue lastPrune now => exact hdone.trans pruneIsDue_ok_iff
  | isTerminalOneshot timer now => exact hdone.trans isTerminalGiven_ok_iff
  | registerFire runId nowWall monoNow => exact unlessPanic_ok_iff registerFire_panics_iff
  | syncDeadlineBook nowWall monoNow => exact unlessPanic_ok_iff syncDeadlineBook_panics_iff

end ServiceCall

/-- What is loaded has been sanitized. -/
theorem AppConfig.sanitized_of_load {fromSlice : List UInt8 → Option AppConfig}
    {file : Option (Except String (List UInt8))} {cfg : AppConfig}
    (h : AppConfig.load fromSlice file = .ok cfg) : ∃ raw : AppConfig, cfg = raw.sanitized := by
  have hdefault : ({} : AppConfig) = ({} : AppConfig).sanitized := by decide +kernel
  unfold AppConfig.load at h
  split at h
  · cases h
    exact ⟨{}, hdefault⟩
  · cases h
  · split at h
    · cases h
      exact ⟨_, rfl⟩
    · cases h
      exact ⟨{}, hdefault⟩

/-- **When the service completes.**  Under the settings that are loaded from a
file, a call completes if and only if the instants that it computes are in
range. -/
theorem completes_iff (fromSlice : List UInt8 → Option AppConfig)
    (file : Option (Except String (List UInt8))) (hash : Uuid → Int → Nat) (sv : EngineState)
    (c : ServiceCall) :
    (∀ cfg, AppConfig.load fromSlice file = .ok cfg → ∃ out, c.perform hash cfg sv = .ok out) ↔
      ∀ cfg, AppConfig.load fromSlice file = .ok cfg → c.InRange hash cfg sv :=
  forall₂_congr fun cfg _ => c.perform_ok_iff hash cfg sv

section Sample

/-- A horizon of nine million million million milliseconds. -/
theorem settings_panic : ¬∀ (fromSlice : List UInt8 → Option AppConfig)
    (file : Option (Except String (List UInt8))) (hash : Uuid → Int → Nat) (sv : EngineState)
    (c : ServiceCall) (cfg : AppConfig), AppConfig.load fromSlice file = .ok cfg →
      ∃ out, c.perform hash cfg sv = .ok out := by
  intro h
  have hload : AppConfig.load (fun _ => some { horizonSecs := 9000000000000000 })
      (some (.ok [])) = .ok (AppConfig.sanitized { horizonSecs := 9000000000000000 }) := rfl
  obtain ⟨out, hout⟩ := h _ _ (fun _ _ => 0) {} (.rebuildHorizon 0 0) _ hload
  have hpanics : (ServiceCall.perform (fun _ _ => 0)
      (AppConfig.sanitized { horizonSecs := 9000000000000000 }) {} (.rebuildHorizon 0 0)).isOk =
        false := by decide +kernel
  rw [hout] at hpanics
  cases hpanics

end Sample

end Bellman
