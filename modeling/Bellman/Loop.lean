/-
Bellman/Loop.lean

The loop among the other processes.

A run of the loop is made of ticks and of messages between them, of the
commits of every other connection, of failures and of restarts.  It is seen
by the ledger (`loop_reached`), so the tables are always in a state that some
order of commits explains.

The heap is kept for one purpose: that the loop wakes up for every fire
(`loop_wakes`).  What another connection commits moves the version of the
data, which the next tick notices; a rebuild covers every row, and what the
loop itself does keeps the rows covered.  A row is missed only if a tick
handled it and left it due again: the handler pushes it, and the same drain
drops the entry.  Then the row is off the heap until the next rebuild.
-/
import Bellman.Horizon

namespace Bellman

open ProgramLogic Prog ReplyM

/-! ### Runs of the loop -/

namespace Scheduler

/-- The loop of `apply_control_msg`, which does not stop at a shutdown. -/
def applyControlMsgs (o : Outside) (config : SchedulerConfig) :
    List ControlMsg → TickResult → EngineM TickResult
  | [], result => return result
  | .refill :: ms, result => do
    rebuildHorizon o config
    applyControlMsgs o config ms { result with refilled := true }
  | .shutdown :: ms, result => applyControlMsgs o config ms { result with shutdown := true }
  | .setPauseAll paused :: ms, result => do
    modify fun s => { s with pauseAll := paused }
    applyControlMsgs o config ms result
  | .armDeadline runId kind wallAt :: ms, result => do
    push (.deadline wallAt runId kind)
    applyControlMsgs o config ms result

/-- The messages that a tick takes. -/
def upToShutdown : List ControlMsg → List ControlMsg
  | [] => []
  | .shutdown :: _ => [.shutdown]
  | msg :: ms => msg :: upToShutdown ms

theorem applyMessages_eq {o : Outside} {config : SchedulerConfig} (messages : List ControlMsg)
    (result : TickResult) : applyMessages o config messages result =
      applyControlMsgs o config (upToShutdown messages) result := by
  induction messages generalizing result with
  | nil => rfl
  | cons msg messages ih =>
    cases msg with
    | refill => exact congrArg (rebuildHorizon o config >>= ·) (funext fun _ => ih _)
    | shutdown => rfl
    | setPauseAll paused => exact congrArg (_ >>= ·) (funext fun _ => ih _)
    | armDeadline runId kind wallAt => exact congrArg (_ >>= ·) (funext fun _ => ih _)

/-- A new process: only the tables are left. -/
def restarted (s : Scheduler) : Scheduler := { memory := { store := s.memory.store } }

end Scheduler

/-- What the loop does in one go: a tick, or what has come while it waited. -/
inductive Work where
  | tick (messages : List ControlMsg)
  | control (messages : List ControlMsg)

def Work.perform [Calendar] (o : Outside) (config : SchedulerConfig) :
    Work → Scheduler.EngineM TickResult
  | tick messages => Scheduler.tick o config messages
  | control messages => Scheduler.applyControlMsgs o config messages {}

/-- The loop has ticked before it waits. -/
def Work.Ready : Work → Scheduler → Prop
  | tick _, _ => True
  | control _, s => s.booted = true

/-- The loop, and how often other connections have committed, which is what
`PRAGMA data_version` tells. -/
structure LoopState where
  scheduler : Scheduler := {}
  version : Int := 0

inductive LoopEvent where
  | work (o : Outside) (w : Work) (result : TickResult)
  /-- The work fails, which ends the process. -/
  | failed (o : Outside) (w : Work)
  | restart
  | commit (c : Commit)

/-- The loop, and the commits of the others, in any order. -/
def loop [Calendar] (cfg : FireConfig) (config : SchedulerConfig) : System LoopState LoopEvent where
  init s := s = {}
  step s e t :=
    match e with
    | .work o w result => o.handling.Under cfg ∧ w.Ready s.scheduler ∧ ∃ s',
        (w.perform o config).run s.scheduler = (.ok result, s') ∧ t = { s with scheduler := s' }
    | .failed o w => o.handling.Under cfg ∧ w.Ready s.scheduler ∧ ∃ err s',
        (w.perform o config).run s.scheduler = (.error err, s') ∧
          t = { s with scheduler := s'.restarted }
    | .restart => t = { s with scheduler := s.scheduler.restarted }
    | .commit c => t =
        { scheduler := { s.scheduler with memory := c.after cfg s.scheduler.memory }
          version := s.version + 1 }

section

variable [Calendar] {cfg : FireConfig} {config : SchedulerConfig} {o : Outside}

/-! ### Every run is one of the ledger -/

theorem Scheduler.applyControlMsgs_ledgered (messages : List ControlMsg) (result : TickResult) :
    Scheduler.Ledgered cfg (Scheduler.applyControlMsgs o config messages result) := by
  induction messages generalizing result with
  | nil => exact within_pure _
  | cons msg messages ih =>
    cases msg with
    | refill => exact within_bind Scheduler.rebuildHorizon_ledgered fun _ => ih _
    | shutdown => exact ih _
    | setPauseAll paused =>
      exact within_bind (Scheduler.ledgered_modify fun _ => rfl) fun _ => ih _
    | armDeadline runId kind wallAt =>
      exact within_bind (Scheduler.ledgered_push _) fun _ => ih _

theorem Work.perform_ledgered (hcfg : o.handling.Under cfg) (w : Work) :
    Scheduler.Ledgered cfg (w.perform o config) := by
  cases w with
  | tick messages => exact Scheduler.tick_ledgered hcfg messages
  | control messages => exact Scheduler.applyControlMsgs_ledgered messages {}

theorem Reached.commit {r : ReplyState} (h : Reached cfg r) (c : Commit) :
    Reached cfg (c.after cfg r) :=
  System.Simulates.reachable (commits_after c r) h

theorem Reached.restarted {s : Scheduler} (h : Reached cfg s.memory) :
    Reached cfg s.restarted.memory :=
  h.commit .crash

theorem reached_of_step {s t : LoopState} {e : LoopEvent} (h : (loop cfg config).step s e t)
    (hs : Reached cfg s.scheduler.memory) : Reached cfg t.scheduler.memory := by
  cases e with
  | work o w result =>
    obtain ⟨hcfg, -, s', hrun, rfl⟩ := h
    have hledger : Scheduler.Ledgered cfg (w.perform o config) := w.perform_ledgered hcfg
    have hwork := hledger.run s.scheduler
    rw [hrun] at hwork
    exact System.Simulates.reachable hwork hs
  | failed o w =>
    obtain ⟨hcfg, -, err, s', hrun, rfl⟩ := h
    have hledger : Scheduler.Ledgered cfg (w.perform o config) := w.perform_ledgered hcfg
    have hwork := hledger.run s.scheduler
    rw [hrun] at hwork
    exact Reached.restarted (System.Simulates.reachable hwork hs)
  | restart =>
    subst h
    exact Reached.restarted hs
  | commit c =>
    subst h
    exact Reached.commit hs c

theorem reached_of_run {tr : List (System.Event LoopState LoopEvent)} {s : LoopState}
    (h : (loop cfg config).Run {} tr s) : Reached cfg s.scheduler.memory :=
  h.invariant (G := fun _ => True) (I := fun s => Reached cfg s.scheduler.memory)
    (fun _ _ => trivial) ⟨{}, ⟨{}, [], rfl, .nil⟩, rfl, rfl⟩
    fun _ _ _ hstep _ hs => reached_of_step hstep hs

end

/-! ### The loop keeps the rows covered -/

namespace Scheduler

/-- Where the loop has seen the last commit, the heap covers the rows that are
not `loose`. -/
structure Abreast (hash : Uuid → Int → Nat) (limit : Option Int) (loose : Uuid → Prop)
    (version : Int) (s : Scheduler) : Prop where
  seen_le : s.lastDataVersion ≤ version
  covers : s.lastDataVersion = version →
    ∀ t ∈ s.memory.store.timers, ¬loose t.id → Covers hash limit s t

end Scheduler

/-- The clocks show the limit within the horizon, and the probes of the data
version succeed. -/
structure Outside.Meets (o : Outside) (config : SchedulerConfig) (hash : Uuid → Int → Nat)
    (limit : Option Int) (version : Int) : Prop where
  hash : o.hash = hash
  sees : o.Sees config limit
  years : o.InYears config
  probe : ∀ i, o.dataVersion i = some version

/-- A reading of the clock is past the fire that the row awaits. -/
def Timer.Behind (o : Outside) (limit : Option Int) (t : Timer) : Prop :=
  ∃ nf execAt i, t.Awaits o.hash limit nf execAt ∧ execAt ≤ o.wall i

namespace Scheduler

section

variable {hash : Uuid → Int → Nat} {limit : Option Int} {loose : Uuid → Prop} {version : Int}
  {s s' : Scheduler}

/-- The heap has grown, and the rest is as it was. -/
theorem Abreast.grow (h : Abreast hash limit loose version s) (hmem : s'.memory = s.memory)
    (hversion : s'.lastDataVersion = s.lastDataVersion) (hheap : s.heap ⊆ s'.heap) :
    Abreast hash limit loose version s' where
  seen_le := hversion ▸ h.seen_le
  covers hv t ht hloose nf execAt hawaits :=
    (h.covers (hversion ▸ hv) t (hmem ▸ ht) hloose nf execAt hawaits).mono hheap le_rfl

end

/-- The loop has booted, and has covered the rows since the last rebuild: in
this tick, or, if `base`, before. -/
structure OnWatch [Calendar] (cfg : FireConfig) (hash : Uuid → Int → Nat) (limit : Option Int)
    (loose : Uuid → Prop) (version : Int) (base : Prop) (result : TickResult) (s : Scheduler) :
    Prop where
  known : Known cfg s
  booted : s.booted = true
  abreast : base ∨ result.refilled = true → Abreast hash limit loose version s

section

variable [Calendar] {cfg : FireConfig} {o : Outside} {config : SchedulerConfig}
  {hash : Uuid → Int → Nat} {limit : Option Int} {loose : Uuid → Prop} {version : Int}
  {base : Prop} {result : TickResult} {s : Scheduler}

omit [Calendar] in
theorem onMemory_same {γ α : Type} {proj : Scheduler → γ}
    (hproj : ∀ s memory, proj { s with memory } = proj s) (m : SchedM α) :
    Within (Same proj) (onMemory m) := by
  intro s
  unfold onMemory
  rw [wp_zoom, wp_iff]
  exact ⟨fun _ _ _ => hproj s _, fun _ _ _ => hproj s _⟩

/-- What is not of the memory, the heap or the count of questions is kept by
the passes of the loop. -/
theorem same_loopSteps {γ : Type} {proj : Scheduler → γ}
    (hmemory : ∀ s memory, proj { s with memory } = proj s)
    (hheap : ∀ s heap, proj { s with heap } = proj s)
    (hasked : ∀ s asked, proj { s with asked } = proj s) : LoopSteps o (Same proj) where
  handling id :=
    { ask := hasked
      push := fun s e => hheap s _
      update := fun _ _ _ => onMemory_same hmemory _
      claim := fun _ _ _ _ => onMemory_same hmemory _
      act := fun _ _ => onMemory_same hmemory _
      prune := fun _ _ => onMemory_same hmemory _
      skipped := fun _ _ _ _ _ => onMemory_same hmemory _ }
  heap := hheap
  expire timer runId kind now monoNow := by
    unfold expireOne
    split
    · exact within_throw _
    · refine within_bind (onMemory_same hmemory _) fun out => ?_
      split
      · exact within_throw _
      · exact within_pure _
  orphan _ := onMemory_same hmemory _

/-- What the passes leave alone. -/
def posted (s : Scheduler) : Bool × Int := (s.booted, s.lastDataVersion)

theorem posted_steps : LoopSteps o (Same posted) :=
  same_loopSteps (fun _ _ => rfl) (fun _ _ => rfl) fun _ _ => rfl

omit [Calendar] in
/-- A rebuild writes down the version that it is told. -/
theorem rebuildHorizon_posted (hprobe : ∀ i, o.dataVersion i = some version) :
    wp (rebuildHorizon o config)
      (fun _ s' => s'.booted = s.booted ∧ s'.lastDataVersion = version) (fun _ _ => True) s := by
  unfold rebuildHorizon ask
  rw [wp_bind, wp_modifyGet, wp_bind, wp_modifyGet, wp_bind, wp_modify, wp_bind, wp_modifyGet]
  cases fromStd config.horizon with
  | none => trivial
  | some d =>
    dsimp only
    rw [wp_bind, wp_orPanic]
    intro horizon _
    rw [wp_bind, wp_get, wp_bind, wp_orStore]
    intro due _
    rw [wp_bind, wp_orPanic]
    intro fires _
    rw [wp_bind, rebuildHorizon.pushAll, wp_modify, wp_bind, wp_orStore]
    intro timers _
    rw [wp_bind, wp_orPanic]
    intro resident _
    rw [wp_bind, rebuildHorizon.pushAll, wp_modify, wp_bind, wp_modifyGet, wp_bind, wp_orPanic]
    intro deadlines _
    rw [rebuildHorizon.pushAll, wp_modify]
    exact ⟨rfl, by rw [hprobe]; rfl⟩

theorem rebuildHorizon_abreast (ho : o.Meets config hash limit version) (hs : Known cfg s) :
    wp (rebuildHorizon o config)
      (fun _ s' => Known cfg s' ∧ s'.booted = s.booted ∧ s'.lastDataVersion = version ∧
        ∀ loose, Abreast hash limit loose version s') (fun _ _ => True) s := by
  refine wp_mono (wp_and (rebuildHorizon_covers ho.sees ho.years hs.keyed.ids)
    (rebuildHorizon_posted ho.probe)) (fun _ s' h => ?_) fun _ _ _ => trivial
  obtain ⟨⟨hmem, hcovers⟩, hbooted, hversion⟩ := h
  refine ⟨?_, hbooted, hversion, fun loose => ⟨hversion.le, fun _ t ht _ => ?_⟩⟩
  · unfold Known
    rwa [hmem]
  · rw [← ho.hash]
    exact hcovers t (hmem ▸ ht)

/-! ### The stages of a tick -/

theorem wp_known {α : Type} {m : EngineM α} (hm : Ledgered cfg m) (hs : Known cfg s) :
    wp m (fun _ s' => Known cfg s') (fun _ s' => Known cfg s') s :=
  wp_mono (hm s) (fun _ _ h => System.Simulates.reachable h hs)
    fun _ _ h => System.Simulates.reachable h hs

theorem boot_onWatch (hcfg : o.handling.Under cfg) (ho : o.Meets config hash limit version)
    (hs : Known cfg s) :
    wp (boot o config) (fun _ s' => OnWatch cfg hash limit loose version base {} s')
      (fun _ _ => True) s := by
  have hsteps := ledger_loopSteps (o := o) hcfg
  unfold boot ask
  rw [wp_bind, wp_modifyGet, wp_bind, wp_modifyGet, wp_bind, wp_modify, wp_bind]
  refine wp_mono (wp_known hsteps.recoverPendingClaims_within hs) (fun recovered s₁ hs₁ => ?_)
    fun _ _ _ => trivial
  rw [wp_bind]
  refine wp_mono (wp_known hsteps.misfirePass_within hs₁) (fun overdue s₂ hs₂ => ?_)
    fun _ _ _ => trivial
  rw [wp_bind]
  refine wp_mono (rebuildHorizon_abreast ho hs₂) (fun _ s₃ h => ?_) fun _ _ _ => trivial
  obtain ⟨hs₃, -, hversion, habreast⟩ := h
  exact ⟨hs₃, rfl, fun _ => (habreast loose).grow rfl rfl (List.Subset.refl _)⟩

theorem rebuildHorizon_onWatch (ho : o.Meets config hash limit version) (hs : Known cfg s)
    (hbooted : s.booted = true) :
    wp (rebuildHorizon o config)
      (fun _ s' => OnWatch cfg hash limit loose version base result s' ∧
        s'.lastDataVersion = version) (fun _ _ => True) s := by
  refine wp_mono (rebuildHorizon_abreast ho hs) (fun _ s' h => ?_) fun _ _ _ => trivial
  obtain ⟨hs', hbooted', hversion, habreast⟩ := h
  exact ⟨⟨hs', hbooted'.trans hbooted, fun _ => habreast loose⟩, hversion⟩

theorem OnWatch.grow (h : OnWatch cfg hash limit loose version base result s) (s' : Scheduler)
    (hmem : s'.memory = s.memory) (hposted : posted s' = posted s) (hheap : s.heap ⊆ s'.heap) :
    OnWatch cfg hash limit loose version base result s' where
  known := by
    unfold Known
    rw [hmem]
    exact h.known
  booted := (congrArg Prod.fst hposted).trans h.booted
  abreast hb := (h.abreast hb).grow hmem (congrArg Prod.snd hposted) hheap

theorem applyControlMsgs_onWatch (ho : o.Meets config hash limit version)
    (messages : List ControlMsg) (h : OnWatch cfg hash limit loose version base result s) :
    wp (applyControlMsgs o config messages result)
      (fun result' s' => OnWatch cfg hash limit loose version base result' s')
      (fun _ _ => True) s := by
  induction messages generalizing result s with
  | nil => exact h
  | cons msg messages ih =>
    cases msg with
    | refill =>
      unfold applyControlMsgs
      rw [wp_bind]
      exact wp_mono (rebuildHorizon_onWatch ho h.known h.booted) (fun _ s₁ h₁ => ih h₁.1)
        fun _ _ _ => trivial
    | shutdown => exact ih ⟨h.known, h.booted, h.abreast⟩
    | setPauseAll paused =>
      unfold applyControlMsgs
      rw [wp_bind, wp_modify]
      exact ih (h.grow _ rfl rfl (List.Subset.refl _))
    | armDeadline runId kind wallAt =>
      unfold applyControlMsgs push
      rw [wp_bind, wp_modify]
      exact ih (h.grow _ rfl rfl (List.subset_cons_self _ _))

theorem applyMessages_onWatch (ho : o.Meets config hash limit version)
    (messages : List ControlMsg) (h : OnWatch cfg hash limit loose version base result s) :
    wp (applyMessages o config messages result)
      (fun result' s' => OnWatch cfg hash limit loose version base result' s')
      (fun _ _ => True) s := by
  rw [applyMessages_eq]
  exact applyControlMsgs_onWatch ho _ h

omit [Calendar] in
/-- Where nothing is to be rebuilt, the last commit has been seen. -/
theorem externalStoreChanged_spec (hprobe : ∀ i, o.dataVersion i = some version) :
    wp (externalStoreChanged o config)
      (fun changed s' => (s'.memory = s.memory ∧ posted s' = posted s ∧ s'.heap = s.heap) ∧
        (changed = false → s.lastDataVersion = version)) (fun _ _ => True) s := by
  unfold externalStoreChanged ask
  rw [wp_bind, wp_modifyGet, wp_bind, wp_get]
  split
  · exact ⟨⟨rfl, rfl, rfl⟩, by intro h; cases h⟩
  · rw [wp_bind, wp_modifyGet]
    dsimp only
    rw [hprobe]
    refine ⟨⟨rfl, rfl, rfl⟩, fun h => ?_⟩
    by_contra hne
    exact of_decide_eq_false h fun heq => hne heq.symm

theorem drainDue_onWatch (hcfg : o.handling.Under cfg) (ho : o.Meets config hash limit version)
    {i : Nat} (h : OnWatch cfg hash limit loose version base result s)
    (hversion : s.lastDataVersion = version) :
    wp (drainDue o config (o.wall i))
      (fun _ s' => (∀ t ∈ s'.memory.store.timers, t.Behind o limit → loose t.id) →
        OnWatch cfg hash limit loose version base result s' ∧ s'.lastDataVersion = version)
      (fun _ _ => True) s := by
  rw [wp_iff]
  refine ⟨fun fires s' hrun hbehind => ?_, fun _ _ _ => trivial⟩
  have hknown : Known cfg s' :=
    wp_ok (wp_known ((ledger_loopSteps hcfg).drainLoop_within _ _ _) h.known) hrun
  have hposted : posted s' = posted s :=
    wp_ok ((posted_steps (o := o)).drainLoop_within (o.wall i) MAX_DRAIN [] s) hrun
  have hversion' : s'.lastDataVersion = version := (congrArg Prod.snd hposted).trans hversion
  refine ⟨⟨hknown, (congrArg Prod.fst hposted).trans h.booted, fun hb => ?_⟩, hversion'⟩
  refine ⟨hversion'.le, fun _ t ht hloose => ?_⟩
  have hcov := (h.abreast hb).covers hversion
  rw [← ho.hash] at hcov ⊢
  rcases drainDue_covers hcfg h.known ho.sees hcov hrun t ht hloose with hcovers | ⟨hagain, -⟩
  · exact hcovers
  · obtain ⟨nf, execAt, hawaits, hexec⟩ := hagain
    exact absurd (hbehind t ht ⟨nf, execAt, i, hawaits, hexec⟩) hloose

/-- The end of a tick: the readings are kept, and what is due is drained. -/
theorem drain_onWatch (hcfg : o.handling.Under cfg) (ho : o.Meets config hash limit version)
    {wall mono : Int} {jumped : Bool} {overdue : List DeliveredFire}
    (h : OnWatch cfg hash limit loose version base
      { result with refilled := result.refilled || jumped } s)
    (hversion : s.lastDataVersion = version) :
    wp (do
      modify fun s => { s with lastWall := wall, lastMono := mono }
      let now ← ask o.wall
      let fires ← drainDue o config now
      return { result with
        clockJump := jumped
        refilled := result.refilled || jumped
        fires := result.fires ++ overdue ++ fires })
      (fun result'' s' => (∀ t ∈ s'.memory.store.timers, t.Behind o limit → loose t.id) →
        OnWatch cfg hash limit loose version base result'' s' ∧ s'.lastDataVersion = version)
      (fun _ _ => True) s := by
  unfold ask
  rw [wp_bind, wp_modify, wp_bind, wp_modifyGet, wp_bind]
  have hstart := h.grow { s with lastWall := wall, lastMono := mono, asked := s.asked + 1 }
    rfl rfl (List.Subset.refl _)
  refine wp_mono (drainDue_onWatch hcfg ho hstart hversion) (fun fires s' h' hbehind => ?_)
    fun _ _ _ => trivial
  obtain ⟨h', hversion'⟩ := h' hbehind
  exact ⟨⟨h'.known, h'.booted, h'.abreast⟩, hversion'⟩

theorem runTick_onWatch (hcfg : o.handling.Under cfg) (ho : o.Meets config hash limit version)
    (h : OnWatch cfg hash limit loose version base result s)
    (hversion : s.lastDataVersion = version) :
    wp (runTick o config result)
      (fun result' s' => (∀ t ∈ s'.memory.store.timers, t.Behind o limit → loose t.id) →
        OnWatch cfg hash limit loose version base result' s' ∧ s'.lastDataVersion = version)
      (fun _ _ => True) s := by
  unfold runTick
  rw [wp_bind, ask, wp_modifyGet, wp_bind, ask, wp_modifyGet, wp_bind, wp_get]
  have hstart := h.grow { s with asked := s.asked + 1 + 1 } rfl rfl (List.Subset.refl _)
  dsimp only
  split
  · next hjump =>
    rw [wp_bind]
    have hledgered : Ledgered cfg (misfirePass o config) :=
      (ledger_loopSteps hcfg).misfirePass_within
    have hsame : Within (Same posted) (misfirePass o config) := posted_steps.misfirePass_within
    refine wp_mono (wp_and (wp_known hledgered hstart.known) (hsame _)) (fun overdue s₁ h₁ => ?_)
      fun _ _ _ => trivial
    obtain ⟨hs₁, hposted⟩ := h₁
    have hrebuilt : wp (rebuildHorizon o config)
        (fun _ s' => OnWatch cfg hash limit loose version base
          { result with refilled := result.refilled || true } s' ∧
          s'.lastDataVersion = version) (fun _ _ => True) s₁ :=
      rebuildHorizon_onWatch ho hs₁ ((congrArg Prod.fst hposted).trans hstart.booted)
    rw [wp_bind]
    refine wp_mono hrebuilt (fun _ s₂ h₂ => ?_) fun _ _ _ => trivial
    rw [hjump]
    exact drain_onWatch hcfg ho h₂.1 h₂.2
  · next hjump =>
    rw [Bool.eq_false_iff.mpr hjump]
    refine drain_onWatch hcfg ho ⟨hstart.known, hstart.booted, fun hb => hstart.abreast ?_⟩ hversion
    rwa [Bool.or_false] at hb

theorem tick_onWatch (hcfg : o.handling.Under cfg) (ho : o.Meets config hash limit version)
    (messages : List ControlMsg) (hs : Known cfg s)
    (hbase : s.booted = true → base → Abreast hash limit loose version s) :
    wp (tick o config messages)
      (fun result' s' => (∀ t ∈ s'.memory.store.timers, t.Behind o limit → loose t.id) →
        OnWatch cfg hash limit loose version base result' s' ∧
          (result'.shutdown = false → s'.lastDataVersion = version))
      (fun _ _ => True) s := by
  have hrest : ∀ s₁, OnWatch cfg hash limit loose version base {} s₁ → wp (do
      let result ← applyMessages o config messages {}
      if result.shutdown then return result
      else
        let changed ← externalStoreChanged o config
        if changed then rebuildHorizon o config
        let result := { result with refilled := result.refilled || changed }
        if (← get).pauseAll then return result else runTick o config result)
      (fun result' s' => (∀ t ∈ s'.memory.store.timers, t.Behind o limit → loose t.id) →
        OnWatch cfg hash limit loose version base result' s' ∧
          (result'.shutdown = false → s'.lastDataVersion = version))
      (fun _ _ => True) s₁ := by
    intro s₁ h₁
    rw [wp_bind]
    refine wp_mono (applyMessages_onWatch ho messages h₁) (fun result s₂ h₂ => ?_)
      fun _ _ _ => trivial
    split
    · next hshutdown =>
      exact fun _ => ⟨h₂, fun hno => absurd (hshutdown.symm.trans hno) (by decide)⟩
    rw [wp_bind]
    refine wp_mono (externalStoreChanged_spec ho.probe) (fun changed s₃ h₃ => ?_)
      fun _ _ _ => trivial
    obtain ⟨⟨hmem, hposted, hheap⟩, hseen⟩ := h₃
    have hgrown := h₂.grow s₃ hmem hposted (hheap ▸ List.Subset.refl _)
    have hrun : ∀ s₄, OnWatch cfg hash limit loose version base
        { result with refilled := result.refilled || changed } s₄ → s₄.lastDataVersion = version →
        wp (do
          let result := { result with refilled := result.refilled || changed }
          if (← get).pauseAll then return result else runTick o config result)
        (fun result' s' => (∀ t ∈ s'.memory.store.timers, t.Behind o limit → loose t.id) →
          OnWatch cfg hash limit loose version base result' s' ∧
            (result'.shutdown = false → s'.lastDataVersion = version))
        (fun _ _ => True) s₄ := by
      intro s₄ h₄ hversion
      rw [wp_bind, wp_get]
      split
      · exact fun _ => ⟨h₄, fun _ => hversion⟩
      · refine wp_mono (runTick_onWatch hcfg ho h₄ hversion) (fun _ _ h' hbehind => ?_)
          fun _ _ _ => trivial
        exact ⟨(h' hbehind).1, fun _ => (h' hbehind).2⟩
    cases changed with
    | true =>
      dsimp only
      rw [if_pos rfl, wp_bind]
      exact wp_mono (rebuildHorizon_onWatch ho hgrown.known hgrown.booted)
        (fun _ s₄ h₄ => hrun s₄ h₄.1 h₄.2) fun _ _ _ => trivial
    | false =>
      dsimp only
      rw [if_neg Bool.false_ne_true]
      refine hrun s₃ ?_ ((congrArg Prod.snd hposted).trans (hseen rfl))
      exact ⟨hgrown.known, hgrown.booted, fun hb => hgrown.abreast (by simpa using hb)⟩
  unfold tick
  rw [wp_bind, wp_get]
  split
  · rw [wp_bind]
    exact wp_mono (boot_onWatch hcfg ho hs) (fun _ s₁ h₁ => hrest s₁ h₁) fun _ _ _ => trivial
  · next hbooted =>
    have hb : s.booted = true := by simpa using hbooted
    refine hrest s ⟨hs, hb, fun hor => ?_⟩
    rcases hor with hor | hor
    · exact hbase hb hor
    · cases hor

end

end Scheduler

/-! ### The loop wakes up -/

section

variable [Calendar] {cfg : FireConfig} {config : SchedulerConfig} {hash : Uuid → Int → Nat}
  {limit : Option Int} {loose : Uuid → Prop} {s t s₀ : LoopState}

/-- In this step the loop met what it relies on. -/
def Promised (config : SchedulerConfig) (hash : Uuid → Int → Nat) (limit : Option Int)
    (e : System.Event LoopState LoopEvent) : Prop :=
  ∀ o w result, e.label = .work o w result → o.Meets config hash limit e.pre.version

/-- The heap is rebuilt in this step. -/
def Rebuilds (e : System.Event LoopState LoopEvent) : Prop :=
  ∃ o w result, e.label = .work o w result ∧
    (e.pre.scheduler.booted = false ∨ result.refilled = true)

/-- The step is a tick that ends with the row due. -/
def LeavesBehind (limit : Option Int) (e : System.Event LoopState LoopEvent) (id : Uuid) : Prop :=
  ∃ o messages result, e.label = .work o (.tick messages) result ∧
    ∃ t ∈ e.post.scheduler.memory.store.timers, t.id = id ∧ t.Behind o limit

/-- The step is a tick after which the loop goes on. -/
def Ticks (e : System.Event LoopState LoopEvent) : Prop :=
  ∃ o messages result, e.label = .work o (.tick messages) result ∧ result.shutdown = false

/-- Between two steps of the loop. -/
def Covering (hash : Uuid → Int → Nat) (limit : Option Int) (loose : Uuid → Prop)
    (s : LoopState) : Prop :=
  s.scheduler.booted = true → s.scheduler.Abreast hash limit loose s.version

/-- A step of the loop keeps the rows covered, and where the heap is rebuilt,
it covers them. -/
theorem covering_of_step (loose : Uuid → Prop) {e : LoopEvent}
    (hstep : (loop cfg config).step s e t)
    (hpromised : Promised config hash limit ⟨s, e, t⟩)
    (hbehind : ∀ id, LeavesBehind limit ⟨s, e, t⟩ id → loose id)
    (hs : Scheduler.Known cfg s.scheduler)
    (hkept : ¬Rebuilds ⟨s, e, t⟩ → Covering hash limit loose s) :
    Covering hash limit loose t ∧ (Ticks ⟨s, e, t⟩ →
      t.scheduler.booted = true ∧ t.scheduler.lastDataVersion = t.version) := by
  cases e with
  | work o w result =>
    obtain ⟨hcfg, hready, s', hrun, rfl⟩ := hstep
    have ho := hpromised o w result rfl
    -- What a work comes to, where it is known to start from covered rows if `base`.
    have hwork : ∀ base : Prop, (s.scheduler.booted = true → base →
        s.scheduler.Abreast hash limit loose s.version) →
        s'.OnWatch cfg hash limit loose s.version base result ∧
          (Ticks ⟨s, .work o w result, { s with scheduler := s' }⟩ →
            s'.lastDataVersion = s.version) := by
      intro base hbase
      cases w with
      | tick messages =>
        obtain ⟨hwatch, hversion⟩ :=
          wp_ok (Scheduler.tick_onWatch hcfg ho messages hs hbase) hrun fun u hu hub =>
            hbehind u.id ⟨o, messages, result, rfl, u, hu, rfl, hub⟩
        refine ⟨hwatch, fun hticks => hversion ?_⟩
        obtain ⟨_, _, _, hlabel, hshutdown⟩ := hticks
        cases hlabel
        exact hshutdown
      | control messages =>
        have hstart : s.scheduler.OnWatch cfg hash limit loose s.version base {} :=
          ⟨hs, hready, fun hb => hbase hready (hb.resolve_right (by decide))⟩
        refine ⟨wp_ok (Scheduler.applyControlMsgs_onWatch ho messages hstart) hrun,
          fun hticks => ?_⟩
        obtain ⟨_, _, _, hlabel, -⟩ := hticks
        cases hlabel
    cases hrefilled : result.refilled with
    | true =>
      obtain ⟨h, hversion⟩ := hwork False fun _ hno => hno.elim
      exact ⟨fun _ => h.abreast (.inr hrefilled), fun hticks => ⟨h.booted, hversion hticks⟩⟩
    | false =>
      obtain ⟨h, hversion⟩ := hwork True fun hbooted _ => hkept
        (by
          rintro ⟨_, _, _, hlabel, hnew⟩
          cases hlabel
          rcases hnew with hnew | hnew
          · exact Bool.false_ne_true (hnew.symm.trans hbooted)
          · exact Bool.false_ne_true (hrefilled.symm.trans hnew)) hbooted
      exact ⟨fun _ => h.abreast (.inl trivial), fun hticks => ⟨h.booted, hversion hticks⟩⟩
  | failed o w =>
    obtain ⟨-, -, err, s', -, rfl⟩ := hstep
    refine ⟨(by intro hbooted; cases hbooted), fun hticks => ?_⟩
    obtain ⟨_, _, _, hlabel, -⟩ := hticks
    cases hlabel
  | restart =>
    subst hstep
    refine ⟨(by intro hbooted; cases hbooted), fun hticks => ?_⟩
    obtain ⟨_, _, _, hlabel, -⟩ := hticks
    cases hlabel
  | commit c =>
    subst hstep
    refine ⟨fun hbooted => ?_, fun hticks => ?_⟩
    · have hle := (hkept (by rintro ⟨_, _, _, hlabel, -⟩; cases hlabel) hbooted).seen_le
      -- The version has moved past what the loop has seen.
      refine ⟨hle.trans (Int.le_add_one le_rfl), fun hversion => ?_⟩
      have heq : s.scheduler.lastDataVersion = s.version + 1 := hversion
      omega
    · obtain ⟨_, _, _, hlabel, -⟩ := hticks
      cases hlabel

/-- After a tick, the heap covers every row that no tick has left behind since
the heap was rebuilt. -/
theorem loop_covers {before since : List (System.Event LoopState LoopEvent)}
    {e₀ : System.Event LoopState LoopEvent}
    (hrun : (loop cfg config).Run {} (before ++ e₀ :: since) s) (hrebuilds : Rebuilds e₀)
    (hpromised : ∀ e ∈ e₀ :: since, Promised config hash limit e)
    (hticks : ∀ e ∈ (e₀ :: since).getLast?, Ticks e) :
    ∀ t ∈ s.scheduler.memory.store.timers, (∀ e ∈ e₀ :: since, ¬LeavesBehind limit e t.id) →
      s.scheduler.Covers hash limit t := by
  obtain ⟨hbefore, hfirst, hrest⟩ := hrun.split
  let loose : Uuid → Prop := fun id => ∃ e ∈ e₀ :: since, LeavesBehind limit e id
  have hstart := covering_of_step loose hfirst (hpromised e₀ (List.mem_cons_self ..))
    (fun id hid => ⟨e₀, List.mem_cons_self .., hid⟩) (reached_of_run hbefore)
    fun hno => absurd hrebuilds hno
  have hend : Covering hash limit loose s ∧
      s.scheduler.booted = true ∧ s.scheduler.lastDataVersion = s.version := by
    rcases List.eq_nil_or_concat since with rfl | ⟨inner, e, hsince⟩
    · obtain rfl := System.run_nil_iff.mp hrest
      exact ⟨hstart.1, hstart.2 (hticks _ rfl)⟩
    · rw [List.concat_eq_append] at hsince
      rw [hsince] at hrest
      obtain ⟨hinner, hlast, hnil⟩ := hrest.split
      obtain rfl := System.run_nil_iff.mp hnil
      have hmem : ∀ d ∈ inner, d ∈ e₀ :: since := fun d hd =>
        List.mem_cons_of_mem _ (hsince ▸ List.mem_append_left _ hd)
      have he : e ∈ e₀ :: since :=
        List.mem_cons_of_mem _ (hsince ▸ List.mem_append_right _ (List.mem_cons_self ..))
      obtain ⟨hknown, hcovering⟩ := hinner.invariant (G := fun d => d ∈ e₀ :: since)
        (I := fun s => Scheduler.Known cfg s.scheduler ∧ Covering hash limit loose s) hmem
        ⟨reached_of_step hfirst (reached_of_run hbefore), hstart.1⟩ fun s i t hstep hd h =>
          ⟨reached_of_step hstep h.1, (covering_of_step loose hstep (hpromised _ hd)
            (fun id hid => ⟨_, hd, hid⟩) h.1 fun _ => h.2).1⟩
      have hfinal := covering_of_step loose hlast (hpromised e he)
        (fun id hid => ⟨e, he, hid⟩) hknown fun _ => hcovering
      have hfin : e ∈ (e₀ :: since).getLast? := by
        rw [hsince, ← List.cons_append, List.getLast?_concat]
        rfl
      exact ⟨hfinal.1, hfinal.2 (hticks e hfin)⟩
  exact fun t ht hloose => (hend.1 hend.2.1).covers hend.2.2 t ht
    fun ⟨e, he, hleft⟩ => hloose e he hleft

end

/-! ### A timer made by another process -/

section Sample

attribute [local instance] Calendar.utcOnly

/-- Another connection has made the timer. -/
def LoopState.second : LoopState where
  scheduler := { memory := .made secondMade }
  version := 1

theorem step_second : ∃ s result, result.shutdown = false ∧
    s.scheduler.memory.store.timers = [Timer.second] ∧
    (loop .sample {}).step .second (.work (.still 0 1) (.tick []) result) s := by
  have hrun : ((Scheduler.tick (.still 0 1) {} []).run LoopState.second.scheduler).1.toOption.map
      TickResult.shutdown = some false := by decide +kernel
  have htimers : ((Scheduler.tick (.still 0 1) {} []).run
      LoopState.second.scheduler).2.memory.store.timers = [Timer.second] := by decide +kernel
  obtain ⟨result, hrun, hshutdown⟩ := run_of_map hrun
  exact ⟨{ LoopState.second with scheduler := _ }, result, hshutdown, htimers, under_still 0 1,
    trivial, _, hrun, rfl⟩

theorem meets_still : (Outside.still 0 1).Meets {} (fun _ _ => 0) (some (86400 * NS))
    1 where
  hash := rfl
  sees i d hd l hl := by
    obtain rfl : 86400 * NS = d := Option.some.inj hd
    obtain rfl : 86400 * NS = l := Option.some.inj hl
    show (86400 * NS : Int) ≤ 0 + 86400 * NS
    decide
  years i d hd := by
    obtain rfl : 86400 * NS = d := Option.some.inj hd
    show Date.year ((0 + 86400 * NS) / DAY) ≤ 9999
    decide +kernel
  probe _ := rfl

end Sample

end Bellman
