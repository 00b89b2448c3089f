/-
Bellman/Pushed.lean

What the handling of a timer gives back.

A timer that comes up is handled, and the loop must hear of it again: the
handler ends by pushing the fire that the row awaits then, at its execution
instant, unless the row awaits none or the instant is past the horizon
(`handleDueTimer_pushed`).  What it delivers are fires of this timer, for
slots that have come (`handleDueTimer_yields`).
-/
import Bellman.Committed

namespace Bellman

open ProgramLogic Prog ReplyM

/-! ### What is handled is pushed again -/

/-- The row has a fire that the heap is to hold: it is within the limit, if there
is one, with its jitter and without, or the timer is always resident. -/
structure Timer.Awaits (hash : Uuid → Int → Nat) (limit : Option Int) (t : Timer)
    (nf execAt : Int) : Prop where
  enabled : t.enabled = true
  next : t.nextFireUtc = some nf
  exec : applyExecutionJitter hash t.id nf t.jitterSecs = .ok execAt
  near : (∃ l ∈ limit, max execAt nf ≤ l) ∨ t.isHighFrequency = true

/-- No reading of the clock puts `limit` past the horizon. -/
def Outside.Sees (o : Outside) (config : SchedulerConfig) (limit : Option Int) : Prop :=
  ∀ i d, fromStd config.horizon = some d → ∀ l ∈ limit, l ≤ o.wall i + d

namespace Scheduler

/-- The fire that the row of `id` awaits is on the heap, at its execution
instant. -/
def Pushed (hash : Uuid → Int → Nat) (limit : Option Int) (id : Uuid) (s : Scheduler) : Prop :=
  ∀ t nf execAt, s.memory.store.getTimer id = some t → t.Awaits hash limit nf execAt →
    HeapEntry.fire execAt id ∈ s.heap

section

variable {o : Outside} {config : SchedulerConfig} {limit : Option Int} {s : Scheduler}
  {t : Timer} {nf execAt : Int} {id : Uuid}

theorem withinHorizon_of_sees (hsees : o.Sees config limit) {l : Int} (hl : l ∈ limit)
    (hle : execAt ≤ l) {i : Nat} {b : Bool} (hb : withinHorizon config.horizon (o.wall i) execAt = .ok b) : b = true := by
  unfold withinHorizon at hb
  cases hd : fromStd config.horizon with
  | none =>
    rw [hd] at hb
    exact (Except.ok.inj hb).symm
  | some d =>
    have hsee := hsees i d hd l hl
    rw [hd] at hb
    cases hlimit : Windows.shiftUtc (o.wall i) d with
    | error p =>
      simp only [hlimit] at hb
      cases hb
    | ok u =>
      obtain ⟨-, rfl⟩ := Windows.shiftUtc_eq_ok.mp hlimit
      simp only [hlimit] at hb
      cases hb
      exact decide_eq_true (hle.trans hsee)

theorem wp_orPanic {α : Type} {Q : α → Scheduler → Prop} {x : Except Panic α} :
    wp (orPanic x) Q (fun _ _ => True) s ↔ ∀ a, x = .ok a → Q a s := by
  cases x with
  | ok a =>
    constructor
    · rintro h b ⟨⟩
      exact h
    · exact fun h => h a rfl
  | error p => exact iff_of_true trivial (by intro a ha; cases ha)

theorem pushIfInHorizon_pushed (hsees : o.Sees config limit)
    (hnext : ∀ t, s.memory.store.getTimer id = some t → t.nextFireUtc = some nf) :
    wp (pushIfInHorizon o config nf id) (fun _ s' => Pushed o.hash limit id s') (fun _ _ => True)
      s := by
  unfold pushIfInHorizon ask
  rw [wp_bind, wp_modifyGet, wp_bind, wp_onMemory_getTimer, wp_bind, wp_orPanic]
  intro execAt hexec
  rw [wp_bind, wp_orPanic]
  intro ok hok
  -- The row has not changed: only its execution instant can be meant.
  have hrow : ∀ {t : Timer} {nf' execAt' : Int}, s.memory.store.getTimer id = some t →
      t.Awaits o.hash limit nf' execAt' → execAt' = execAt ∧ (ok || t.isHighFrequency) = true := by
    intro t nf' execAt' hget hawaits
    have hnf := hawaits.next
    rw [hnext t hget] at hnf
    obtain rfl := Option.some.inj hnf
    have he := hawaits.exec
    rw [id_of_getTimer hget] at he
    rw [hget] at hexec
    obtain rfl := Except.ok.inj (he.symm.trans hexec)
    refine ⟨rfl, ?_⟩
    rcases hawaits.near with ⟨l, hl, hle⟩ | hfreq
    · rw [withinHorizon_of_sees hsees hl ((le_max_left _ _).trans hle) hok, Bool.true_or]
    · rw [hfreq, Bool.or_true]
  split
  · intro t nf' execAt' hget hawaits
    obtain ⟨rfl, -⟩ := hrow hget hawaits
    exact List.mem_cons_self ..
  · next hno =>
    intro t nf' execAt' hget hawaits
    obtain ⟨-, hyes⟩ := hrow hget hawaits
    exact absurd (by rw [show s.memory.store.getTimer id = some t from hget]; exact hyes) hno

theorem requeueTimer_pushed (hsees : o.Sees config limit) :
    wp (requeueTimer o config id) (fun _ s' => Pushed o.hash limit id s') (fun _ _ => True) s := by
  unfold requeueTimer
  rw [wp_bind, wp_onMemory_getTimer]
  cases hget : s.memory.store.getTimer id with
  | none =>
    intro t nf execAt hget'
    rw [hget] at hget'
    cases hget'
  | some t =>
    dsimp only
    split
    · next nf _ hnext =>
      refine pushIfInHorizon_pushed hsees fun t' ht' => ?_
      rw [hget] at ht'
      cases ht'
      exact hnext
    · next hno =>
      intro t' nf execAt hget' hawaits
      rw [hget] at hget'
      cases hget'
      exact absurd hawaits.next (hno nf hawaits.enabled)

section

variable [Calendar]

/-- The programs after which the fire of the timer is on the heap. -/
abbrev Pushes (o : Outside) (limit : Option Int) (id : Uuid) {α : Type} (m : EngineM α) : Prop :=
  ∀ s, wp m (fun _ s' => Pushed o.hash limit id s') (fun _ _ => True) s

omit [Calendar] in
theorem Pushes.after {α β : Type} {m : EngineM β} {f : β → EngineM α}
    (h : ∀ b, Pushes o limit id (f b)) : Pushes o limit id (m >>= f) := by
  intro s
  rw [wp_bind, wp_iff]
  exact ⟨fun b s' _ => h b s', fun _ _ _ => trivial⟩

omit [Calendar] in
theorem Pushes.andReturn {α β : Type} {m : EngineM β} {a : α} (h : Pushes o limit id m) :
    Pushes o limit id (m >>= fun _ => pure a) := by
  intro s
  rw [wp_bind]
  exact h s

omit [Calendar] in
theorem Pushes.ite {α : Type} {c : Prop} [Decidable c] {m m' : EngineM α}
    (h : Pushes o limit id m) (h' : Pushes o limit id m') :
    Pushes o limit id (if c then m else m') := by
  split
  · exact h
  · exact h'

theorem advancePastNow_pushed (hsees : o.Sees config limit) (now : Int) :
    Pushes o limit id (advancePastNow o config id now) :=
  .after fun _ _ => requeueTimer_pushed hsees

/-- **A handled timer is pushed again**: after the handling of a timer, its
next fire is on the heap at the execution instant. -/
theorem handleDueTimer_pushed (hsees : o.Sees config limit) (now : Int) :
    Pushes o limit id (handleDueTimer o config id now) := by
  intro s
  unfold handleDueTimer
  rw [wp_bind, wp_onMemory_getTimer]
  cases hget : s.memory.store.getTimer id with
  | none =>
    intro t nf execAt hget'
    rw [hget] at hget'
    cases hget'
  | some timer =>
    have hid := id_of_getTimer hget
    subst hid
    dsimp only
    split
    · next hdisabled =>
      intro t nf execAt hget' hawaits
      rw [hget] at hget'
      cases hget'
      rw [hawaits.enabled] at hdisabled
      cases hdisabled
    cases hnext : timer.nextFireUtc with
    | none =>
      intro t nf execAt hget' hawaits
      rw [hget] at hget'
      cases hget'
      rw [hawaits.next] at hnext
      cases hnext
    | some scheduledFor =>
      dsimp only
      split
      · rw [wp_bind]
        refine pushIfInHorizon_pushed hsees fun t' ht' => ?_
        rw [hget] at ht'
        cases ht'
        exact hnext
      · have hrequeue : Pushes o limit timer.id (requeueTimer o config timer.id) :=
          fun _ => requeueTimer_pushed hsees
        have hadvance : Pushes o limit timer.id (advancePastNow o config timer.id now) :=
          advancePastNow_pushed hsees now
        cases timer.misfire with
        | skip =>
          refine Pushes.ite (.after fun _ => hrequeue.andReturn) ?_ s
          exact .after fun _ => .after fun _ => hadvance.andReturn
        | coalesce _ =>
          refine Pushes.after (fun walk => ?_) s
          dsimp only
          split
          · exact .after fun _ => hadvance.andReturn
          · exact .after fun _ => hadvance.andReturn
        | catchUp graceSecs maxCatchUp =>
          refine Pushes.after (fun delivered s₁ => ?_) s
          rw [wp_bind, wp_onMemory_getTimer]
          cases hget₁ : s₁.memory.store.getTimer timer.id with
          | none =>
            intro t nf execAt hget'
            rw [hget₁] at hget'
            cases hget'
          | some t => exact Pushes.ite hadvance.andReturn hrequeue.andReturn s₁

end

end

/-! ### What is delivered -/

section

variable [Calendar] {cfg : FireConfig} {o : Outside} {config : SchedulerConfig} {t : Timer}
  {id : Uuid} {now : Int}

/-- The loop is in a state that the ledger knows. -/
def Known (cfg : FireConfig) (s : Scheduler) : Prop := Reached cfg s.memory

/-- Fires of the timer, for slots up to now. -/
def FiresOf (id : Uuid) (now : Int) (fires : List DeliveredFire) : Prop :=
  ∀ f ∈ fires, f.timerId = id ∧ f.scheduledFor ≤ now

omit [Calendar] in
theorem FiresOf.append {fires fires' : List DeliveredFire} (h : FiresOf id now fires)
    (h' : FiresOf id now fires') : FiresOf id now (fires ++ fires') := by
  intro f hf
  rcases List.mem_append.mp hf with hf | hf
  · exact h f hf
  · exact h' f hf

variable (hcfg : o.handling.Under cfg)

include hcfg

theorem known_steps (id : Uuid) : HandlingSteps o.handling id (Preserves (Known cfg)) :=
  (ledger_steps hcfg id).mono fun _ _ hc hs => System.Simulates.reachable hc hs

theorem actAndClose_yields {claim : RunClaim} (kind : FireKind) (hnow : claim.scheduledFor ≤ now) :
    Yields (Known cfg) (fun d : Option DeliveredFire => FiresOf t.id now d.toList)
      (actAndClose o config t claim kind) := by
  have hsteps := known_steps (o := o) hcfg t.id
  have hmark : ∀ k : EngineM (Option DeliveredFire),
      Yields (Known cfg) (fun d => FiresOf t.id now d.toList) k →
      Yields (Known cfg) (fun d => FiresOf t.id now d.toList) (do
        onMemory (prunePass o.handling (o.handling.delivery claim.scheduledFor) t)
        let fresh ← onMemory (getTimer t.id)
        if fresh.any fun t => t.lastFired.all (· < claim.scheduledFor) then
          onMemory (markFired o.handling t.id claim.scheduledFor)
        else requeueTimer o config t.id
        k) := by
    intro k hk
    have hmarked : Within (Preserves (Known cfg))
        (onMemory (markFired o.handling t.id claim.scheduledFor)) :=
      requireTimer_bind_within fun t' ht' => hsteps.update t' _ ht'
    refine yields_after (hsteps.prune _ _) fun _ => yields_after ?_ fun fresh => ?_
    · exact fun s hs => hs
    · exact yields_ite (fun _ => yields_after hmarked fun _ => hk)
        fun _ => yields_after (hsteps.requeueTimer_within _) fun _ => hk
  have hnone : FiresOf t.id now (none : Option DeliveredFire).toList := by
    intro f hf
    cases hf
  have hsome : ∀ run, FiresOf t.id now
      (some (⟨t.id, claim.scheduledFor, run, kind⟩ : DeliveredFire)).toList := by
    intro run f hf
    obtain rfl := List.mem_singleton.mp hf
    exact ⟨rfl, hnow⟩
  refine yields_ite (fun _ => ?_) fun _ => yields_ite (fun _ => ?_) fun _ => ?_
  · exact yields_after (hsteps.ensureAdvancedPast_within _ _) fun _ => yields_pure hnone
  · exact hmark _ (yields_pure (hsome _))
  · refine yields_after (hsteps.act _ _) fun err => hmark _ ?_
    cases err with
    | none => exact yields_pure (hsome _)
    | some e => exact yields_throw _

/-- A new claim is one of the slot. -/
theorem claimSlot_yields (slot : Int) (kind : FireKind) :
    Yields (Known cfg)
      (fun out : SlotClaim => ∀ claim, out = .new claim → claim.scheduledFor = slot)
      (onMemory (claimSlot o.handling t slot kind)) := by
  intro s hs
  have hkept : wp (onMemory (claimSlot o.handling t slot kind)) (fun _ s' => Known cfg s')
      (fun _ _ => True) s :=
    wp_mono ((known_steps hcfg t.id).claim t slot kind rfl s) (fun _ _ h => h hs)
      fun _ _ _ => trivial
  have hclaim : wp (onMemory (claimSlot o.handling t slot kind))
      (fun out _ => ∀ claim, out = .new claim → claim.scheduledFor = slot)
      (fun _ _ => True) s := by
    unfold onMemory
    rw [wp_zoom]
    refine wp_mono (claimSlot_spec hs.keyed) (fun out r h => ?_) fun _ _ _ => trivial
    rintro claim rfl
    exact h.2.2.2.1
  exact wp_mono (wp_and hkept hclaim) (fun _ _ h => h) fun _ _ _ => trivial

theorem deliverOne_yields {slot : Int} (kind : FireKind) (hnow : slot ≤ now) :
    Yields (Known cfg) (fun d : Option DeliveredFire => FiresOf t.id now d.toList)
      (deliverOne o config t slot kind) := by
  have hsteps := known_steps (o := o) hcfg t.id
  refine yields_bind (claimSlot_yields hcfg slot kind) fun out hout => ?_
  cases out with
  | new claim =>
    have hclaim : claim.scheduledFor ≤ now := (hout claim rfl).trans_le hnow
    exact yields_ite
      (fun _ => yields_after (hsteps.armPickup_within _) fun _ => actAndClose_yields hcfg _ hclaim)
      fun _ => actAndClose_yields hcfg _ hclaim
  | taken =>
    refine yields_after memory_within fun r => ?_
    split
    · next claim hget =>
      have hclaim : claim.scheduledFor ≤ now := (getClaimFor_mem hget).2.2.trans_le hnow
      refine yields_ite (fun _ => actAndClose_yields hcfg _ hclaim) fun _ => ?_
      refine yields_after (hsteps.ensureAdvancedPast_within _ _) fun _ => yields_pure ?_
      intro f hf
      cases hf
    · exact yields_throw _

omit hcfg in
theorem walkFrom_le {n : Nat} {occ : Occurrence} {cursor : Int} {walk : List Int}
    (h : walkFrom now n occ cursor = .ok walk) : ∀ m ∈ walk, m ≤ now := by
  induction n generalizing occ cursor walk with
  | zero =>
    cases h
    intro m hm
    cases hm
  | succ n ih =>
    unfold walkFrom at h
    cases hnext : occ.nextFire cursor with
    | error p => simp [hnext, bind, Except.bind] at h
    | ok found =>
      obtain ⟨_ | c, occ'⟩ := found
      · simp only [hnext, bind, Except.bind, pure, Except.pure] at h
        cases h
        intro m hm
        cases hm
      · simp only [hnext, bind, Except.bind, pure, Except.pure] at h
        split at h
        · cases h
          intro m hm
          cases hm
        next hc =>
        cases hrest : walkFrom now n occ' c with
        | error p => simp [hrest] at h
        | ok rest =>
          simp only [hrest] at h
          cases h
          intro m hm
          rcases List.mem_cons.mp hm with rfl | hm
          · exact Int.not_lt.mp hc
          · exact ih hrest m hm

omit hcfg in
/-- The walk ends at the present. -/
theorem walkMissed_le {slot : Int} {walk : List Int} (h : walkMissed t slot now = .ok walk) :
    ∀ m ∈ walk, m ≤ now := by
  unfold walkMissed at h
  split at h
  · cases h
    intro m hm
    cases hm
  next hslot =>
  cases htz : t.occurrence.timezone with
  | error p => simp [htz, bind, Except.bind] at h
  | ok tz =>
    cases hrest : walkFrom now MAX_WALK t.occurrence slot with
    | error p => simp [htz, hrest, bind, Except.bind] at h
    | ok rest =>
      simp only [htz, hrest, bind, Except.bind, pure, Except.pure] at h
      cases h
      intro m hm
      rcases List.mem_cons.mp hm with rfl | hm
      · exact Int.not_lt.mp hslot
      · exact walkFrom_le hrest m hm

omit hcfg in
theorem orAbort_bind_yields {α β : Type} {P : α → Prop} {x : Except Panic β} {f : β → EngineM α}
    (hf : ∀ b, x = .ok b → Yields (Known cfg) P (f b)) :
    Yields (Known cfg) P (onMemory (orAbort x) >>= f) := by
  cases x with
  | ok b => exact hf b rfl
  | error p => exact fun _ _ => trivial

theorem catchUpLoop_yields (grace : Int) (maxCatchUp fuel : Nat) (scheduled : Int) (index : Nat)
    {delivered : List DeliveredFire} (hd : FiresOf id now delivered) :
    Yields (Known cfg) (FiresOf id now)
      (catchUpLoop o config id now grace maxCatchUp fuel scheduled index delivered) := by
  have hsteps := known_steps (o := o) hcfg id
  have hread : Within (Preserves (Known cfg)) (onMemory (getTimer id)) := fun s hs => hs
  induction fuel generalizing scheduled index delivered with
  | zero => exact yields_pure hd
  | succ fuel ih =>
    refine yields_ite (fun _ => yields_pure hd) fun hdue => yields_ite (fun _ => ?_) fun _ => ?_
    · refine yields_after (requireTimer_bind_within fun t ht => hsteps.update t _ ht) fun _ =>
        yields_after hread fun t => ?_
      cases t with
      | none => exact yields_pure hd
      | some t =>
        dsimp only
        cases t.nextFireUtc with
        | none => exact yields_pure hd
        | some nf => exact yields_ite (fun _ => ih _ _ hd) fun _ => yields_pure hd
    · intro s hs
      rw [wp_bind, wp_onMemory_getTimer]
      cases hget : s.memory.store.getTimer id with
      | none => exact ⟨hs, hd⟩
      | some timerNow =>
        obtain rfl := id_of_getTimer hget
        refine yields_bind (deliverOne_yields hcfg _ (Int.not_lt.mp fun h => hdue (.inl h)))
          (fun d hfires => ?_) s hs
        have hall := hd.append hfires
        refine yields_after hread fun t => ?_
        cases t with
        | none => exact yields_pure hall
        | some t =>
          dsimp only
          cases t.nextFireUtc with
          | none => exact yields_pure hall
          | some nf =>
            refine yields_ite (fun _ => ?_) fun _ => ih _ _ hall
            exact yields_after (hsteps.pushIfInHorizon_within _ _) fun _ => yields_pure hall

/-- The handling of a timer delivers fires of that timer, for slots that have
come. -/
theorem handleDueTimer_yields :
    Yields (Known cfg) (FiresOf id now) (handleDueTimer o config id now) := by
  have hsteps := known_steps (o := o) hcfg id
  have hnil : FiresOf id now [] := by
    intro f hf
    cases hf
  intro s hs
  unfold handleDueTimer
  rw [wp_bind, wp_onMemory_getTimer]
  cases hget : s.memory.store.getTimer id with
  | none => exact ⟨hs, hnil⟩
  | some t =>
    obtain rfl := id_of_getTimer hget
    refine yields_ite (fun _ => yields_pure hnil) (fun _ => ?_) s hs
    cases t.nextFireUtc with
    | none => exact yields_pure hnil
    | some slot =>
      refine yields_ite (fun _ => ?_) fun hdue => ?_
      · exact yields_after (hsteps.pushIfInHorizon_within _ _) fun _ => yields_pure hnil
      have hslot : slot ≤ now := Int.not_lt.mp hdue
      cases t.misfire with
      | skip =>
        refine yields_ite (fun _ => ?_) fun _ => yields_after (orAbort_within _) fun walk => ?_
        · exact yields_bind (deliverOne_yields hcfg _ hslot) fun d hd =>
            yields_after (hsteps.requeueTimer_within _) fun _ => yields_pure hd
        · exact yields_after (hsteps.skipped _ _ _ _ _) fun _ =>
            yields_after (hsteps.advancePastNow_within _) fun _ => yields_pure hnil
      | coalesce _ =>
        refine orAbort_bind_yields fun walk hwalk => ?_
        dsimp only
        split
        · exact yields_after (hsteps.skipped _ _ _ _ _) fun _ =>
            yields_after (hsteps.advancePastNow_within _) fun _ => yields_pure hnil
        · next fireAt hlast =>
          have hfire : fireAt ≤ now :=
            walkMissed_le hwalk _ (List.mem_of_mem_filter (List.mem_of_getLast? hlast))
          exact yields_bind (deliverOne_yields hcfg _ hfire) fun d hd =>
            yields_after (hsteps.advancePastNow_within _) fun _ => yields_pure hd
      | catchUp graceSecs maxCatchUp =>
        refine yields_bind (catchUpLoop_yields hcfg _ _ _ _ _ hnil) fun delivered hd =>
          yields_after (fun s hs => hs) fun t' => ?_
        cases t' with
        | none => exact yields_pure hd
        | some t' =>
          refine yields_ite (fun _ => ?_) fun _ => ?_
          · exact yields_after (hsteps.advancePastNow_within _) fun _ => yields_pure hd
          · exact yields_after (hsteps.requeueTimer_within _) fun _ => yields_pure hd

end

end Scheduler

end Bellman
