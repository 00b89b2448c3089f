/-
Bellman/Drain.lean

What a drain does, and what it leaves on the heap.

A drain takes one due entry after another off the heap.  Its invariant
(`Drained`) speaks of the rows: those that have not come up are as they were
and still noted, those that have come up are settled for this drain, and of
these the ones that were handled were due.  Whatever the heap held, and in
whatever order it gave it out, a timer is handled at most once, and never
before its instant (`drainDue_due`); afterwards every timer that awaits a
fire is on the heap for it, or was handled and is due again already
(`drainDue_covers`).
-/
import Bellman.Coalesce
import Bellman.Confined
import Bellman.Pushed

namespace Bellman

open ProgramLogic Prog ReplyM

/-! ### The invariant of a drain -/

/-- The row is due: its fire and the execution instant of it have come. -/
structure Timer.DueAt (hash : Uuid → Int → Nat) (now : Int) (t : Timer) : Prop where
  enabled : t.enabled = true
  instant : ∃ nf execAt, t.nextFireUtc = some nf ∧
    applyExecutionJitter hash t.id nf t.jitterSecs = .ok execAt ∧ nf ≤ now ∧ execAt ≤ now

/-- An entry for a fire of the timer. -/
def HeapEntry.Fires (id : Uuid) (e : HeapEntry) : Prop := ∃ at_, e = .fire at_ id

namespace Scheduler

variable {hash : Uuid → Int → Nat} {limit : Option Int} {now : Int}

/-- The heap has an entry for the fire that the row awaits, no later than it. -/
def Covers (hash : Uuid → Int → Nat) (limit : Option Int) (s : Scheduler) (t : Timer) : Prop :=
  ∀ nf execAt, t.Awaits hash limit nf execAt →
    Noted HeapEntry.at_ (HeapEntry.Fires t.id) s.heap (max execAt nf)

/-- The fire that the row awaits is noted past `now`, or the row was handled
and is due again already. -/
def Settles (hash : Uuid → Int → Nat) (limit : Option Int) (now : Int) (handled : List Uuid)
    (s : Scheduler) (t : Timer) : Prop :=
  ∀ nf execAt, t.Awaits hash limit nf execAt → (t.id ∈ handled ∧ execAt ≤ now) ∨
    Noted HeapEntry.at_ (fun e => e.Fires t.id ∧ now < e.at_) s.heap (max execAt nf)

/-- A drain at `now` from `s₀`, some way on: `resolved` are the timers that
have come up, and `handled` those of them that were due. The heap may have
been wrong about the timers that are `loose`. -/
structure Drained (hash : Uuid → Int → Nat) (limit : Option Int) (now : Int)
    (loose : Uuid → Prop) (s₀ : Scheduler) (resolved handled : List Uuid) (s : Scheduler) :
    Prop where
  ids : (s.memory.store.timers.map Timer.id).Nodup
  handled_sub : handled ⊆ resolved
  nodup : handled.Nodup
  due : ∀ id ∈ handled, ∃ t ∈ s₀.memory.store.timers, t.id = id ∧ t.DueAt hash now
  kept : ∀ t ∈ s.memory.store.timers, t.id ∉ handled → t ∈ s₀.memory.store.timers
  waiting : ∀ t ∈ s.memory.store.timers, t.id ∉ resolved → ¬loose t.id → Covers hash limit s t
  settled : ∀ t ∈ s.memory.store.timers, t.id ∈ resolved → Settles hash limit now handled s t

section

variable {layout : Layout HeapEntry} {loose : Uuid → Prop} {s₀ s s' : Scheduler}
  {resolved handled : List Uuid} {e : HeapEntry} {rest : List HeapEntry} {id : Uuid} {t : Timer}

/-- Before a drain. -/
theorem Drained.start (hids : (s.memory.store.timers.map Timer.id).Nodup)
    (hcov : ∀ t ∈ s.memory.store.timers, ¬loose t.id → Covers hash limit s t) :
    Drained hash limit now loose s [] [] s where
  ids := hids
  handled_sub := List.Subset.refl _
  nodup := List.nodup_nil
  due := by
    intro id hid
    cases hid
  kept _ ht _ := ht
  waiting t ht _ := hcov t ht
  settled := by
    intro t _ hid
    cases hid

/-- A row of a timer that the entry is not for is covered without it. -/
theorem Covers.pop (h : Covers hash limit s t)
    (hpop : pop layout HeapEntry.key s.heap = some (e, rest))
    (he : ¬e.Fires t.id) (hrest : rest ⊆ s'.heap) : Covers hash limit s' t := by
  intro nf execAt hawaits
  rcases (h nf execAt hawaits).of_pop hpop with hnoted | ⟨hfires, -⟩
  · exact hnoted.mono hrest le_rfl
  · exact absurd hfires he

/-- A row that is settled is not so by an entry that has come. -/
theorem Settles.pop (h : Settles hash limit now handled s t)
    (hpop : pop layout HeapEntry.key s.heap = some (e, rest)) (hnow : e.at_ ≤ now)
    (hrest : rest ⊆ s'.heap) {handled' : List Uuid} (hhandled : handled ⊆ handled') :
    Settles hash limit now handled' s' t := by
  intro nf execAt hawaits
  rcases h nf execAt hawaits with ⟨hid, hexec⟩ | hnoted
  · exact .inl ⟨hhandled hid, hexec⟩
  · rcases hnoted.of_pop hpop with hnoted | ⟨⟨-, hlate⟩, -⟩
    · exact .inr (hnoted.mono hrest le_rfl)
    · exact absurd hnow (not_le.mpr hlate)

/-- An entry that is dropped: that of a deadline, or one of a timer that has
come up before. -/
theorem Drained.drop (h : Drained hash limit now loose s₀ resolved handled s)
    (hpop : pop layout HeapEntry.key s.heap = some (e, rest)) (hnow : e.at_ ≤ now)
    (he : ∀ id, e.Fires id → id ∈ resolved)
    (hfew : FewerTimers s.memory.store s'.memory.store) (hrest : rest ⊆ s'.heap) :
    Drained hash limit now loose s₀ resolved handled s' where
  ids := (hfew.map _).nodup h.ids
  handled_sub := h.handled_sub
  nodup := h.nodup
  due := h.due
  kept t ht := h.kept t (hfew.subset ht)
  waiting t ht hid hloose := (h.waiting t (hfew.subset ht) hid hloose).pop hpop
    (fun hfires => hid (he t.id hfires)) hrest
  settled t ht hid := (h.settled t (hfew.subset ht) hid).pop hpop hnow hrest
    (List.Subset.refl _)

/-- A timer comes up: its own row is settled, and the others are as they were. -/
theorem Drained.resolve (h : Drained hash limit now loose s₀ resolved handled s)
    (hpop : pop layout HeapEntry.key s.heap = some (e, rest)) (hnow : e.at_ ≤ now)
    (he : ∀ id', e.Fires id' → id' = id)
    (hrows : RowsBut id s.memory.store s'.memory.store) (hrest : rest ⊆ s'.heap)
    {handled' : List Uuid} (hsub : handled' ⊆ id :: resolved) (hnodup : handled'.Nodup)
    (hmore : handled ⊆ handled')
    (hdue : ∀ id ∈ handled', ∃ t ∈ s₀.memory.store.timers, t.id = id ∧ t.DueAt hash now)
    (hkept : ∀ t ∈ s'.memory.store.timers, t.id = id → id ∉ handled' →
      t ∈ s₀.memory.store.timers)
    (hown : ∀ t ∈ s'.memory.store.timers, t.id = id → Settles hash limit now handled' s' t) :
    Drained hash limit now loose s₀ (id :: resolved) handled' s' where
  ids := hrows.ids.nodup h.ids
  handled_sub := hsub
  nodup := hnodup
  due := hdue
  kept t ht hid := by
    by_cases heq : t.id = id
    · exact hkept t ht heq (heq ▸ hid)
    · exact h.kept t (hrows.others t ht heq) fun hmem => hid (hmore hmem)
  waiting t ht hid hloose := by
    have hne : t.id ≠ id := fun heq => hid (heq ▸ List.mem_cons_self ..)
    exact (h.waiting t (hrows.others t ht hne) (fun hmem => hid (List.mem_cons_of_mem _ hmem))
      hloose).pop hpop (fun hfires => hne (he t.id hfires)) hrest
  settled t ht hid := by
    by_cases heq : t.id = id
    · exact hown t ht heq
    · have hmem := (List.mem_cons.mp hid).resolve_left heq
      exact (h.settled t (hrows.others t ht heq) hmem).pop hpop hnow hrest hmore

end

/-! ### A drain without a heap -/

end Scheduler

/-- What comes up in a drain: a timer, or the deadline of a run with the
reading of the monotonic clock at its turn. -/
inductive Turn where
  | timer (id : Uuid)
  | deadline (runId : Uuid) (kind : DeadlineKind) (monoNow : Int)

namespace Turn

def timer? : Turn → Option Uuid
  | timer id => some id
  | deadline .. => none

section

variable [Calendar] (o : Outside) (now : Int)

/-- What `expire_one` does to the memory. -/
def expireOne (t : Timer) (runId : Uuid) (kind : DeadlineKind) (monoNow : Int) : SchedM Unit := do
  match o.gate t.id with
  | some e => throw (.internal s!"per-timer gate: {e}")
  | none =>
    let transitioned ← mapError
      (fun a => match a with
        | .error e => .internal s!"deadline transition: {o.handling.display e}"
        | .panic p => .abort (.panic p))
      (match kind with
        | .pickup => expirePickupOne t runId now
        | .watchdog => expireWatchdogOne t runId now monoNow)
    match transitioned, o.projects t.id with
    | true, some e => throw (.internal s!"deadline projection: {e}")
    | _, _ => return ()

/-- A deadline that has come up is looked at in the book: one that has not
passed is left, and so is one that nobody keeps any more. -/
def expire (runId : Uuid) (kind : DeadlineKind) (monoNow : Int) : SchedM Unit := do
  if o.handling.engine.isNone then return ()
  else
    match (← get).book.get runId with
    | none => return ()
    | some entry =>
      if monoNow < entry.at_ then return ()
      else
        match (← get).store.getRunState runId with
        | none => return ()
        | some row =>
          match ← getTimer row.timerId with
          | none => return ()
          | some t => expireOne o now t runId kind monoNow

/-- A turn, without a heap. -/
def perform : Turn → SchedM (List DeliveredFire)
  | timer id => handleDueTimer o.handling id now
  | deadline runId kind monoNow => do
    expire o now runId kind monoNow
    return []

/-- The turns of a drain, one after another. -/
def performAll : List Turn → SchedM (List DeliveredFire)
  | [] => return []
  | turn :: turns => do
    let delivered ← turn.perform o now
    return delivered ++ (← performAll turns)

variable {o now}

theorem performAll_single {turn : Turn} {r r' : ReplyState} {fires : List DeliveredFire}
    (h : (turn.perform o now).run r = (.ok fires, r')) :
    (performAll o now [turn]).run r = (.ok fires, r') := by
  rw [performAll, run_bind, h]
  show (Except.ok (fires ++ []), r') = _
  rw [List.append_nil]

theorem performAll_append {turns turns' : List Turn} {r r' r'' : ReplyState}
    {fires fires' : List DeliveredFire} (h : (performAll o now turns).run r = (.ok fires, r'))
    (h' : (performAll o now turns').run r' = (.ok fires', r'')) :
    (performAll o now (turns ++ turns')).run r = (.ok (fires ++ fires'), r'') := by
  induction turns generalizing r fires with
  | nil =>
    cases h
    exact h'
  | cons turn turns ih =>
    rw [List.cons_append, performAll, run_bind]
    rw [performAll, run_bind] at h
    rcases hturn : (turn.perform o now).run r with ⟨e | first, r₁⟩
    · rw [hturn] at h
      cases h
    · rw [hturn] at h
      dsimp only at h ⊢
      rw [run_bind] at h ⊢
      rcases hrest : (performAll o now turns).run r₁ with ⟨e | more, r₂⟩
      · rw [hrest] at h
        cases h
      · rw [hrest] at h
        cases h
        rw [ih hrest]
        show (Except.ok (first ++ (more ++ fires')), r'') = _
        rw [List.append_assoc]

end

end Turn

namespace Scheduler

section

variable [Calendar] {o : Outside} {now : Int}

omit [Calendar] in
theorem expireOne_acts (timer : Timer) (runId : Uuid) (kind : DeadlineKind) (monoNow : Int) :
    Acts (expireOne o timer runId kind now monoNow)
      (Turn.expireOne o now timer runId kind monoNow) := by
  unfold expireOne Turn.expireOne
  cases o.gate timer.id with
  | some e => exact erases_throw _
  | none =>
    refine (onMemory_acts _).bind fun out => ?_
    cases out with
    | false => exact erases_pure _
    | true =>
      cases o.projects timer.id with
      | none => exact erases_pure _
      | some e => exact erases_throw _

omit [Calendar] in
/-- **A deadline is a turn**: it does to the memory what the book says. -/
theorem handleDueDeadline_turn (runId : Uuid) (kind : DeadlineKind) (s : Scheduler) :
    wp (handleDueDeadline o runId kind now)
      (fun _ s' => ∃ monoNow, (Turn.expire o now runId kind monoNow).run s.memory =
        (.ok (), s'.memory)) (fun _ _ => True) s := by
  unfold handleDueDeadline Turn.expire
  split
  · exact ⟨0, rfl⟩
  rw [wp_memory_bind]
  simp only [run_get_bind]
  cases hbook : s.memory.book.get runId with
  | none => exact ⟨0, rfl⟩
  | some entry =>
    dsimp only
    rw [wp_bind, ask, wp_modifyGet]
    split
    · next hlt =>
      rw [wp_bind, wp_orPanic]
      exact fun wallAt _ => ⟨o.mono s.asked, by rw [if_pos hlt]; rfl⟩
    next hnot =>
    rw [wp_memory_bind]
    dsimp only
    cases hrow : s.memory.store.getRunState runId with
    | none => exact ⟨o.mono s.asked, by rw [if_neg hnot, run_get_bind, hrow]; rfl⟩
    | some row =>
      dsimp only
      rw [wp_bind, wp_onMemory_getTimer]
      dsimp only
      have hread : (getTimer row.timerId).run s.memory =
          (.ok (s.memory.store.getTimer row.timerId), s.memory) := rfl
      cases hget : s.memory.store.getTimer row.timerId with
      | none =>
        refine ⟨o.mono s.asked, ?_⟩
        rw [if_neg hnot, run_get_bind, hrow]
        dsimp only
        rw [run_bind, hread, hget]
        rfl
      | some timer =>
        refine wp_mono ((expireOne_acts timer runId kind _).wp_ok _) (fun _ s' hs' => ?_)
          fun _ _ _ => trivial
        refine ⟨o.mono s.asked, ?_⟩
        rw [if_neg hnot, run_get_bind, hrow]
        dsimp only
        rw [run_bind, hread, hget]
        exact hs'

end

/-! ### The drain -/

section

variable [Calendar] {cfg : FireConfig} {o : Outside} {config : SchedulerConfig}
  {limit : Option Int} {now : Int} {loose : Uuid → Prop} {s₀ s s' s'' : Scheduler}
  {resolved resolved' handled : List Uuid} {e : HeapEntry} {rest : List HeapEntry}
  {fires fires' : List DeliveredFire}

/-- What a part of a drain comes to, from `s` to `s'`: some turns are taken,
and what was delivered is of their timers, for slots that have come. -/
def DrainsTo (cfg : FireConfig) (o : Outside) (limit : Option Int) (now : Int)
    (loose : Uuid → Prop) (s₀ : Scheduler) (handled : List Uuid) (s : Scheduler)
    (fires : List DeliveredFire) (resolved : List Uuid) (s' : Scheduler) : Prop :=
  Known cfg s' ∧ ∃ turns, (Turn.performAll o now turns).run s.memory = (.ok fires, s'.memory) ∧
    Drained o.hash limit now loose s₀ resolved (handled ++ turns.filterMap Turn.timer?) s' ∧
    ∀ f ∈ fires, f.timerId ∈ turns.filterMap Turn.timer? ∧ f.scheduledFor ≤ now

theorem DrainsTo.quiet (hs : Known cfg s') (hmem : s'.memory = s.memory)
    (h : Drained o.hash limit now loose s₀ resolved handled s') :
    DrainsTo cfg o limit now loose s₀ handled s [] resolved s' := by
  refine ⟨hs, [], ?_, ?_, ?_⟩
  · rw [hmem]
    rfl
  · rwa [List.filterMap_nil, List.append_nil]
  · intro f hf
    cases hf

/-- One turn. -/
theorem DrainsTo.turn {turn : Turn} (hs : Known cfg s')
    (hturn : (turn.perform o now).run s.memory = (.ok fires, s'.memory))
    (hfires : ∀ f ∈ fires, turn.timer? = some f.timerId ∧ f.scheduledFor ≤ now)
    (h : Drained o.hash limit now loose s₀ resolved (handled ++ turn.timer?.toList) s') :
    DrainsTo cfg o limit now loose s₀ handled s fires resolved s' := by
  have htimers : [turn].filterMap Turn.timer? = turn.timer?.toList := by
    cases turn with
    | timer id => rfl
    | deadline runId kind monoNow => rfl
  refine ⟨hs, [turn], Turn.performAll_single hturn, by rwa [htimers], fun f hf => ?_⟩
  obtain ⟨htimer, hslot⟩ := hfires f hf
  rw [htimers, htimer]
  exact ⟨List.mem_cons_self .., hslot⟩

variable (hcfg : o.handling.Under cfg) (hsees : o.Sees config limit)

include hcfg hsees

/-- The handling of a due timer, as a drain sees it. -/
theorem handleDueTimer_spec {id : Uuid} (hs : Known cfg s) :
    wp (handleDueTimer o config id now)
      (fun fires s' => Known cfg s' ∧ FiresOf id now fires ∧ Pushed o.hash limit id s' ∧
        HeapGrows s s' ∧ RowsBut id s.memory.store s'.memory.store) (fun _ _ => True) s := by
  have hgrows : Within HeapGrows (handleDueTimer o config id now) :=
    (heapGrows_steps o.handling id).handleDueTimer_within now
  have hrows : Within (OnMemory (Seen (RowsBut id))) (handleDueTimer o config id now) :=
    (rowsBut_steps o.handling id).handleDueTimer_within now
  have hboth := wp_and
    (wp_and (handleDueTimer_yields hcfg s hs) (handleDueTimer_pushed hsees now s))
    (wp_and (hgrows s) (hrows s))
  exact wp_mono hboth (fun _ _ h => ⟨h.1.1.1, h.1.1.2, h.1.2, h.2.1, h.2.2⟩) fun _ _ _ => trivial

theorem drainEntry_drains (hs : Known cfg s)
    (h : Drained o.hash limit now loose s₀ resolved handled s)
    (hpop : pop o.layout HeapEntry.key s.heap = some (e, rest)) (hnow : e.at_ ≤ now) :
    wp (drainEntry o config now resolved e)
      (fun out s' => DrainsTo cfg o limit now loose s₀ handled s out.1 out.2 s')
      (fun _ _ => True) { s with heap := rest } := by
  cases e with
  | deadline wallAt runId kind =>
    have hrows : Within (OnMemory (Seen FewerTimers)) (handleDueDeadline o runId kind now) :=
      handleDueDeadline_within (fun s _ => Std.Refl.refl (r := Seen FewerTimers) s.memory)
        (fun s _ => Std.Refl.refl (r := Seen FewerTimers) s.memory) fun timer monoNow =>
          expireOne_within (fewerTimers_statements.expirePickupOne_within timer runId now)
            (fewerTimers_statements.expireWatchdogOne_within timer runId now monoNow) kind
    have hknown : Within (Preserves (Known cfg)) (handleDueDeadline o runId kind now) :=
      ((ledger_loopSteps hcfg).dueDeadline_within runId kind now).mono fun _ _ hc hs =>
        System.Simulates.reachable hc hs
    rw [drainEntry, wp_bind]
    refine wp_mono (wp_and (wp_and (hknown _) (handleDueDeadline_turn runId kind _))
      (wp_and (hrows _) (handleDueDeadline_grows runId kind now _)))
      (fun _ s' hs' => ?_) fun _ _ _ => trivial
    obtain ⟨⟨hknown', monoNow, hturn⟩, hfew, hgrows⟩ := hs'
    have hperform : ((Turn.deadline runId kind monoNow).perform o now).run s.memory =
        (.ok [], s'.memory) := by
      rw [Turn.perform, run_bind, show (Turn.expire o now runId kind monoNow).run s.memory = _
        from hturn]
      rfl
    refine DrainsTo.turn (hknown' hs) hperform ?_ ?_
    · intro f hf
      cases hf
    · rw [Turn.timer?, Option.toList_none, List.append_nil]
      refine h.drop hpop hnow ?_ hfew hgrows
      rintro id ⟨at_, he⟩
      cases he
  | fire at_ id =>
    have hone : ∀ id', (HeapEntry.fire at_ id).Fires id' → id' = id := by
      rintro id' ⟨at_, he⟩
      cases he
      rfl
    rw [drainEntry]
    split
    · next hid =>
      exact DrainsTo.quiet hs rfl (h.drop hpop hnow (fun id' he => hone id' he ▸ hid)
        (List.Sublist.refl _) (List.Subset.refl _))
    next hid =>
    -- With distinct ids the row is the one that is read.
    have hrow : ∀ t ∈ s.memory.store.timers, t.id = id → s.memory.store.getTimer id = some t := by
      rintro t ht rfl
      exact Rows.find?_of_mem Timer.id h.ids ht
    -- The timer comes up, and nothing is written.
    have hidle : ∀ heap, rest ⊆ heap →
        (∀ t, s.memory.store.getTimer id = some t →
          Settles o.hash limit now handled { s with heap } t) →
        DrainsTo cfg o limit now loose s₀ handled s [] (id :: resolved) { s with heap } := by
      intro heap hrest hown
      refine DrainsTo.quiet hs rfl (h.resolve hpop hnow hone ?_ ?_
        (List.subset_cons_of_subset _ h.handled_sub) h.nodup (List.Subset.refl _) h.due ?_ ?_)
      · exact Std.Refl.refl (r := RowsBut id) s.memory.store
      · exact hrest
      · exact fun t ht heq hno => h.kept t ht (heq ▸ hno)
      · exact fun t ht heq => hown t (hrow t ht heq)
    rw [wp_bind, wp_onMemory_getTimer]
    cases hget : s.memory.store.getTimer id with
    | none =>
      refine hidle rest (List.Subset.refl _) fun t ht => ?_
      rw [hget] at ht
      cases ht
    | some t =>
      obtain rfl := id_of_getTimer hget
      have hthis : ∀ {t'}, s.memory.store.getTimer t.id = some t' → t' = t := by
        intro t' ht'
        rw [hget] at ht'
        exact (Option.some.inj ht').symm
      dsimp only
      split
      · next nf henabled hnext =>
        rw [wp_bind, wp_orPanic]
        intro execAt hexec
        -- The only fire that the row can await.
        have honly : ∀ {nf' execAt'}, t.Awaits o.hash limit nf' execAt' →
            nf' = nf ∧ execAt' = execAt := by
          intro nf' execAt' hawaits
          obtain rfl := Option.some.inj (hawaits.next.symm.trans hnext)
          exact ⟨rfl, Except.ok.inj (hawaits.exec.symm.trans hexec)⟩
        split
        · next hlate =>
          refine hidle _ (List.subset_cons_self _ _) fun t' ht' nf' execAt' hawaits => ?_
          obtain rfl := hthis ht'
          obtain ⟨rfl, rfl⟩ := honly hawaits
          exact .inr (noted_cons ⟨⟨_, rfl⟩, hlate⟩ (le_max_left _ _))
        split
        · next hlate =>
          refine hidle _ (List.subset_cons_self _ _) fun t' ht' nf' execAt' hawaits => ?_
          obtain rfl := hthis ht'
          obtain ⟨rfl, rfl⟩ := honly hawaits
          exact .inr (noted_cons ⟨⟨_, rfl⟩, hlate⟩ (le_max_right _ _))
        next hexecNow hnfNow =>
        rw [wp_bind]
        refine wp_mono (wp_and (handleDueTimer_spec hcfg hsees hs)
          ((handleDueTimer_acts t.id now).wp_ok _)) (fun fires s' hs' => ?_) fun _ _ _ => trivial
        obtain ⟨⟨hs', hfires, hpushed, hgrows, hrows⟩, hturn⟩ := hs'
        have hfresh : t.id ∉ handled := fun hmem => hid (h.handled_sub hmem)
        have hlast : t.id ∈ handled ++ [t.id] := List.mem_append_right _ (List.mem_cons_self ..)
        have hperform : ((Turn.timer t.id).perform o now).run s.memory = (.ok fires, s'.memory) :=
          hturn
        refine DrainsTo.turn hs' hperform ?_ ?_
        · intro f hf
          obtain ⟨hid', hslot⟩ := hfires f hf
          exact ⟨congrArg some hid'.symm, hslot⟩
        · refine h.resolve hpop hnow hone hrows hgrows ?_ ?_ (List.subset_append_left _ _) ?_ ?_ ?_
          · intro id' hid'
            rcases List.mem_append.mp hid' with hid' | hid'
            · exact List.mem_cons_of_mem _ (h.handled_sub hid')
            · exact List.mem_singleton.mp hid' ▸ List.mem_cons_self ..
          · exact List.nodup_append.mpr ⟨h.nodup, List.nodup_singleton _, fun a ha b hb heq =>
              hfresh (List.mem_singleton.mp hb ▸ heq ▸ ha)⟩
          · intro id' hid'
            rcases List.mem_append.mp hid' with hid' | hid'
            · exact h.due id' hid'
            · obtain rfl := List.mem_singleton.mp hid'
              refine ⟨t, h.kept t (List.mem_of_find?_eq_some hget) hfresh, rfl, henabled, ?_⟩
              exact ⟨nf, execAt, hnext, hexec, Int.not_lt.mp hnfNow, Int.not_lt.mp hexecNow⟩
          · exact fun _ _ _ hno => absurd hlast hno
          · intro t' ht' heq nf' execAt' hawaits
            have hget' : s'.memory.store.getTimer t.id = some t' :=
              heq ▸ Rows.find?_of_mem Timer.id (hrows.ids.nodup h.ids) ht'
            have hnoted := hpushed t' nf' execAt' hget' hawaits
            rcases le_or_gt execAt' now with hle | hlt
            · exact .inl ⟨heq ▸ hlast, hle⟩
            · exact .inr ⟨_, hnoted, ⟨⟨_, by rw [heq]⟩, hlt⟩, le_max_left _ _⟩
      · next hno =>
        refine hidle rest (List.Subset.refl _) fun t' ht' nf execAt hawaits => ?_
        obtain rfl := hthis ht'
        exact absurd hawaits.next (hno nf hawaits.enabled)

theorem drainLoop_drains {fuel : Nat} (hs : Known cfg s)
    (h : Drained o.hash limit now loose s₀ resolved handled s) :
    wp (drainLoop o config now fuel resolved)
      (fun fires s' => ∃ resolved', DrainsTo cfg o limit now loose s₀ handled s fires resolved' s')
      (fun _ _ => True) s := by
  induction fuel generalizing s resolved handled with
  | zero => exact ⟨resolved, DrainsTo.quiet hs rfl h⟩
  | succ fuel ih =>
    rw [drainLoop, wp_bind, wp_get]
    cases hpop : pop o.layout HeapEntry.key s.heap with
    | none => exact ⟨resolved, DrainsTo.quiet hs rfl h⟩
    | some out =>
      obtain ⟨e, rest⟩ := out
      dsimp only
      split
      · exact ⟨resolved, DrainsTo.quiet hs rfl h⟩
      next hnow =>
      rw [wp_bind, wp_set, wp_bind]
      refine wp_mono (drainEntry_drains hcfg hsees hs h hpop (Int.not_lt.mp hnow))
        (fun out s₁ h₁ => ?_) fun _ _ _ => trivial
      obtain ⟨hs₁, turns₁, hrun₁, h₁, hfires₁⟩ := h₁
      rw [wp_bind]
      refine wp_mono (ih hs₁ h₁) (fun fires s₂ h₂ => ?_) fun _ _ _ => trivial
      obtain ⟨resolved₂, hs₂, turns₂, hrun₂, h₂, hfires₂⟩ := h₂
      refine ⟨resolved₂, hs₂, turns₁ ++ turns₂, Turn.performAll_append hrun₁ hrun₂, ?_, ?_⟩
      · rwa [List.filterMap_append, ← List.append_assoc]
      · intro f hf
        rw [List.filterMap_append]
        rcases List.mem_append.mp hf with hf | hf
        · exact ⟨List.mem_append_left _ (hfires₁ f hf).1, (hfires₁ f hf).2⟩
        · exact ⟨List.mem_append_right _ (hfires₂ f hf).1, (hfires₂ f hf).2⟩

end

/-! ### What a drain leaves -/

section

variable {hash : Uuid → Int → Nat} {limit : Option Int} {o : Outside} {config : SchedulerConfig}
  {s : Scheduler} {t : Timer} {now nf execAt : Int}

theorem at_le_of_pop {layout : Layout HeapEntry} {e e' : HeapEntry} {rest : List HeapEntry}
    (hpop : pop layout HeapEntry.key s.heap = some (e, rest)) (he' : e' ∈ s.heap) :
    e.at_ ≤ e'.at_ :=
  Prod.Lex.monotone_fst _ _ (pop_le hpop e' he')

/-- Where the loop goes to sleep, nothing on the heap is due. -/
theorem lt_of_nextSleep (h : nextSleep o config s now ≠ 0) : ∀ e ∈ s.heap, now < e.at_ := by
  intro e he
  unfold nextSleep at h
  cases hpop : pop o.layout HeapEntry.key s.heap with
  | none =>
    rw [pop_eq_none_iff.mp hpop] at he
    cases he
  | some out =>
    obtain ⟨head, rest⟩ := out
    have hle := at_le_of_pop hpop he
    simp only [hpop, Option.map_some] at h
    split at h
    · exact absurd rfl h
    · next hlate => exact lt_of_lt_of_le (Int.not_le.mp hlate) hle

/-- The sleep ends by the fire of a row that is covered. -/
theorem nextSleep_le (h : Covers hash limit s t) (hawaits : t.Awaits hash limit nf execAt) :
    now + nextSleep o config s now ≤ max now (max execAt nf) := by
  obtain ⟨e, he, -, hat⟩ := h nf execAt hawaits
  unfold nextSleep
  cases hpop : pop o.layout HeapEntry.key s.heap with
  | none =>
    rw [pop_eq_none_iff.mp hpop] at he
    cases he
  | some out =>
    obtain ⟨head, rest⟩ := out
    have hle := at_le_of_pop hpop he
    simp only [Option.map_some]
    split
    · simp
    · next hlate =>
      have hmin : min (head.at_ - now).toNat config.maxSleep ≤ (head.at_ - now).toNat :=
        Nat.min_le_left _ _
      omega

end

section

variable [Calendar] {cfg : FireConfig} {o : Outside} {config : SchedulerConfig}
  {limit : Option Int} {now : Int} {loose : Uuid → Prop} {s s' : Scheduler}
  {fires : List DeliveredFire} (hcfg : o.handling.Under cfg) (hs : Known cfg s)

include hcfg hs

theorem drainDue_drains (hsees : o.Sees config limit)
    (hcov : ∀ t ∈ s.memory.store.timers, ¬loose t.id → Covers o.hash limit s t)
    (hrun : (drainDue o config now).run s = (.ok fires, s')) :
    ∃ resolved, DrainsTo cfg o limit now loose s [] s fires resolved s' :=
  wp_ok (drainLoop_drains hcfg hsees hs (.start hs.keyed.ids hcov)) hrun

/-- Where nothing is known of the heap. -/
theorem drainDue_drains_blind (hrun : (drainDue o config now).run s = (.ok fires, s')) :
    ∃ resolved, DrainsTo cfg o none now (fun _ => True) s [] s fires resolved s' :=
  drainDue_drains hcfg hs (by intro _ _ _ _ hl; cases hl) (fun _ _ hloose => absurd trivial hloose) hrun

/-- **The heap is a hint**: what a drain does to the memory is what some turns
do without a heap. A timer has at most one turn, and was due when the drain
began. -/
theorem drainDue_turns (hrun : (drainDue o config now).run s = (.ok fires, s')) :
    ∃ turns : List Turn,
      (Turn.performAll o now turns).run s.memory = (.ok fires, s'.memory) ∧
      (turns.filterMap Turn.timer?).Nodup ∧
      ∀ id ∈ turns.filterMap Turn.timer?,
        ∃ t ∈ s.memory.store.timers, t.id = id ∧ t.DueAt o.hash now := by
  obtain ⟨resolved, -, turns, hturns, hdrained, -⟩ := drainDue_drains_blind hcfg hs hrun
  exact ⟨turns, hturns, hdrained.nodup, hdrained.due⟩

/-- **Never early**: a drain fires for slots that have come, and for timers
that were due when it began, jitter included. -/
theorem drainDue_due (hrun : (drainDue o config now).run s = (.ok fires, s')) :
    ∀ f ∈ fires, f.scheduledFor ≤ now ∧
      ∃ t ∈ s.memory.store.timers, t.id = f.timerId ∧ t.DueAt o.hash now := by
  obtain ⟨resolved, -, turns, -, hdrained, hfires⟩ := drainDue_drains_blind hcfg hs hrun
  intro f hf
  obtain ⟨hid, hslot⟩ := hfires f hf
  exact ⟨hslot, hdrained.due f.timerId hid⟩

/-- **What a drain leaves on the heap**: the rows are covered as before, but
for those that were handled and are due again already. -/
theorem drainDue_covers (hsees : o.Sees config limit)
    (hcov : ∀ t ∈ s.memory.store.timers, ¬loose t.id → Covers o.hash limit s t)
    (hrun : (drainDue o config now).run s = (.ok fires, s')) :
    ∀ t ∈ s'.memory.store.timers, ¬loose t.id → Covers o.hash limit s' t ∨
      ((∃ nf execAt, t.Awaits o.hash limit nf execAt ∧ execAt ≤ now) ∧
        ∃ t₀ ∈ s.memory.store.timers, t₀.id = t.id ∧ t₀.DueAt o.hash now) := by
  obtain ⟨resolved, -, turns, -, hdrained, -⟩ := drainDue_drains hcfg hs hsees hcov hrun
  intro t ht hloose
  by_cases hid : t.id ∈ resolved
  · by_cases hagain : t.id ∈ [] ++ turns.filterMap Turn.timer? ∧
        ∃ nf execAt, t.Awaits o.hash limit nf execAt ∧ execAt ≤ now
    · exact .inr ⟨hagain.2, hdrained.due t.id hagain.1⟩
    · refine .inl fun nf execAt hawaits => ?_
      rcases hdrained.settled t ht hid nf execAt hawaits with ⟨hmem, hexec⟩ | hnoted
      · exact absurd ⟨hmem, nf, execAt, hawaits, hexec⟩ hagain
      · obtain ⟨e, he, ⟨hfires, -⟩, hat⟩ := hnoted
        exact ⟨e, he, hfires, hat⟩
  · exact .inl (hdrained.waiting t ht hid hloose)

/-- **Nothing due is slept on**: where the loop goes to sleep after a drain,
each timer that is due then had its turn in the drain. -/
theorem drainDue_complete (loose : Uuid → Prop) (hsees : o.Sees config limit)
    (hnow : ∃ l ∈ limit, now ≤ l)
    (hcov : ∀ t ∈ s.memory.store.timers, ¬loose t.id → Covers o.hash limit s t)
    (hrun : (drainDue o config now).run s = (.ok fires, s'))
    (hsleep : nextSleep o config s' now ≠ 0) :
    ∃ turns : List Turn,
      (Turn.performAll o now turns).run s.memory = (.ok fires, s'.memory) ∧
      ∀ t ∈ s'.memory.store.timers, ¬loose t.id → t.DueAt o.hash now →
        t.id ∈ turns.filterMap Turn.timer? := by
  obtain ⟨resolved, -, turns, hturns, hdrained, -⟩ := drainDue_drains hcfg hs hsees hcov hrun
  refine ⟨turns, hturns, fun t ht hloose hdue => ?_⟩
  obtain ⟨nf, execAt, hnext, hexec, hnf, hexecNow⟩ := hdue.instant
  have hmax : max execAt nf ≤ now := max_le hexecNow hnf
  obtain ⟨l, hl, hle⟩ := hnow
  have hawaits : t.Awaits o.hash limit nf execAt :=
    ⟨hdue.enabled, hnext, hexec, .inl ⟨l, hl, hmax.trans hle⟩⟩
  have hlate := lt_of_nextSleep hsleep
  -- An entry for the row would be due.
  have hno : ∀ e ∈ s'.heap, ¬e.at_ ≤ max execAt nf :=
    fun e he hle => absurd (hle.trans hmax) (not_le.mpr (hlate e he))
  by_cases hid : t.id ∈ resolved
  · rcases hdrained.settled t ht hid nf execAt hawaits with ⟨hmem, -⟩ | ⟨e, he, -, hat⟩
    · exact hmem
    · exact absurd hat (hno e he)
  · obtain ⟨e, he, -, hat⟩ := hdrained.waiting t ht hid hloose nf execAt hawaits
    exact absurd hat (hno e he)

end

end Scheduler

/-! ### A timer that is behind -/

section Sample

attribute [local instance] Calendar.utcOnly

/-- The clock stands still, and nobody else commits. -/
def Outside.still (wallNow version : Int) : Outside where
  handling := .sample wallNow
  hash _ _ := 0
  wall _ := wallNow
  mono _ := wallNow
  dataVersion _ := some version

/-- The timer is made and on the heap, once too often. -/
def Scheduler.second : Scheduler where
  memory := .made secondMade
  heap := [.fire (7 * NS) Timer.second.id, .fire NS Timer.second.id, .fire NS Timer.second.id]
  booted := true

theorem under_still (now version : Int) : (Outside.still now version).handling.Under .sample := by
  intro c hc
  exact absurd hc (by intro h; cases h)

theorem known_second : Scheduler.Known .sample Scheduler.second :=
  ⟨_, ⟨_, _, rfl, run_made secondMade⟩, rfl, rfl⟩

theorem run_second : ∃ fires s',
    (Scheduler.drainDue (.still (5 * NS) 0) {} (5 * NS)).run .second = (.ok fires, s') ∧
      fires.map (·.scheduledFor) = [5 * NS] ∧
      Scheduler.nextSleep (.still (5 * NS) 0) {} s' (5 * NS) ≠ 0 := by
  have hrun : (((Scheduler.drainDue (.still (5 * NS) 0) {} (5 * NS)).run .second).1.toOption.map
      (·.map (·.scheduledFor)) = some [5 * NS]) := by decide +kernel
  obtain ⟨fires, hrun, hfires⟩ := run_of_map hrun
  exact ⟨fires, _, hrun, hfires, by decide +kernel⟩

theorem drainDue_turns_second : ∃ fires s',
    (Scheduler.drainDue (.still (5 * NS) 0) {} (5 * NS)).run .second = (.ok fires, s') ∧
    ∃ turns : List Turn,
      (Turn.performAll (.still (5 * NS) 0) (5 * NS) turns).run Scheduler.second.memory =
        (.ok fires, s'.memory) ∧
      (turns.filterMap Turn.timer?).Nodup ∧
      ∀ id ∈ turns.filterMap Turn.timer?, ∃ t ∈ Scheduler.second.memory.store.timers,
        t.id = id ∧ t.DueAt (Outside.still (5 * NS) 0).hash (5 * NS) := by
  obtain ⟨fires, s', hrun, -⟩ := run_second
  exact ⟨fires, s', hrun, Scheduler.drainDue_turns (under_still _ _) known_second hrun⟩

theorem drainDue_due_second : ∃ fires s',
    (Scheduler.drainDue (.still (5 * NS) 0) {} (5 * NS)).run .second = (.ok fires, s') ∧
    fires.map (·.scheduledFor) = [5 * NS] ∧ ∀ f ∈ fires, f.scheduledFor ≤ 5 * NS ∧
      ∃ t ∈ Scheduler.second.memory.store.timers, t.id = f.timerId ∧
        t.DueAt (Outside.still (5 * NS) 0).hash (5 * NS) := by
  obtain ⟨fires, s', hrun, hfires, -⟩ := run_second
  exact ⟨fires, s', hrun, hfires, Scheduler.drainDue_due (under_still _ _) known_second hrun⟩

/-- The horizon of the clock that stands still. -/
theorem sees_still :
    (Outside.still (5 * NS) 0).Sees {} (some ((5 + 86400) * NS)) := by
  intro i d hd l hl
  obtain rfl : 86400 * NS = d := Option.some.inj hd
  obtain rfl : (5 + 86400) * NS = l := Option.some.inj hl
  show ((5 + 86400) * NS : Int) ≤ 5 * NS + 86400 * NS
  decide

/-- The heap has the fire of the timer. -/
theorem covers_second (t : Timer) (ht : t ∈ Scheduler.second.memory.store.timers) :
    Scheduler.Covers (Outside.still (5 * NS) 0).hash (some ((5 + 86400) * NS))
      .second t := by
  have honly : Scheduler.second.memory.store.timers = [Timer.second] := by decide +kernel
  obtain rfl := List.mem_singleton.mp (honly ▸ ht)
  intro nf execAt hawaits
  obtain rfl : NS = nf := Option.some.inj hawaits.next
  exact ⟨.fire NS Timer.second.id, by decide, ⟨NS, rfl⟩, le_max_right _ _⟩

theorem drainDue_complete_second : ∃ fires s',
    (Scheduler.drainDue (.still (5 * NS) 0) {} (5 * NS)).run .second = (.ok fires, s') ∧
    ∃ turns : List Turn,
      (Turn.performAll (.still (5 * NS) 0) (5 * NS) turns).run Scheduler.second.memory =
        (.ok fires, s'.memory) ∧
      ∀ t ∈ s'.memory.store.timers, ¬False → t.DueAt (Outside.still (5 * NS) 0).hash (5 * NS) →
        t.id ∈ turns.filterMap Turn.timer? := by
  obtain ⟨fires, s', hrun, -, hsleep⟩ := run_second
  exact ⟨fires, s', hrun, Scheduler.drainDue_complete (under_still _ _) known_second
    (fun _ => False) sees_still ⟨_, rfl, by decide⟩
    (fun t ht _ => covers_second t ht) hrun hsleep⟩

end Sample

end Bellman
