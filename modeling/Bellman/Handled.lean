/-
Bellman/Handled.lean

What the steps of the handling do to the row of the timer, and to the claims
of its slots.

Every step writes the row at most once or twice, and where it leaves it is
said by two values: the schedule with the runs counted, and the last fire.

    anchorLastFired     the schedule as it is, the anchor
    markFired           one run more, the slot
    advancePastNow      the schedule as it is, where the walk stopped
    ensureAdvancedPast  the schedule as it is, where the walk from the slot stopped
    deliverOne          a finished slot: as `ensureAdvancedPast`
                        any other slot:  as `markFired`

A delivery touches the claims of no other slot of the timer, but for one
case: a new claim under `replace` finishes the claims that are pending.

Main result: what a delivery does, for every slot that the row has come to
(`deliverOne_spec`).
-/
import Bellman.Backlog
import Bellman.Search
import Bellman.Lib.Rows

namespace Bellman

open ProgramLogic Prog ReplyM

/-! ### Timers by their ids -/

/-- The constraints of the schema, those of the table of timers among them. -/
structure Store.Keyed (s : Store) : Prop where
  wf : s.Wf
  ids : (s.timers.map (·.id)).Nodup

theorem Store.putTimer_ids (s : Store) (t : Timer) :
    (s.putTimer t).timers.map (·.id) = s.timers.map (·.id) := by
  unfold Store.putTimer
  rw [List.map_map]
  apply List.map_congr_left
  intro u _
  show (if u.id = t.id then t else u).id = u.id
  split
  · next h => exact h.symm
  · rfl

theorem Store.getTimer_putTimer {s : Store} {t t' : Timer} (h : s.getTimer t.id = some t)
    (hid : t'.id = t.id) : (s.putTimer t').getTimer t.id = some t' := by
  have hkey : ∀ u : Timer, (if u.id = t'.id then t' else u).id = u.id := by
    intro u
    split
    · next hu => exact hu.symm
    · rfl
  show (s.timers.map fun u => if u.id = t'.id then t' else u).find? (·.id == t.id) = _
  rw [Rows.find?_map hkey]
  show (s.getTimer t.id).map _ = _
  rw [h, Option.map_some, if_pos hid.symm]

/-- With distinct ids a row of the table is the one that its id finds. -/
theorem Store.Keyed.getTimer_of_mem {s : Store} (hs : s.Keyed) {t : Timer} (ht : t ∈ s.timers) :
    s.getTimer t.id = some t :=
  Rows.find?_of_mem Timer.id hs.ids ht

section Keyed

variable [Calendar]

theorem createTimerTx_ids {new : NewTimer} {now : Int} {s : Store}
    (hs : (s.timers.map (·.id)).Nodup) :
    (((createTimerTx new now).run s).2.timers.map (·.id)).Nodup := by
  let P : Store → Prop := fun s' => (s'.timers.map (·.id)).Nodup
  have hdraw : Within (fun s s' : Store => s'.timers = s.timers) (orNewUuid new.id) := by
    cases new.id with
    | some id => exact fun s => rfl
    | none => exact within_modifyGet fun s => rfl
  have hwp : wp (createTimerTx new now) (fun _ => P) (fun _ => P) s := by
    unfold createTimerTx
    cases new.occurrence.kind.validate with
    | error m => exact hs
    | ok _ =>
      rw [wp_bind]
      refine wp_mono (hdraw s) (fun id s₁ hs₁ => ?_) fun _ _ hs₁ => by
        show (_ : List Uuid).Nodup
        rwa [hs₁]
      rw [wp_bind, wp_orPanic]
      refine ⟨fun found _ => ?_, fun _ _ => by show (_ : List Uuid).Nodup; rwa [hs₁]⟩
      obtain ⟨fire, occ⟩ := found
      rw [wp_bind, wp_get]
      split
      · show (_ : List Uuid).Nodup
        rwa [hs₁]
      · next hfree =>
        have hnot : ∀ u ∈ s₁.timers, u.id ≠ id :=
          (Rows.find?_eq_none Timer.id).mp (Option.not_isSome_iff_eq_none.mp hfree)
        simp only [P, wp_bind, wp_set, wp_pure, List.map_append, List.nodup_append]
        refine ⟨by rwa [hs₁], List.nodup_singleton _, ?_⟩
        rintro a ha b hb rfl
        obtain ⟨u, hu, rfl⟩ := List.mem_map.mp ha
        exact hnot u hu (List.mem_singleton.mp hb)
  exact run_snd hwp

theorem updateTimerTx_ids (update : TimerUpdate) (now : Int) (s : Store) :
    ((updateTimerTx update now).run s).2.timers.map (·.id) = s.timers.map (·.id) := by
  have hwp : wp (updateTimerTx update now)
      (fun _ s' => s'.timers.map (·.id) = s.timers.map (·.id))
      (fun _ s' => s'.timers.map (·.id) = s.timers.map (·.id)) s := by
    unfold updateTimerTx
    rw [wp_bind, wp_get]
    split
    · rfl
    split
    · rfl
    split
    · rfl
    rw [wp_bind, wp_orPanic]
    exact ⟨fun _ _ => Store.putTimer_ids s _, fun _ _ => rfl⟩
  exact run_snd hwp

/-- A commit keeps the ids of the timers distinct. -/
theorem Commit.ids_nodup {cfg : FireConfig} {c : Commit} {r : ReplyState}
    (hs : (r.store.timers.map (·.id)).Nodup) :
    ((c.after cfg r).store.timers.map (·.id)).Nodup := by
  cases hc : c.searches r.store with
  | none => exact ((Commit.fewerTimers hc).map _).nodup hs
  | some occ =>
    cases c with
    | createTimer new now =>
      show (((Commit.createTimer new now).prog cfg).run r).2.store.timers.map (·.id) |>.Nodup
      unfold prog
      rw [store_run_discard]
      exact createTimerTx_ids hs
    | updateTimer update now =>
      show (((Commit.updateTimer update now).prog cfg).run r).2.store.timers.map (·.id) |>.Nodup
      unfold prog
      rw [store_run_discard, updateTimerTx_ids]
      exact hs
    | _ => cases hc

theorem keyed_of_run {cfg : FireConfig} {tr : List (System.Event ReplyState Commit)}
    {r : ReplyState} (h : (ledger cfg).Run {} tr r) : r.store.Keyed := by
  refine ⟨wf_of_reached h, ?_⟩
  refine h.invariant (G := fun _ => True) (I := fun r => (r.store.timers.map (·.id)).Nodup)
    (fun _ _ => trivial) List.nodup_nil ?_
  rintro r c _ rfl _ hids
  exact Commit.ids_nodup hids

end Keyed

/-! ### Where a row stands -/

section Row

variable [Calendar]

/-- The row `t'` is what `t` has become: its last fire is `a`, its schedule
is `occ`, and its next fire is the one after `a`. -/
structure Timer.Stands (t : Timer) (occ : Occurrence) (a : Int) (t' : Timer) : Prop where
  id : t'.id = t.id
  overlap : t'.overlap = t.overlap
  prune : t'.isSystemPrune = t.isSystemPrune
  occurrence : t'.occurrence = occ
  lastFired : t'.lastFired = some a
  nextFireUtc : t'.nextFireUtc = occ.firing a

theorem Timer.Stands.trans {t t' t'' : Timer} {occ occ' : Occurrence} {a a' : Int}
    (h : t.Stands occ a t') (h' : t'.Stands occ' a' t'') : t.Stands occ' a' t'' where
  id := h'.id.trans h.id
  overlap := h'.overlap.trans h.overlap
  prune := h'.prune.trans h.prune
  occurrence := h'.occurrence
  lastFired := h'.lastFired
  nextFireUtc := h'.nextFireUtc

/-- Only the row has changed. -/
structure Moves (t : Timer) (occ : Occurrence) (a : Int) (s s' : Store) : Prop where
  keyed : s'.Keyed
  runs : s'.runs = s.runs
  row : ∃ t', s'.getTimer t.id = some t' ∧ t.Stands occ a t'

variable {h : Handling} {r : ReplyState} {t : Timer} {a : Int} {α : Type}

omit [Calendar] in
@[simp] theorem wp_onRows {Q : α → ReplyState → Prop} {E : SchedulerError → ReplyState → Prop}
    (m : StoreM α) :
    wp (onRows m) Q E r =
      wp m (fun a s => Q a { r with store := s }) (fun e s => E (.abort e) { r with store := s })
        r.store := by
  unfold onRows
  rw [wp_mapError, wp_onStore]

omit [Calendar] in
theorem wp_orAbort {Q : α → ReplyState → Prop} {x : Except Panic α} :
    wp (orAbort x) Q (fun _ _ => True) r ↔ ∀ a, x = .ok a → Q a r := by
  unfold orAbort
  rw [wp_onRows, wp_orPanic]
  exact ⟨fun h => h.1, fun h => ⟨h, fun _ _ => trivial⟩⟩

omit [Calendar] in
@[simp] theorem wp_getTimer {Q : Option Timer → ReplyState → Prop}
    {E : SchedulerError → ReplyState → Prop} (id : Uuid) :
    wp (getTimer id) Q E r = Q (r.store.getTimer id) r := rfl

omit [Calendar] in
theorem applyPatch_fires {next : Timer} {occ : Option Occurrence}
    (h : applyPatch t { lastFired := some (some a), occurrence := occ } = .ok next) :
    next = { t with lastFired := some a, occurrence := occ.getD t.occurrence } := by
  unfold applyPatch at h
  cases occ with
  | none => exact (Except.ok.inj h).symm
  | some occ =>
    dsimp only at h
    split at h
    · cases h
    · exact (Except.ok.inj h).symm

omit [Calendar] in
theorem Store.Keyed.putTimer {s : Store} (hs : s.Keyed) (t : Timer) : (s.putTimer t).Keyed where
  wf := hs.wf.congr rfl rfl rfl
  ids := by
    rw [Store.putTimer_ids]
    exact hs.ids

/-- The last fire of the row is set, and its schedule if the patch has one. -/
theorem updateRow_spec (occ : Option Occurrence) (hs : r.store.Keyed)
    (hget : r.store.getTimer t.id = some t) (hskips : (occ.getD t.occurrence).pendingSkips = 0) :
    wp (updateRow h t { lastFired := some (some a), occurrence := occ })
      (fun _ r' => Moves t (occ.getD t.occurrence) a r.store r'.store) (fun _ _ => True) r := by
  unfold updateRow
  rw [wp_bind, wp_onRows, wp_atomically]
  unfold updateTimerTx
  rw [wp_bind, wp_get, hget]
  dsimp only
  split
  · trivial
  cases hpatch : applyPatch t { lastFired := some (some a), occurrence := occ } with
  | error e => trivial
  | ok next =>
    obtain rfl := applyPatch_fires hpatch
    dsimp only
    rw [wp_bind, wp_orPanic]
    refine ⟨fun found hfound => ?_, fun _ _ => trivial⟩
    obtain ⟨fire, occ'⟩ := found
    have hnext := (computeNextFire_finds.mp hfound).2
    obtain rfl := Occurrence.nextFire_plain hskips hnext
    rw [wp_bind, wp_set, wp_pure]
    exact
      { keyed := hs.putTimer _
        runs := rfl
        row := ⟨_, Store.getTimer_putTimer hget rfl, rfl, rfl, rfl, rfl, rfl,
          (Occurrence.firing_of_ok hnext).symm⟩ }

omit [Calendar] in
theorem requireTimer_spec {Q : Timer → ReplyState → Prop}
    (hget : r.store.getTimer t.id = some t) (hQ : Q t r) :
    wp (requireTimer t.id) Q (fun _ _ => True) r := by
  unfold requireTimer
  rw [wp_bind, wp_getTimer, hget]
  exact hQ

/-- `anchor_last_fired`: an instant is passed over. -/
theorem anchorLastFired_spec (hs : r.store.Keyed) (hget : r.store.getTimer t.id = some t)
    (hskips : t.occurrence.pendingSkips = 0) :
    wp (anchorLastFired h t.id a) (fun _ r' => Moves t t.occurrence a r.store r'.store)
      (fun _ _ => True) r := by
  unfold anchorLastFired
  rw [wp_bind]
  exact requireTimer_spec hget (updateRow_spec none hs hget hskips)

/-- `mark_fired`: one run more. -/
theorem markFired_spec (hs : r.store.Keyed) (hget : r.store.getTimer t.id = some t)
    (hskips : t.occurrence.pendingSkips = 0) :
    wp (markFired h t.id a) (fun _ r' => Moves t t.occurrence.recordRun a r.store r'.store)
      (fun _ _ => True) r := by
  unfold markFired
  rw [wp_bind]
  exact requireTimer_spec hget (updateRow_spec (some _) hs hget hskips)

/-! ### Past the backlog -/

/-- Where `advance_past_now` stops. -/
def Timer.advanced (t : Timer) (now : Int) : Int :=
  (((t.occurrence.missed now (t.cursor now)).take MAX_ADVANCE).getLast?.or t.lastFired).getD now

/-- A row that has fired stops on its backlog. -/
theorem Timer.advanced_of_lastFired {now : Int} (hlast : t.lastFired = some a) :
    t.advanced now = ((t.occurrence.missed now a).take MAX_ADVANCE).getLastD a := by
  unfold Timer.advanced Timer.cursor
  rw [hlast, Option.getD_some, List.getLastD_eq_getLast?]
  cases ((t.occurrence.missed now a).take MAX_ADVANCE).getLast? <;> rfl

theorem advancePastNow_spec {now : Int} (hs : r.store.Keyed)
    (hget : r.store.getTimer t.id = some t) (hskips : t.occurrence.pendingSkips = 0)
    (hj : t.occurrence.JumpsForward) :
    wp (advancePastNow h t.id now)
      (fun _ r' => Moves t t.occurrence (t.advanced now) r.store r'.store) (fun _ _ => True) r := by
  unfold advancePastNow
  rw [wp_bind]
  refine requireTimer_spec hget ?_
  rw [wp_bind, wp_orAbort]
  intro _ _
  rw [wp_bind, wp_orAbort]
  rintro ⟨last, occ⟩ hwalk
  obtain ⟨rfl, rfl⟩ := Occurrence.advanceWalk_eq hj hskips hwalk
  exact updateRow_spec (some _) hs hget hskips

/-- After it the row is due again exactly when the cap cut the walk short. -/
theorem Timer.firing_advanced_gt {now : Int} (hj : t.occurrence.JumpsForward) :
    (∀ u, t.occurrence.firing (t.advanced now) = some u → now < u) ↔
      (t.occurrence.missed now (t.cursor now)).length ≤ MAX_ADVANCE := by
  have hlast := Occurrence.firing_last_gt hj now now MAX_ADVANCE (t.cursor now)
  rw [List.length_take, Nat.le_min] at hlast
  rw [and_iff_left (Nat.le_refl _)] at hlast
  rw [← hlast]
  cases hwalk : (t.occurrence.missed now (t.cursor now)).take MAX_ADVANCE with
  | nil =>
    -- Nothing to pass over: there is no instant from the cursor up to now.
    have hnil : t.occurrence.missed now (t.cursor now) = [] := by
      rcases List.take_eq_nil_iff.mp hwalk with hzero | hnil
      · cases hzero
      · exact hnil
    have hclear := Walk.step_eq_none.mp
      ((Walk.backlog_eq_nil (Occurrence.firing_climbs hj)).mp hnil)
    unfold Timer.advanced
    rw [hwalk, List.getLast?_nil, Option.none_or]
    cases hlf : t.lastFired with
    | some lf =>
      have hcursor : t.cursor now = lf := by rw [Timer.cursor, hlf, Option.getD_some]
      rw [hcursor]
      rfl
    | none => exact ⟨fun _ => hclear, fun _ _ hu => Occurrence.firing_climbs hj hu⟩
  | cons u us =>
    unfold Timer.advanced
    rw [hwalk, List.getLast?_cons, List.getLastD_cons, List.getLastD_eq_getLast?]
    rfl

theorem Moves.trans {t' : Timer} {occ occ' : Occurrence} {a a' : Int} {s s' s'' : Store}
    (hm : Moves t occ a s s') (ht : t.Stands occ a t') (hm' : Moves t' occ' a' s' s'') :
    Moves t occ' a' s s'' where
  keyed := hm'.keyed
  runs := hm'.runs.trans hm.runs
  row := by
    obtain ⟨t'', hget, hstands⟩ := hm'.row
    rw [ht.id] at hget
    exact ⟨t'', hget, ht.trans hstands⟩

/-- `ensure_advanced_past`: the walk goes on from the slot. -/
theorem ensureAdvancedPast_spec {wallNow : Int} (hs : r.store.Keyed)
    (hget : r.store.getTimer t.id = some t) (hskips : t.occurrence.pendingSkips = 0)
    (hj : t.occurrence.JumpsForward) (hdue : t.nextFireUtc.all (· ≤ a) = true) :
    wp (ensureAdvancedPast h t.id a wallNow)
      (fun _ r' => Moves t t.occurrence
        (((t.occurrence.missed wallNow a).take MAX_ADVANCE).getLastD a) r.store r'.store)
      (fun _ _ => True) r := by
  have hnot : ¬t.nextFireUtc.any (a < ·) = true := by
    cases hnf : t.nextFireUtc with
    | none => simp
    | some nf =>
      have hle : nf ≤ a := by simpa [hnf] using hdue
      simpa using hle
  unfold ensureAdvancedPast
  rw [wp_bind, wp_getTimer, hget]
  dsimp only
  rw [if_neg hnot, wp_bind]
  refine wp_mono (updateRow_spec (some t.occurrence) hs hget hskips) (fun _ r₁ hm => ?_)
    fun _ _ _ => trivial
  obtain ⟨t', hget', ht⟩ := hm.row
  rw [wp_bind, wp_getTimer, hget']
  dsimp only
  have hocc : t'.occurrence = t.occurrence := ht.occurrence
  split
  · -- The instant after the slot is due as well.
    rw [← ht.id] at hget' ⊢
    refine wp_mono (advancePastNow_spec hm.keyed hget' (hocc ▸ hskips) (hocc ▸ hj))
      (fun _ r₂ hm' => ?_) fun _ _ _ => trivial
    rw [Timer.advanced_of_lastFired ht.lastFired, hocc] at hm'
    exact hm.trans ht hm'
  · next hclear =>
    have hnil : t.occurrence.missed wallNow a = [] := by
      apply Walk.backlog_nil
      rw [Walk.step_eq_none]
      intro u hu
      rw [ht.nextFireUtc] at hclear
      have hu' : t.occurrence.firing a = some u := hu
      simpa [hu'] using hclear
    rw [hnil]
    exact hm

end Row

/-! ### The claims of the slots -/

/-- The status of the claim of a slot. -/
def Store.slotStatus (s : Store) (timerId : Uuid) (slot : Int) : Option ClaimStatus :=
  (s.getClaimFor timerId slot).map (·.status)

/-- What a claim of another slot is after a new claim has displaced it. -/
def displaced (replaces : Bool) : Option ClaimStatus → Option ClaimStatus
  | some .pending => if replaces then some .finished else some .pending
  | status => status

/-- A new claim displaces the pending ones. -/
def Handling.replaces (h : Handling) (t : Timer) : Bool :=
  h.engine.isSome && decide (t.overlap = .replace)

section Claims

variable {s : Store} {timerId : Uuid} {slot : Int}

theorem slotStatus_of_runs {s' : Store} (h : s'.runs = s.runs) :
    s'.slotStatus timerId slot = s.slotStatus timerId slot := by
  unfold Store.slotStatus Store.getClaimFor
  rw [h]

/-- Statements that keep keys change the status of a slot in its row only. -/
theorem slotStatus_map {f : RunClaim → RunClaim} (hf : ∀ r, (f r).key = r.key) :
    ({ s with runs := s.runs.map f } : Store).slotStatus timerId slot =
      (s.getClaimFor timerId slot).map fun r => (f r).status := by
  have hslot : (fun r : RunClaim => (f r).timerId == timerId && (f r).scheduledFor == slot) =
      fun r => r.timerId == timerId && r.scheduledFor == slot := by
    funext r
    rw [RunClaim.timerId_of_key (hf r), RunClaim.scheduledFor_of_key (hf r)]
  unfold Store.slotStatus Store.getClaimFor
  rw [List.find?_map, Option.map_map]
  exact congrArg (fun p => (s.runs.find? p).map fun r => (f r).status) hslot

theorem getClaimFor_mem {r : RunClaim} (h : s.getClaimFor timerId slot = some r) :
    r ∈ s.runs ∧ r.timerId = timerId ∧ r.scheduledFor = slot := by
  have hr := List.find?_some h
  simp only [Bool.and_eq_true, beq_iff_eq] at hr
  exact ⟨List.mem_of_find?_eq_some h, hr.1, hr.2⟩

/-- Closing a claim is nothing to the other slots. -/
theorem slotStatus_finish (hs : s.Wf) {claim : RunClaim} (hc : claim ∈ s.runs)
    (hne : slot ≠ claim.scheduledFor) (outcome : RunOutcome) (reason : Option String)
    (now : Int) :
    ({ s with runs := s.runs.map (finishRow claim.runId outcome reason now) } : Store).slotStatus
      timerId slot = s.slotStatus timerId slot := by
  rw [slotStatus_map (key_finishRow claim.runId outcome reason now)]
  unfold Store.slotStatus
  cases hget : s.getClaimFor timerId slot with
  | none => rfl
  | some r =>
    obtain ⟨hr, -, hslot⟩ := getClaimFor_mem hget
    have hrun : r.runId ≠ claim.runId := by
      intro he
      obtain rfl := hs.eq_of_runId hr hc he
      exact hne hslot.symm
    simp [finishRow, hrun]

/-- A new claim is nothing to the other slots, but that it displaces. -/
theorem slotStatus_fire {f : Firing} {u : Uuid} (hu : ∀ r ∈ s.runs, r.runId ≠ u) {older : Nat}
    {c : RunClaim} (hc : c.scheduledFor = f.scheduledFor) (hne : slot ≠ f.scheduledFor)
    {s' : Store} (hruns : s'.runs = (s.runs ++ [c]).map (dispose f.timer u older f.utc)) :
    s'.slotStatus f.timer.id slot =
      displaced (decide (f.timer.overlap = .replace)) (s.slotStatus f.timer.id slot) := by
  have happ : ({ s with runs := s.runs ++ [c] } : Store).getClaimFor f.timer.id slot =
      s.getClaimFor f.timer.id slot := by
    unfold Store.getClaimFor
    rw [List.find?_append]
    have hnone : [c].find? (fun r => r.timerId == f.timer.id && r.scheduledFor == slot) = none := by
      simp [hc, hne.symm]
    rw [hnone, Option.or_none]
  have hmap := @slotStatus_map { s with runs := s.runs ++ [c] } f.timer.id slot _
    (key_dispose f.timer u older f.utc)
  rw [happ] at hmap
  rw [slotStatus_of_runs (s := { s with runs := (s.runs ++ [c]).map _ }) hruns, hmap]
  unfold Store.slotStatus
  cases hget : s.getClaimFor f.timer.id slot with
  | none => rfl
  | some r =>
    obtain ⟨hr, htimer, -⟩ := getClaimFor_mem hget
    have hrun := hu r hr
    show some (dispose f.timer u older f.utc r).status = displaced _ (some r.status)
    unfold dispose
    by_cases hrep : f.timer.overlap = .replace
    · rw [if_pos hrep, replaceRow, if_pos ⟨htimer, hrun⟩, decide_eq_true hrep]
      cases hst : r.status with
      | pending => rfl
      | active => rfl
      | finished => exact congrArg some hst
    · have hkept : ∀ st : Option ClaimStatus, displaced false st = st := by
        intro st
        rcases st with - | ⟨- | - | -⟩ <;> rfl
      rw [if_neg hrep, decide_eq_false hrep, hkept]
      split
      · rfl
      · rw [finishRow, if_neg (by simp [hrun])]

theorem displaced_false (status : Option ClaimStatus) : displaced false status = status := by
  rcases status with - | ⟨- | - | -⟩ <;> rfl

end Claims

/-! ### A delivery -/

/-- The row is as it was, and so are the claims of the other slots, but for
those that are displaced. -/
structure Acts (t : Timer) (slot : Int) (replaced : Bool) (s s' : Store) : Prop where
  keyed : s'.Keyed
  row : s'.getTimer t.id = s.getTimer t.id
  others : ∀ y, y ≠ slot → s'.slotStatus t.id y = displaced replaced (s.slotStatus t.id y)

/-- One run more of the row is counted, and its last fire is the slot. -/
structure Delivers [Calendar] (t : Timer) (slot : Int) (replaced : Bool) (s s' : Store) :
    Prop where
  keyed : s'.Keyed
  row : ∃ t', s'.getTimer t.id = some t' ∧ t.Stands t.occurrence.recordRun slot t'
  others : ∀ y, y ≠ slot → s'.slotStatus t.id y = displaced replaced (s.slotStatus t.id y)

section Delivery

variable {h : Handling} {r : ReplyState} {t : Timer} {slot : Int} {kind : FireKind}
  {replaced : Bool}

theorem Acts.refl {s : Store} (hs : s.Keyed) : Acts t slot false s s :=
  ⟨hs, rfl, fun _ _ => (displaced_false _).symm⟩

theorem Acts.trans {s s' s'' : Store} (ha : Acts t slot replaced s s')
    (ha' : Acts t slot false s' s'') : Acts t slot replaced s s'' where
  keyed := ha'.keyed
  row := ha'.row.trans ha.row
  others y hy := by rw [ha'.others y hy, displaced_false, ha.others y hy]

theorem Acts.of_same {s s' : Store} (hwf : s'.Wf) (hs : s.Keyed) (htimers : s'.timers = s.timers)
    (hruns : s'.runs = s.runs) : Acts t slot false s s' where
  keyed := ⟨hwf, by rw [htimers]; exact hs.ids⟩
  row := by rw [Store.getTimer, htimers, Store.getTimer]
  others y _ := by rw [displaced_false, slotStatus_of_runs hruns]

/-- The closing of the claim of the slot. -/
theorem finishRun_acts {claim : RunClaim} (hs : r.store.Keyed) (hc : claim ∈ r.store.runs)
    (hslot : claim.scheduledFor = slot) (outcome : RunOutcome) (reason : Option String)
    (now : Int) :
    wp (onRows (atomically (finishRun claim.runId outcome reason now)))
      (fun _ r' => Acts t slot false r.store r'.store) (fun _ _ => True) r := by
  rw [wp_onRows, wp_atomically]
  refine wp_mono (finishRun_spec hs.wf _ outcome reason now) (fun _ s' hs' => ?_)
    fun _ _ _ => trivial
  subst hs'
  exact
    { keyed := ⟨hs.wf.finish _ outcome reason now, hs.ids⟩
      row := rfl
      others := fun y hy => by
        rw [displaced_false]
        exact slotStatus_finish hs.wf hc (hslot ▸ hy) outcome reason now }

theorem actOn_spec {env : Surroundings} {claim : RunClaim} (hs : r.store.Keyed)
    (hc : claim ∈ r.store.runs) (hslot : claim.scheduledFor = slot) :
    wp (actOn h env claim) (fun _ r' => Acts t slot false r.store r'.store) (fun _ _ => True)
      r := by
  unfold actOn
  split
  · exact .refl hs
  cases env.onFire with
  | ok _ =>
    dsimp only
    split
    · rw [wp_bind]
      exact finishRun_acts hs hc hslot _ _ _
    · exact .refl hs
  | error e =>
    dsimp only
    split
    · rw [wp_bind]
      exact finishRun_acts hs hc hslot _ _ _
    · exact .refl hs

/-- The pruner takes out one-shots, and never the internal timer. -/
theorem pruneOneshot_acts {candidate : Timer} {now : Int} {ackGrace : Nat} {s : Store}
    (hs : s.Keyed) (hcand : candidate.id = t.id → candidate.isSystemPrune = true) :
    wp (pruneOneshot now ackGrace candidate) (fun _ s' => Acts t slot false s s')
      (fun _ s' => Acts t slot false s s') s := by
  unfold pruneOneshot
  split
  · exact .refl hs
  next hnot =>
  rw [wp_bind, wp_get, wp_bind, wp_orPanic]
  refine ⟨fun terminal _ => ?_, fun _ _ => .refl hs⟩
  split
  · exact .refl hs
  have hs₁ : (s.forgotten candidate.id).Keyed :=
    ⟨hs.wf.congr rfl rfl rfl, (List.filter_sublist.map _).nodup hs.ids⟩
  have hrow : (s.forgotten candidate.id).getTimer t.id = s.getTimer t.id := by
    rw [Store.getTimer_forgotten]
    exact if_neg fun he => hnot (hcand he.symm)
  have hacts : ∀ s' : Store, s'.Wf → s'.timers = (s.forgotten candidate.id).timers →
      s'.runs = s.runs → Acts t slot false s s' := by
    intro s' hwf htimers hruns
    refine ⟨⟨hwf, by rw [htimers]; exact hs₁.ids⟩, ?_, fun y _ => ?_⟩
    · rw [← hrow]
      show s'.timers.find? _ = (s.forgotten candidate.id).timers.find? _
      rw [htimers]
    · rw [displaced_false, slotStatus_of_runs hruns]
  rw [wp_bind, wp_deleteTimer]
  split
  · have hs₂ : Store.Wf { s with
        timers := s.timers.filter fun t => t.id ≠ candidate.id
        timerOwners := s.timerOwners.filter fun o => o.1 ≠ candidate.id } :=
      hs.wf.congr rfl rfl rfl
    rw [wp_bind, wp_clearTimerOwner, wp_bind, wp_emit hs₂, wp_pure]
    exact hacts _ (hs₂.emit _ rfl) rfl rfl
  · rw [wp_pure]
    exact hacts _ (hs.wf.congr rfl rfl rfl) rfl rfl

theorem pruneAll_acts {now : Int} {ackGrace : Nat} (timers : List Timer) {s : Store}
    (hs : s.Keyed) (hcand : ∀ c ∈ timers, c.id = t.id → c.isSystemPrune = true) :
    wp (pruneAll now ackGrace timers) (fun _ s' => Acts t slot false s s')
      (fun _ s' => Acts t slot false s s') s := by
  induction timers generalizing s with
  | nil => exact .refl hs
  | cons candidate timers ih =>
    obtain ⟨hfirst, hrest⟩ := List.forall_mem_cons.mp hcand
    unfold pruneAll
    rw [wp_bind]
    refine wp_mono (pruneOneshot_acts hs hfirst) (fun pruned s₁ h₁ => ?_) fun _ _ h₁ => h₁
    rw [wp_bind]
    exact wp_mono (ih h₁.keyed hrest) (fun _ _ h₂ => h₁.trans h₂) fun _ _ h₂ => h₁.trans h₂

theorem prunePass_spec (slot : Int) {env : Surroundings} (hs : r.store.Keyed)
    (hget : r.store.getTimer t.id = some t) :
    wp (prunePass h env t) (fun _ r' => Acts t slot false r.store r'.store) (fun _ _ => True)
      r := by
  unfold prunePass
  split
  · next hprune _ =>
    rw [wp_bind, wp_onRows, wp_attempt]
    unfold pruneOneshots
    rw [wp_bind, wp_get]
    refine wp_mono (pruneAll_acts _ hs fun c hc hid => ?_) (fun _ _ h₁ => h₁)
      fun _ _ h₁ => h₁
    -- The internal timer is the only row with its id.
    have hmem : c ∈ r.store.timers := (List.perm_insertionSort _ _).mem_iff.mp hc
    have hrow := hs.getTimer_of_mem hmem
    rw [hid, hget] at hrow
    obtain rfl := Option.some.inj hrow
    exact hprune
  · exact .refl hs

/-- The countdown of a new run is set up, or the clock overflows. -/
theorem registerFire_spec {cfg : ReplyConfig} {run : Uuid} {nowWall monoNow : Int} :
    wp (registerFire cfg run nowWall monoNow) (fun _ r' => r'.store = r.store)
      (fun e _ => ∃ p, e = .panic p) r := by
  unfold registerFire
  simp only [wp_bind, wp_modify, wp_onStore, wp_orPanic]
  refine ⟨fun _ _ => ⟨fun _ _ => ?_, fun p _ => ⟨p, rfl⟩⟩, fun p _ => ⟨p, rfl⟩⟩
  rfl

/-- A fire that reports a failure other than a panic has left the tables
alone: what follows the transaction fails only by a panic. -/
theorem projectFire_spec {cfg : FireConfig} {f : Firing} (hs : r.store.Wf) :
    wp (projectFire cfg f)
      (fun c r' => ∃ f', f'.timer = f.timer ∧ f'.scheduledFor = f.scheduledFor ∧
        Fired f' c r.store r'.store)
      (fun e r' => (∃ p, e = .panic p) ∨ r'.store = r.store) r := by
  unfold projectFire Firing.prepare
  simp only [wp_bind, wp_read, wp_pure]
  generalize hf : ({ f with owner := _, prev := _ } : Firing) = f'
  have htimer : f'.timer = f.timer := hf ▸ rfl
  have hslot : f'.scheduledFor = f.scheduledFor := hf ▸ rfl
  refine wp_mono (fireTx_spec cfg f' r hs) (fun out r₁ hfired => ?_) fun _ _ h₁ => .inr h₁
  obtain ⟨c, superseded⟩ := out
  have hdone : ∀ r₂ : ReplyState, r₂.store = r₁.store →
      ∃ f', f'.timer = f.timer ∧ f'.scheduledFor = f.scheduledFor ∧ Fired f' c r.store r₂.store :=
    fun r₂ hr₂ => ⟨f', htimer, hslot, hr₂ ▸ hfired⟩
  split
  · rw [wp_bind]
    refine wp_mono registerFire_spec (fun _ r₂ hr₂ => ?_) fun _ _ hp => .inl hp
    cases superseded with
    | none => exact hdone r₂ hr₂
    | some prev => exact hdone r₂ hr₂
  · cases superseded with
    | none => exact hdone r₁ rfl
    | some prev => exact hdone r₁ rfl

/-- What the claim of a slot leaves: a new claim in a free slot, or the
tables as they were. -/
def Claims (t : Timer) (slot : Int) (replaced : Bool) (s s' : Store) : SlotClaim → Prop
  | .new claim => s.slotStatus t.id slot = none ∧ claim ∈ s'.runs ∧ claim.timerId = t.id ∧
      claim.scheduledFor = slot ∧ Acts t slot replaced s s'
  | .taken => Acts t slot false s s' ∧ s'.runs = s.runs

theorem claimSlot_spec (hs : r.store.Keyed) :
    wp (claimSlot h t slot kind)
      (fun out r' => Claims t slot (h.replaces t) r.store r'.store out) (fun _ _ => True) r := by
  unfold claimSlot
  cases hengine : h.engine with
  | some cfg =>
    dsimp only
    split
    · trivial
    · rw [wp_bind, wp_mapError, wp_attempt]
      refine wp_mono (projectFire_spec hs.wf) (fun claim r₁ hfired => ?_) fun e r₁ he => ?_
      · obtain ⟨f, htimer, hslot, hfired⟩ := hfired
        have htimer : f.timer = t := htimer
        have hslot : f.scheduledFor = slot := hslot
        obtain ⟨u, hu, hclaim, hruns⟩ := hfired.ledger
        have hkey : claim.key = (r.store.newClaim u f.timer.id f.scheduledFor f.utc).key := by
          rw [hclaim, key_dispose]
        rw [wp_pure]
        refine ⟨?_, ?_, (RunClaim.timerId_of_key hkey).trans (htimer ▸ rfl),
          (RunClaim.scheduledFor_of_key hkey).trans hslot, ?_⟩
        · have hfree := hfired.slot
          rw [htimer, hslot] at hfree
          rw [Store.slotStatus, hfree, Option.map_none]
        · rw [hruns, hclaim]
          exact List.mem_map_of_mem (List.mem_append_right _ (List.mem_singleton_self _))
        · refine ⟨⟨hfired.audit.wf, by rw [hfired.timers]; exact hs.ids⟩, ?_, fun y hy => ?_⟩
          · rw [Store.getTimer, hfired.timers, Store.getTimer]
          · have hother := slotStatus_fire hu rfl (hslot ▸ hy) hruns
            rw [htimer] at hother
            rw [hother, Handling.replaces, hengine]
            rfl
      · rcases e with e | p
        · obtain ⟨p, hp⟩ | hstore := he
          · cases hp
          · cases e with
            | alreadyClaimed id at_ =>
              rw [wp_pure, hstore]
              exact ⟨.refl hs, rfl⟩
            | _ => trivial
        · trivial
  | none =>
    dsimp only
    rw [wp_bind, wp_onRows, wp_attempt, wp_atomically, wp_claimRunConn hs.wf]
    split
    · rw [wp_pure]
      exact ⟨.refl hs, rfl⟩
    · next hfree =>
      have hfree : r.store.getClaimFor t.id slot = none := by simpa using hfree
      rw [wp_pure]
      refine ⟨?_, List.mem_append_right _ (List.mem_singleton_self _), rfl, rfl, ?_⟩
      · rw [Store.slotStatus, hfree, Option.map_none]
      · refine ⟨⟨hs.wf.claim h.utc hfree, hs.ids⟩, rfl, fun y hy => ?_⟩
        have hreplaces : h.replaces t = false := by rw [Handling.replaces, hengine]; rfl
        rw [hreplaces, displaced_false]
        unfold Store.slotStatus Store.getClaimFor
        rw [List.find?_append]
        have hnone : ∀ c : RunClaim, c.scheduledFor = slot →
            [c].find? (fun r => r.timerId == t.id && r.scheduledFor == y) = none := by
          intro c hc
          simp [hc, hy.symm]
        rw [hnone _ rfl, Option.or_none]

variable [Calendar]

/-- The action, the prune pass and the mark of a claim that was taken up. -/
theorem actAndClose_spec {claim : RunClaim} (hs : r.store.Keyed)
    (hget : r.store.getTimer t.id = some t) (hskips : t.occurrence.pendingSkips = 0)
    (hlast : t.lastFired.all (· < slot) = true) (hc : claim ∈ r.store.runs)
    (hslot : claim.scheduledFor = slot) :
    wp (actAndClose h t claim kind)
      (fun d r' => (∃ run, d = some ⟨t.id, slot, run, kind⟩) ∧
        Delivers t slot false r.store r'.store) (fun _ _ => True) r := by
  have hout : ¬(claim.status = .finished ∧ claim.completedAt.isSome ∧ claim.outcome.isNone) := by
    rintro ⟨hfin, -, hnone⟩
    have hsome := (hs.wf.outcome_iff claim hc).mpr hfin
    rw [Option.isNone_iff_eq_none.mp hnone] at hsome
    cases hsome
  -- The mark, after whatever the action has left, and before what is answered.
  have hmark : ∀ (close : SchedM (Option DeliveredFire)) (r₁ : ReplyState),
      Acts t slot false r.store r₁.store →
      (∀ r₃, Delivers t slot false r.store r₃.store →
        wp close (fun d r' => (∃ run, d = some ⟨t.id, slot, run, kind⟩) ∧
          Delivers t slot false r.store r'.store) (fun _ _ => True) r₃) →
      wp (do
        prunePass h (h.delivery claim.scheduledFor) t
        let fresh ← getTimer t.id
        if fresh.any fun t => t.lastFired.all (· < claim.scheduledFor) then
          markFired h t.id claim.scheduledFor
        close)
        (fun d r' => (∃ run, d = some ⟨t.id, slot, run, kind⟩) ∧
          Delivers t slot false r.store r'.store) (fun _ _ => True) r₁ := by
    intro close r₁ h₁ hclose
    have hget₁ : r₁.store.getTimer t.id = some t := h₁.row.trans hget
    rw [wp_bind]
    refine wp_mono (prunePass_spec slot h₁.keyed hget₁) (fun _ r₂ h₂ => ?_)
      fun _ _ _ => trivial
    have hget₂ : r₂.store.getTimer t.id = some t := h₂.row.trans hget₁
    rw [wp_bind, wp_getTimer, hget₂, hslot]
    rw [if_pos (by simpa using hlast), wp_bind]
    refine wp_mono (markFired_spec h₂.keyed hget₂ hskips) (fun _ r₃ h₃ => ?_)
      fun _ _ _ => trivial
    refine hclose r₃ ⟨h₃.keyed, h₃.row, fun y hy => ?_⟩
    rw [slotStatus_of_runs h₃.runs]
    exact (h₁.trans h₂).others y hy
  unfold actAndClose
  dsimp only
  rw [if_neg hout]
  split
  · exact hmark _ r (.refl hs) fun r₃ h₃ => ⟨⟨claim.runId, by rw [hslot]⟩, h₃⟩
  · rw [wp_bind]
    refine wp_mono (actOn_spec (t := t) hs hc hslot) (fun err r₁ h₁ => ?_)
      fun _ _ _ => trivial
    refine hmark _ r₁ h₁ fun r₃ h₃ => ?_
    cases err with
    | some e => trivial
    | none => exact ⟨⟨claim.runId, by rw [hslot]⟩, h₃⟩

theorem Acts.delivers {s s' s'' : Store} (ha : Acts t slot replaced s s')
    (hd : Delivers t slot false s' s'') : Delivers t slot replaced s s'' where
  keyed := hd.keyed
  row := hd.row
  others y hy := by rw [hd.others y hy, displaced_false, ha.others y hy]

/-- **A delivery**: a finished slot is passed over, and every other one is
handed to the action. -/
theorem deliverOne_spec (hs : r.store.Keyed) (hget : r.store.getTimer t.id = some t)
    (hskips : t.occurrence.pendingSkips = 0) (hj : t.occurrence.JumpsForward)
    (hlast : t.lastFired.all (· < slot) = true) (hdue : t.nextFireUtc.all (· ≤ slot) = true) :
    wp (deliverOne h t slot kind)
      (fun d r' =>
        if r.store.slotStatus t.id slot = some .finished then
          d = none ∧ Moves t t.occurrence
            (((t.occurrence.missed (h.delivery slot).wallNow slot).take MAX_ADVANCE).getLastD slot)
            r.store r'.store
        else
          (∃ run, d = some ⟨t.id, slot, run, kind⟩) ∧
            Delivers t slot (h.replaces t && (r.store.slotStatus t.id slot).isNone)
              r.store r'.store)
      (fun _ _ => True) r := by
  unfold deliverOne
  rw [wp_bind]
  refine wp_mono (claimSlot_spec hs) (fun out r₁ h₁ => ?_) fun _ _ _ => trivial
  cases out with
  | new claim =>
    obtain ⟨hfree, hc, -, hslot, h₁⟩ := h₁
    refine wp_mono (actAndClose_spec h₁.keyed (h₁.row.trans hget) hskips hlast hc hslot)
      (fun d r₂ h₂ => ?_) fun _ _ _ => trivial
    rw [if_neg (by simp [hfree]), hfree, Option.isNone_none, Bool.and_true]
    exact ⟨h₂.1, h₁.delivers h₂.2⟩
  | taken =>
    obtain ⟨h₁, hruns⟩ := h₁
    have hget₁ := h₁.row.trans hget
    have hsame : r₁.store.getClaimFor t.id slot = r.store.getClaimFor t.id slot := by
      unfold Store.getClaimFor
      rw [hruns]
    rw [wp_bind, wp_get, hsame]
    cases hclaim : r.store.getClaimFor t.id slot with
    | none => trivial
    | some claim =>
      obtain ⟨hc, -, hslot⟩ := getClaimFor_mem hclaim
      have hstatus : r.store.slotStatus t.id slot = some claim.status := by
        rw [Store.slotStatus, hclaim, Option.map_some]
      rw [hstatus]
      dsimp only
      split
      · next hopen =>
        -- The action of a run that was cut short is taken up again.
        have hne : ¬some claim.status = some .finished := by
          intro he
          rw [RunClaim.isUnfinished, Option.some.inj he] at hopen
          cases hopen
        refine wp_mono (actAndClose_spec h₁.keyed hget₁ hskips hlast (hruns ▸ hc) hslot)
          (fun d r₂ h₂ => ?_) fun _ _ _ => trivial
        rw [if_neg hne, Option.isNone_some, Bool.and_false]
        exact ⟨h₂.1, h₁.delivers h₂.2⟩
      · next hclosed =>
        have hfin : some claim.status = some .finished := by
          cases hst : claim.status with
          | finished => rfl
          | _ => exact absurd (by rw [RunClaim.isUnfinished, hst]; rfl) hclosed
        rw [wp_bind]
        refine wp_mono (ensureAdvancedPast_spec h₁.keyed hget₁ hskips hj hdue)
          (fun _ r₂ h₂ => ?_) fun _ _ _ => trivial
        rw [wp_pure, if_pos hfin]
        exact ⟨rfl, h₂.keyed, h₂.runs.trans hruns, h₂.row⟩

end Delivery

/-! ### A row that is due -/

section Due

variable [Calendar] {t : Timer} {nf : Int}

/-- What a row with a next fire has: no skip is pending, a run is left, and
the last fire is earlier. -/
structure Timer.Ready (t : Timer) (nf : Int) : Prop where
  next : t.nextFireUtc = some nf
  skips : t.occurrence.pendingSkips = 0
  runs : t.occurrence.exhausted = false
  jumps : t.occurrence.JumpsForward
  last : t.lastFired.all (· < nf) = true

/-- Every row of a run is one that a search has come to. -/
theorem ready_of_run {cfg : FireConfig} {tr : List (System.Event ReplyState Commit)}
    {r : ReplyState} (h : (ledger cfg).Run {} tr r) (hget : r.store.getTimer t.id = some t)
    (hnf : t.nextFireUtc = some nf) (hj : t.occurrence.JumpsForward) : t.Ready nf := by
  obtain ⟨e, he, occ, hwrote⟩ := (wrote_of_run h t (List.mem_of_find?_eq_some hget)).2
  obtain ⟨now, hfound⟩ := (hwrote.searched h he).found
  rw [hnf, computeNextFire_finds] at hfound
  obtain ⟨hruns, z, tr', s, hz, hrun, hlen, hoffer, hocc⟩ :=
    Occurrence.nextFire_eq_some_iff.mp hfound.2
  have hjumps : occ.JumpsForward := by
    rw [hocc] at hj
    exact hj
  refine ⟨hnf, ?_, ?_, hj, ?_⟩
  · rw [hocc]
    exact Nat.sub_eq_zero_of_le (Nat.not_lt.mp hoffer.skipped)
  · rw [hocc]
    exact hruns
  · cases hlast : t.lastFired with
    | none => rfl
    | some lf =>
      rw [hlast] at hfound
      exact decide_eq_true (Occurrence.nextFire_gt hjumps hfound.2)

omit [Calendar] in
/-- The row of the timer is not due: it has no next fire, or a later one. -/
def Store.NotDue (s : Store) (timerId : Uuid) (now : Int) : Prop :=
  ∀ t, s.getTimer timerId = some t → ∀ nf, t.nextFireUtc = some nf → now < nf

theorem Timer.Stands.notDue_iff {s : Store} {t' : Timer} {occ : Occurrence} {a now : Int}
    (ht : t.Stands occ a t') (hget : s.getTimer t.id = some t') :
    s.NotDue t.id now ↔ ∀ u, occ.firing a = some u → now < u := by
  constructor
  · intro h u hu
    exact h t' hget u (ht.nextFireUtc.trans hu)
  · intro h u hu nf hnf
    rw [hget] at hu
    obtain rfl := Option.some.inj hu
    exact h nf (ht.nextFireUtc.symm.trans hnf)

end Due

end Bellman
