/-
Bellman/Coalesce.lean

A backlog that is coalesced: one fire for all of it.

The fire is to be at the latest instant of the backlog, if that is within
grace.  The code takes the latest of the instants it has walked over, and it
walks over at most 10000 after the due one.  Of a longer backlog it delivers
one in the middle, or none when that is past grace, and then passes over at
most 100000 more.

Main result: coalescing does what it should exactly when the walk comes to
the end of the backlog, and the latest slot is not finished
(`coalesce_once_iff`).
-/
import Bellman.Handled
import Bellman.Interval

namespace Bellman

open ProgramLogic Prog ReplyM

section Coalesce

variable [Calendar] {h : Handling} {r : ReplyState} {t : Timer} {nf now : Int}

/-- The instants of the backlog: the one that is due, and those after it. -/
def Timer.scheduled (t : Timer) (nf now : Int) : List Int := nf :: t.occurrence.missed now nf

/-- The latest one. -/
def Timer.latest (t : Timer) (nf now : Int) : Int := (t.occurrence.missed now nf).getLastD nf

theorem Timer.latest_isGreatest (hj : t.occurrence.JumpsForward) :
    IsGreatest {u | u ∈ t.scheduled nf now} (t.latest nf now) :=
  Walk.backlog_isGreatest (Occurrence.firing_climbs hj) now nf

/-- The latest one that the walk comes to. -/
def Timer.walked (t : Timer) (nf now : Int) : Int :=
  ((t.occurrence.missed now nf).take MAX_WALK).getLastD nf

theorem walkMissed_eq {l : List Int} (ht : t.Ready nf) (hdue : nf ≤ now)
    (hwalk : walkMissed t nf now = .ok l) :
    l = nf :: (t.occurrence.missed now nf).take MAX_WALK := by
  unfold walkMissed at hwalk
  rw [if_neg (Int.not_lt.mpr hdue)] at hwalk
  cases htz : t.occurrence.timezone with
  | error p => simp [htz, bind, Except.bind] at hwalk
  | ok z =>
    cases hfrom : walkFrom now MAX_WALK t.occurrence nf with
    | error p => simp [htz, hfrom, bind, Except.bind] at hwalk
    | ok rest =>
      simp only [htz, hfrom, bind, Except.bind, pure, Except.pure] at hwalk
      rw [← Except.ok.inj hwalk, Occurrence.walkFrom_eq ht.jumps ht.skips hfrom]

/-- The latest in-grace instant of the walk is the latest of the walk, or
there is none. -/
theorem inGrace_getLast? (ht : t.Ready nf) (grace : Int) :
    ((nf :: (t.occurrence.missed now nf).take MAX_WALK).filter
      fun m => now - m ≤ grace).getLast? =
      if now - t.walked nf now ≤ grace then some (t.walked nf now) else none := by
  have hclimbs := Occurrence.firing_climbs ht.jumps
  have hsorted : (nf :: (t.occurrence.missed now nf).take MAX_WALK).Pairwise (· < ·) := by
    refine List.pairwise_cons.mpr ⟨fun u hu => ?_, ?_⟩
    · exact (Walk.mem_backlog hclimbs (List.mem_of_mem_take hu)).1
    · exact (Walk.backlog_sorted hclimbs now nf).sublist (List.take_sublist _ _)
  have hlast := Walk.getLast?_filter (Walk.take_isGreatest hclimbs now MAX_WALK nf) hsorted
    (p := fun m => decide (now - m ≤ grace)) (fun u hu hpu => by
      simp only [decide_eq_true_eq] at hpu ⊢
      omega)
  simp only [decide_eq_true_eq] at hlast
  exact hlast

theorem le_walked (ht : t.Ready nf) : nf ≤ t.walked nf now :=
  (Walk.take_isGreatest (Occurrence.firing_climbs ht.jumps) now MAX_WALK nf).2
    (List.mem_cons_self ..)

/-- A slot from the due one on is ahead of the row. -/
theorem Timer.Ready.last_lt {slot : Int} (ht : t.Ready nf) (hle : nf ≤ slot) :
    t.lastFired.all (· < slot) = true := by
  have hlast := ht.last
  cases hlf : t.lastFired with
  | none => rfl
  | some lf =>
    rw [hlf] at hlast
    exact decide_eq_true (Int.lt_of_lt_of_le (of_decide_eq_true hlast) hle)

theorem Timer.Ready.next_le {slot : Int} (ht : t.Ready nf) (hle : nf ≤ slot) :
    t.nextFireUtc.all (· ≤ slot) = true := by
  rw [ht.next]
  exact decide_eq_true hle

/-- A row that stands somewhere, after it was advanced. -/
theorem advance_stands {t' : Timer} {occ : Occurrence} {a : Int} (hs : r.store.Keyed)
    (hget : r.store.getTimer t.id = some t') (hstands : t.Stands occ a t')
    (hskips : occ.pendingSkips = 0) (hj : occ.JumpsForward) :
    wp (advancePastNow h t.id now)
      (fun _ r' => ∃ t'', r'.store.getTimer t.id = some t'' ∧
        t.Stands occ (((occ.missed now a).take MAX_ADVANCE).getLastD a) t'')
      (fun _ _ => True) r := by
  obtain rfl := hstands.occurrence
  rw [← hstands.id] at hget ⊢
  refine wp_mono (advancePastNow_spec hs hget hskips hj) (fun _ r' hm => ?_)
    fun _ _ _ => trivial
  obtain ⟨t'', hget', hstands'⟩ := hm.row
  rw [Timer.advanced_of_lastFired hstands.lastFired] at hstands'
  exact ⟨t'', hget', hstands.trans hstands'⟩

omit [Calendar] in
/-- The note about a dropped backlog is all that is written. -/
theorem logSkippedMisfire_spec (slot : Int) {missed : Nat} {reason : String}
    (hs : r.store.Keyed) :
    wp (logSkippedMisfire h t slot missed now reason)
      (fun _ r' => Acts t slot false r.store r'.store) (fun _ _ => True) r := by
  unfold logSkippedMisfire
  rw [wp_onRows, wp_emit hs.wf]
  exact .of_same (hs.wf.emit _ rfl) hs rfl rfl

/-- The fires are one of the timer, at the instant, and no more. -/
def OneFire (ds : List DeliveredFire) (timerId : Uuid) (at_ : Int) : Prop :=
  ∃ run kind, ds = [⟨timerId, at_, run, kind⟩]

/-- What coalescing delivers, and where it leaves the row: past grace it passes
over the backlog, a finished slot is passed over first, and after a fire the
rest of the backlog is passed over. -/
theorem handleCoalesce_spec (hs : r.store.Keyed) (hget : r.store.getTimer t.id = some t)
    (ht : t.Ready nf) (hdue : nf ≤ now) :
    let x := t.walked nf now
    let wallNow := (h.delivery x).wallNow
    let last := fun (occ : Occurrence) c => ((occ.missed now c).take MAX_ADVANCE).getLastD c
    wp (handleCoalesce h t nf now)
      (fun ds r' =>
        if now - x ≤ graceFor t then
          if r.store.slotStatus t.id x = some .finished then
            ds = [] ∧ ∃ t', r'.store.getTimer t.id = some t' ∧ t.Stands t.occurrence
              (last t.occurrence (((t.occurrence.missed wallNow x).take MAX_ADVANCE).getLastD x)) t'
          else
            OneFire ds t.id x ∧ ∃ t', r'.store.getTimer t.id = some t' ∧
              t.Stands t.occurrence.recordRun (last t.occurrence.recordRun x) t'
        else
          ds = [] ∧ ∃ t', r'.store.getTimer t.id = some t' ∧
            t.Stands t.occurrence (t.advanced now) t')
      (fun _ _ => True) r := by
  intro x wallNow last
  unfold handleCoalesce
  rw [wp_bind, wp_orAbort]
  intro walk hwalk
  obtain rfl := walkMissed_eq ht hdue hwalk
  dsimp only
  rw [inGrace_getLast? ht]
  by_cases hgrace : now - x ≤ graceFor t
  · rw [if_pos hgrace]
    dsimp only
    have hle : nf ≤ x := le_walked ht
    rw [wp_bind]
    refine wp_mono (deliverOne_spec hs hget ht.skips ht.jumps (ht.last_lt hle) (ht.next_le hle))
      (fun d r₁ hd => ?_) fun _ _ _ => trivial
    rw [wp_bind]
    by_cases hfin : r.store.slotStatus t.id x = some .finished
    · rw [if_pos hfin] at hd
      obtain ⟨rfl, hm⟩ := hd
      obtain ⟨t', hget', hstands⟩ := hm.row
      refine wp_mono (advance_stands hm.keyed hget' hstands ht.skips ht.jumps)
        (fun _ r₂ hrow => ?_) fun _ _ _ => trivial
      rw [wp_pure, if_pos hgrace, if_pos hfin]
      exact ⟨rfl, hrow⟩
    · rw [if_neg hfin] at hd
      obtain ⟨⟨run, rfl⟩, hm⟩ := hd
      obtain ⟨t', hget', hstands⟩ := hm.row
      refine wp_mono (advance_stands hm.keyed hget' hstands ht.skips ht.jumps)
        (fun _ r₂ hrow => ?_) fun _ _ _ => trivial
      rw [wp_pure, if_pos hgrace, if_neg hfin]
      exact ⟨⟨run, _, rfl⟩, hrow⟩
  · rw [if_neg hgrace]
    dsimp only
    rw [wp_bind]
    refine wp_mono (logSkippedMisfire_spec nf hs) (fun _ r₁ h₁ => ?_)
      fun _ _ _ => trivial
    rw [wp_bind]
    refine wp_mono (advancePastNow_spec h₁.keyed (h₁.row.trans hget) ht.skips ht.jumps)
      (fun _ r₂ hm => ?_) fun _ _ _ => trivial
    rw [wp_pure, if_neg hgrace]
    exact ⟨rfl, hm.row⟩

/-- The part of it that delivers, for a backlog that was walked. -/
theorem handleCoalesce_run {walk : List Int} (ht : t.Ready nf) (hdue : nf ≤ now)
    (hwalk : walkMissed t nf now = .ok walk) (hmany : 1 < walk.length)
    (hgrace : now - t.walked nf now ≤ graceFor t) :
    (handleCoalesce h t nf now).run r =
      (do
        let delivered ← deliverOne h t (t.walked nf now) (.coalesced (min walk.length 4294967295))
        advancePastNow h t.id now
        return delivered.toList : SchedM (List DeliveredFire)).run r := by
  have hinGrace : _ = if now - t.walked nf now ≤ graceFor t then _ else _ :=
    inGrace_getLast? ht (graceFor t)
  rw [← walkMissed_eq ht hdue hwalk, if_pos hgrace] at hinGrace
  have hread : ∀ f : List Int → SchedM (List DeliveredFire),
      (orAbort (.ok walk) >>= f).run r = (f walk).run r := fun _ => rfl
  unfold handleCoalesce
  rw [hwalk, hread]
  dsimp only
  rw [hinGrace]
  dsimp only
  rw [if_pos (.inl hmany)]

/-! ### Once, at the latest instant -/

/-- What is done with a timer that is due, by its policy. -/
def handleMisfire (h : Handling) (t : Timer) (nf now : Int) : SchedM (List DeliveredFire) :=
  match t.misfire with
  | .skip => handleSkip h t nf now
  | .coalesce _ => handleCoalesce h t nf now
  | .catchUp graceSecs maxCatchUp => handleCatchUp h t graceSecs maxCatchUp nf now

omit [Calendar] in
theorem run_getTimer_bind {β : Type} (id : Uuid) (f : Option Timer → SchedM β) :
    (getTimer id >>= f).run r = (f (r.store.getTimer id)).run r := rfl

theorem handleDueTimer_run (hget : r.store.getTimer t.id = some t) (henabled : t.enabled = true)
    (hnext : t.nextFireUtc = some nf) (hdue : nf ≤ now) :
    (handleDueTimer h t.id now).run r = (handleMisfire h t nf now).run r := by
  unfold handleDueTimer
  rw [run_getTimer_bind, hget]
  dsimp only
  rw [henabled, hnext]
  simp only [Bool.not_true, Bool.false_eq_true, if_false]
  rw [if_neg (Int.not_lt.mpr hdue)]
  rfl

/-- What coalescing is to do: one fire at the latest instant of the backlog, if
that is within grace, and none otherwise; and the row is not due again. -/
def CoalescedOnce (t : Timer) (nf now : Int) (ds : List DeliveredFire) (s' : Store) : Prop :=
  (∃ x, IsGreatest {u | u ∈ t.scheduled nf now} x ∧
    if now - x ≤ graceFor t then OneFire ds t.id x else ds = []) ∧
  s'.NotDue t.id now

/-- The walk comes to the latest instant, and its slot is free or open; past
grace, the walk past the backlog comes to its end. -/
def Timer.CoalesceReaches (t : Timer) (s : Store) (nf now : Int) : Prop :=
  if now - t.latest nf now ≤ graceFor t then
    (t.occurrence.missed now nf).length ≤ MAX_WALK ∧
      s.slotStatus t.id (t.latest nf now) ≠ some .finished
  else (t.occurrence.missed now (t.cursor now)).length ≤ MAX_ADVANCE

theorem walked_eq_latest (ht : t.Ready nf) :
    t.walked nf now = t.latest nf now ↔ (t.occurrence.missed now nf).length ≤ MAX_WALK := by
  have hclimbs := Occurrence.firing_climbs ht.jumps
  constructor
  · intro heq
    have hend := Walk.backlog_end hclimbs now nf
    have hrest := Walk.backlog_last hclimbs now now MAX_WALK nf
    have hwalked : ((Walk.backlog t.occurrence.firing now nf).take MAX_WALK).getLastD nf =
        (Walk.backlog t.occurrence.firing now nf).getLastD nf := heq
    rw [hwalked, hend] at hrest
    have hlen := List.drop_eq_nil_iff.mp hrest.symm
    rw [List.length_take] at hlen
    exact hlen.trans (Nat.min_le_left _ _)
  · intro hlen
    unfold Timer.walked Timer.latest
    rw [List.take_of_length_le hlen]

theorem walked_le_latest (ht : t.Ready nf) : t.walked nf now ≤ t.latest nf now := by
  have hclimbs := Occurrence.firing_climbs ht.jumps
  apply (Walk.backlog_isGreatest hclimbs now nf).2
  rcases List.mem_cons.mp (Walk.take_isGreatest hclimbs now MAX_WALK nf).1 with hx | hx
  · exact List.mem_cons.mpr (.inl hx)
  · exact List.mem_cons_of_mem _ (List.mem_of_mem_take hx)

/-- After the fire of the latest instant nothing is missed. -/
theorem missed_recordRun_latest (ht : t.Ready nf) :
    t.occurrence.recordRun.missed now (t.latest nf now) = [] := by
  have hend : t.occurrence.missed now (t.latest nf now) = [] :=
    Walk.backlog_end (Occurrence.firing_climbs ht.jumps) now nf
  cases hruns : t.occurrence.recordRun.exhausted with
  | true =>
    apply Walk.backlog_nil
    rw [Walk.step_eq_none]
    intro u hu
    rw [Occurrence.firing_of_exhausted hruns] at hu
    cases hu
  | false =>
    rw [← hend, Occurrence.missed, Occurrence.missed, Occurrence.firing_recordRun hruns]

omit [Calendar] in
theorem OneFire.at_eq {ds : List DeliveredFire} {timerId : Uuid} {x y : Int}
    (hx : OneFire ds timerId x) (hy : OneFire ds timerId y) : x = y := by
  obtain ⟨run, kind, rfl⟩ := hx
  obtain ⟨run', kind', heq⟩ := hy
  exact congrArg DeliveredFire.scheduledFor (List.cons.inj heq).1

omit [Calendar] in
theorem not_oneFire_nil {timerId : Uuid} {x : Int} : ¬OneFire [] timerId x := by
  rintro ⟨run, kind, heq⟩
  cases heq

/-- **Coalescing fires once, at the latest instant**, exactly when the walk
over the backlog comes to that instant and its slot is not finished; and where
nothing is within grace, exactly when the backlog is passed over to its end. -/
theorem coalesce_once_iff {cfg : FireConfig} {tr : List (System.Event ReplyState Commit)}
    {graceSecs : Nat} {ds : List DeliveredFire} {r' : ReplyState}
    (hrun : (ledger cfg).Run {} tr r) (hget : r.store.getTimer t.id = some t)
    (henabled : t.enabled = true) (hmisfire : t.misfire = .coalesce graceSecs)
    (hnext : t.nextFireUtc = some nf) (hdue : nf ≤ now) (hj : t.occurrence.JumpsForward)
    (hok : (handleDueTimer h t.id now).run r = (.ok ds, r')) :
    CoalescedOnce t nf now ds r'.store ↔ t.CoalesceReaches r.store nf now := by
  have ht := ready_of_run hrun hget hnext hj
  rw [handleDueTimer_run hget henabled hnext hdue, handleMisfire, hmisfire] at hok
  have hspec := wp_ok (handleCoalesce_spec (keyed_of_run hrun) hget ht hdue) hok
  have hgreatest : IsGreatest {u | u ∈ t.scheduled nf now} (t.latest nf now) :=
    Timer.latest_isGreatest ht.jumps
  have honce : CoalescedOnce t nf now ds r'.store ↔
      (if now - t.latest nf now ≤ graceFor t then OneFire ds t.id (t.latest nf now) else ds = []) ∧
        r'.store.NotDue t.id now := by
    unfold CoalescedOnce
    refine and_congr_left fun _ => ⟨?_, fun hif => ⟨_, hgreatest, hif⟩⟩
    rintro ⟨x, hx, hif⟩
    rwa [hx.unique hgreatest] at hif
  rw [honce]
  unfold Timer.CoalesceReaches
  dsimp only at hspec
  by_cases hgrace : now - t.latest nf now ≤ graceFor t
  · rw [if_pos hgrace, if_pos hgrace, ← walked_eq_latest ht]
    by_cases hx : t.walked nf now = t.latest nf now
    · rw [hx, if_pos hgrace] at hspec
      by_cases hfin : r.store.slotStatus t.id (t.latest nf now) = some .finished
      · rw [if_pos hfin] at hspec
        obtain ⟨rfl, -⟩ := hspec
        exact ⟨fun hone => absurd hone.1 not_oneFire_nil, fun hmeets => absurd hfin hmeets.2⟩
      · rw [if_neg hfin, missed_recordRun_latest ht] at hspec
        obtain ⟨hone, t', hget', hstands⟩ := hspec
        refine ⟨fun _ => ⟨hx, hfin⟩, fun _ => ⟨hone, ?_⟩⟩
        rw [hstands.notDue_iff hget']
        have hj' : t.occurrence.recordRun.JumpsForward := ht.jumps
        have hnil : t.occurrence.recordRun.missed now (t.latest nf now) = [] :=
          missed_recordRun_latest ht
        exact Walk.step_eq_none.mp
          ((Walk.backlog_eq_nil (Occurrence.firing_climbs hj')).mp hnil)
    · -- Another instant is delivered, or none.
      refine ⟨fun hone => absurd hone.1 fun hlatest => ?_, fun hmeets => absurd hmeets.1 hx⟩
      split at hspec
      · split at hspec
        · exact not_oneFire_nil (hspec.1 ▸ hlatest)
        · exact hx (hspec.1.at_eq hlatest)
      · exact not_oneFire_nil (hspec.1 ▸ hlatest)
  · have hle : t.walked nf now ≤ t.latest nf now := walked_le_latest ht
    rw [if_neg (by omega)] at hspec
    obtain ⟨rfl, t', hget', hstands⟩ := hspec
    rw [if_neg hgrace, if_neg hgrace, hstands.notDue_iff hget', Timer.firing_advanced_gt ht.jumps]
    exact and_iff_right rfl

end Coalesce

/-! ### A backlog of three hours -/

section Sample

attribute [local instance] Calendar.utcOnly

/-- Actions run in the loop, and no files are kept. -/
def Handling.sample (wallNow : Int) : Handling where
  engine := none
  executesInline := true
  prune := none
  rfc3339 _ := ""
  display _ := ""
  utc := wallNow
  delivery slot := ⟨none, Firing.sample .skip slot, .ok (), wallNow⟩

/-- A timer that fires every second; a backlog is coalesced within a day. -/
def NewTimer.second : NewTimer where
  name := "second"
  occurrence := { kind := .interval 1 0, tz := "UTC" }
  misfire := .coalesce 86400

/-- The same timer as a row. -/
def Timer.second : Timer :=
  { Timer.sample .skip with
    name := "second"
    occurrence := NewTimer.second.occurrence
    nextFireUtc := some NS
    misfire := .coalesce 86400 }

theorem jumpsForward_second : Timer.second.occurrence.JumpsForward :=
  Occurrence.jumpsForward_of_exclusions_nil rfl

theorem nextFire_second {k : Nat} (hk : k ≤ 100000) :
    Timer.second.occurrence.nextFire (k * NS) =
      .ok (some (((k + 1 : Nat) : Int) * NS), Timer.second.occurrence) := by
  have hns : NS = 1000000000 := rfl
  have hlow : 0 ≤ (k : Int) * NS := by rw [hns]; omega
  have hhigh : (k : Int) * NS ≤ 100000000000000 := by rw [hns]; omega
  have hsucc : ((k + 1 : Nat) : Int) * NS = k * NS + NS := by rw [hns]; omega
  have hmin := minUtc_eq
  have hmax := maxUtc_eq
  have hraw : Timer.second.occurrence.rawNextAfter Zone.utc (k * NS) =
      .ok (some (((k + 1 : Nat) : Int) * NS)) := by
    have hleast : IsLeast (intervalAfter 1 0 (k * NS)) (((k + 1 : Nat) : Int) * NS) := by
      refine ⟨⟨⟨k + 1, by simp [secs]⟩, by omega⟩, ?_⟩
      rintro u ⟨⟨j, rfl⟩, hlt⟩
      unfold secs at hlt ⊢
      rw [hns] at hlt ⊢
      omega
    have hexact : IntervalExact 1 0 (k * NS) :=
      exact_of_short ⟨by omega, by omega⟩ ⟨by omega, by omega⟩ (by decide) (by decide) hlow
    rw [intervalExact_of_isLeast hleast, if_pos (by omega)] at hexact
    exact hexact
  have hoffer : Timer.second.occurrence.Offers Zone.utc (k * NS, 0)
      (((k + 1 : Nat) : Int) * NS) :=
    ⟨hraw, ⟨rfl, rfl, List.not_mem_nil⟩, Nat.not_lt_zero 0⟩
  exact Occurrence.nextFire_eq_some_iff.mpr
    ⟨rfl, Zone.utc, [], (k * NS, 0), rfl, .nil, Nat.zero_lt_succ _, hoffer, rfl⟩

theorem walkFrom_second (now : Int) (n k : Nat) (hk : k + n ≤ 100000)
    (hnow : ((k + n : Nat) : Int) * NS ≤ now) :
    walkFrom now n Timer.second.occurrence (k * NS) =
      .ok ((List.range' (k + 1) n).map fun i : Nat => (i : Int) * NS) := by
  induction n generalizing k with
  | zero => rfl
  | succ n ih =>
    have hle : ¬now < ((k + 1 : Nat) : Int) * NS := by
      simp only [show NS = 1000000000 from rfl] at hnow ⊢
      omega
    have hrest := ih (k + 1) (by omega) (by rwa [Nat.add_right_comm])
    unfold walkFrom
    rw [nextFire_second (by omega)]
    simp only [bind, Except.bind, pure, Except.pure]
    rw [if_neg hle, hrest]
    rfl

/-- The timer is made. -/
def secondMade : List Commit := [.createTimer .second 0]

theorem getTimer_secondMade :
    (ReplyState.made secondMade).store.getTimer Timer.second.id = some Timer.second := by
  decide +kernel

theorem coalesce_once_second : ∃ ds r',
    (handleDueTimer (.sample (5 * NS)) Timer.second.id (5 * NS)).run (ReplyState.made secondMade) =
      (.ok ds, r') ∧ CoalescedOnce Timer.second NS (5 * NS) ds r'.store := by
  obtain ⟨ds, hok, -⟩ := run_of_map
    (m := handleDueTimer (.sample (5 * NS)) Timer.second.id (5 * NS))
    (s := ReplyState.made secondMade) (f := fun ds => ds.map (·.scheduledFor)) (b := [5 * NS])
    (by decide +kernel)
  refine ⟨ds, _, hok, (coalesce_once_iff (run_made secondMade) getTimer_secondMade rfl rfl rfl
    (by decide) jumpsForward_second hok).mpr ?_⟩
  have hmissed : Timer.second.occurrence.missed (5 * NS) NS = [2 * NS, 3 * NS, 4 * NS, 5 * NS] :=
    Occurrence.missed_of_walkFrom (n := 5) jumpsForward_second rfl (by decide +kernel) (by decide)
  have hlatest : Timer.second.latest NS (5 * NS) = 5 * NS := by
    rw [Timer.latest, hmissed]
    rfl
  unfold Timer.CoalesceReaches
  rw [hlatest, if_pos (by decide), hmissed]
  exact ⟨by decide, by decide +kernel⟩

/-- **A backlog of three hours** of the timer that fires every second: the walk
stops two instants before the latest, and that is the one that is delivered. -/
theorem coalesce_misses_latest : ∃ ds r',
    (handleDueTimer (.sample (10003 * NS)) Timer.second.id (10003 * NS)).run
        (ReplyState.made secondMade) = (.ok ds, r') ∧
      OneFire ds Timer.second.id (10001 * NS) ∧
      ¬CoalescedOnce Timer.second NS (10003 * NS) ds r'.store := by
  have hdue : NS ≤ 10003 * NS := by decide
  have hwalk := walkFrom_second (10003 * NS) MAX_WALK 1 (by decide) (by decide)
  have hone : ((1 : Nat) : Int) * NS = NS := Int.one_mul NS
  rw [hone] at hwalk
  generalize hinstants : (List.range' (1 + 1) MAX_WALK).map (fun i : Nat => (i : Int) * NS) =
    instants at hwalk
  have hlen : (NS :: instants).length = 10001 := by
    rw [← hinstants, List.length_cons, List.length_map, List.length_range']
    rfl
  have htake := Occurrence.walkFrom_eq jumpsForward_second rfl hwalk
  have hready : Timer.second.Ready NS :=
    ready_of_run (run_made secondMade) getTimer_secondMade rfl jumpsForward_second
  have hwalked : Timer.second.walked NS (10003 * NS) = 10001 * NS := by
    unfold Timer.walked
    rw [← htake, ← hinstants, List.getLastD_eq_getLast?, List.getLast?_map, List.getLast?_range']
    rfl
  have hmissed : walkMissed Timer.second NS (10003 * NS) = .ok (NS :: instants) := by
    unfold walkMissed
    rw [if_neg (by decide), hwalk]
    rfl
  -- What is left to do after the walk is little.
  have hrun : (handleDueTimer (.sample (10003 * NS)) Timer.second.id (10003 * NS)).run
      (ReplyState.made secondMade) = _ :=
    (handleDueTimer_run getTimer_secondMade rfl rfl hdue).trans
      (handleCoalesce_run hready hdue hmissed (by rw [hlen]; decide) (by rw [hwalked]; decide))
  rw [hwalked, hlen] at hrun
  obtain ⟨ds, hok, hds⟩ := run_of_map (m := do
      let delivered ← deliverOne (.sample (10003 * NS)) Timer.second (10001 * NS)
        (.coalesced (min 10001 4294967295))
      advancePastNow (.sample (10003 * NS)) Timer.second.id (10003 * NS)
      return delivered.toList) (s := ReplyState.made secondMade)
    (f := fun ds => ds.map fun d => (d.timerId, d.scheduledFor))
    (b := [(Timer.second.id, 10001 * NS)]) (by decide +kernel)
  have hone : OneFire ds Timer.second.id (10001 * NS) := by
    obtain ⟨⟨id, slot, run, kind⟩, rfl, hd⟩ := List.map_eq_singleton_iff.mp hds
    cases hd
    exact ⟨run, kind, rfl⟩
  refine ⟨ds, _, hrun.trans hok, hone, ?_⟩
  rintro ⟨⟨x, hx, hif⟩, -⟩
  -- The instant after the one delivered is of the backlog, too.
  have hlater : 10002 * NS ≤ x := by
    have hwalk := walkFrom_second (10003 * NS) 10001 1 (by decide) (by decide)
    have htake := Occurrence.walkFrom_eq jumpsForward_second rfl hwalk
    have hmem : 10002 * NS ∈ (List.range' (1 + 1) 10001).map fun i : Nat => (i : Int) * NS :=
      List.mem_map.mpr ⟨10002, List.mem_range'_1.mpr ⟨by decide, by decide⟩, rfl⟩
    rw [htake] at hmem
    apply hx.2
    rw [Int.natCast_one, Int.one_mul] at hmem
    exact List.mem_cons_of_mem _ (List.mem_of_mem_take hmem)
  split at hif
  · rw [← hone.at_eq hif] at hlater
    exact absurd hlater (by decide)
  · exact not_oneFire_nil (hif ▸ hone)

end Sample

end Bellman
