/-
Bellman/Progress.lean

What a handling leaves ahead: whether the row is due again.

A row that was handled is to have its next fire after now, or none.  Where
the row stands is known from each policy, and so is how much of the backlog
is left from there:

    skip        past the due instant, when that was delivered
    coalesce    past the latest instant walked over, and 100000 more
    catch up    past what the replay came to, and 100000 more
    past grace  100000 instants after the last fire

Main result: the row is not due again exactly when nothing is left
(`handle_due_clears_iff`).  A timer that skips and is handled a whole period
late is due again: the instant it is late for is delivered, and the next one
is now (`handle_due_again`).
-/
import Bellman.CatchUp

namespace Bellman

open ProgramLogic Prog ReplyM

section Progress

variable [Calendar] {h : Handling} {r : ReplyState} {t : Timer} {nf now : Int}

/-- How many instants after a finished slot go with it. -/
def Timer.passed (t : Timer) (h : Handling) (slot : Int) : Nat :=
  ((t.occurrence.missed (h.delivery slot).wallNow slot).take MAX_ADVANCE).length

/-- The backlog is passed over to its end. -/
def Timer.AdvanceReaches (t : Timer) (now : Int) : Prop :=
  (t.occurrence.missed now (t.cursor now)).length ≤ MAX_ADVANCE

/-- With a delivery that uses up the last run nothing is left; otherwise what
comes after the slot is. -/
def Timer.FireClears (t : Timer) (slot now : Int) (n : Nat) : Prop :=
  t.occurrence.recordRun.exhausted = true ∨ (t.occurrence.missed now slot).length ≤ n

/-- Nothing of the backlog is left. -/
def Timer.Clears (t : Timer) (h : Handling) (s : Store) (nf now : Int) : Prop :=
  match t.misfire with
  | .skip =>
    if now - nf ≤ graceFor t then
      if s.slotStatus t.id nf = some .finished then
        (t.occurrence.missed now nf).length ≤ t.passed h nf
      else t.FireClears nf now 0
    else t.AdvanceReaches now
  | .coalesce _ =>
    let x := t.walked nf now
    if now - x ≤ graceFor t then
      if s.slotStatus t.id x = some .finished then
        (t.occurrence.missed now x).length ≤ t.passed h x + MAX_ADVANCE
      else t.FireClears x now MAX_ADVANCE
    else t.AdvanceReaches now
  | .catchUp graceSecs m =>
    if m = 0 then t.AdvanceReaches now
    else
      (replay (h.replays t s now (saturatingSecs graceSecs)) MAX_ADVANCE m 0 false
        (t.scheduled nf now)).rest.length ≤ MAX_ADVANCE

/-! ### Where the row stands -/

theorem missed_recordRun_length (slot : Int) (n : Nat) :
    (t.occurrence.recordRun.missed now slot).length ≤ n ↔ t.FireClears slot now n := by
  unfold Timer.FireClears
  cases hruns : t.occurrence.recordRun.exhausted with
  | true =>
    rw [Occurrence.missed_of_exhausted hruns]
    exact iff_of_true (Nat.zero_le n) (.inl rfl)
  | false =>
    rw [Occurrence.missed, Occurrence.firing_recordRun hruns, ← Occurrence.missed]
    exact (or_iff_right Bool.false_ne_true).symm

/-- A row that stands on its backlog is not due when nothing is left from
there. -/
theorem Timer.Stands.notDue_iff_missed {s : Store} {t' : Timer} {occ : Occurrence} {a : Int}
    (hj : occ.JumpsForward) (hstands : t.Stands occ a t') (hget : s.getTimer t.id = some t') :
    s.NotDue t.id now ↔ (occ.missed now a).length ≤ 0 := by
  rw [hstands.notDue_iff hget, ← Walk.step_eq_none, ← Walk.backlog_eq_nil
    (Occurrence.firing_climbs hj), Nat.le_zero, List.length_eq_zero_iff]
  rfl

/-- One that was advanced from a place, when no more was left from there than
the walk passes over. -/
theorem Timer.Stands.notDue_advanced {s : Store} {t' : Timer} {occ : Occurrence} {a : Int}
    (hj : occ.JumpsForward)
    (hstands : t.Stands occ (((occ.missed now a).take MAX_ADVANCE).getLastD a) t')
    (hget : s.getTimer t.id = some t') :
    s.NotDue t.id now ↔ (occ.missed now a).length ≤ MAX_ADVANCE := by
  rw [hstands.notDue_iff hget, Occurrence.firing_last_gt hj, List.length_take, Nat.le_min]
  exact and_iff_left (Nat.le_refl _)

/-- A finished slot is passed over with what goes with it. -/
theorem missed_passed (hj : t.occurrence.JumpsForward) (slot : Int) :
    (t.occurrence.missed now (((t.occurrence.missed (h.delivery slot).wallNow slot).take
      MAX_ADVANCE).getLastD slot)).length =
      (t.occurrence.missed now slot).length - t.passed h slot := by
  have hlast := Walk.backlog_last (Occurrence.firing_climbs hj) now (h.delivery slot).wallNow
    MAX_ADVANCE slot
  rw [Timer.passed, ← List.length_drop]
  exact congrArg List.length hlast

/-- Past grace the backlog is passed over. -/
theorem advance_clears (hs : r.store.Keyed) (hget : r.store.getTimer t.id = some t)
    (ht : t.Ready nf) :
    wp (advancePastNow h t.id now)
      (fun _ r' => r'.store.NotDue t.id now ↔ t.AdvanceReaches now) (fun _ _ => True) r := by
  refine wp_mono (advancePastNow_spec hs hget ht.skips ht.jumps) (fun _ r' hm => ?_)
    fun _ _ _ => trivial
  obtain ⟨t', hget', hstands⟩ := hm.row
  rw [hstands.notDue_iff hget', Timer.firing_advanced_gt ht.jumps, Timer.AdvanceReaches]

theorem handleSkip_clears (hs : r.store.Keyed) (hget : r.store.getTimer t.id = some t)
    (ht : t.Ready nf) (hmisfire : t.misfire = .skip) :
    wp (handleSkip h t nf now)
      (fun _ r' => r'.store.NotDue t.id now ↔ t.Clears h r.store nf now) (fun _ _ => True) r := by
  unfold handleSkip Timer.Clears
  rw [hmisfire]
  dsimp only
  split
  · rw [wp_bind]
    refine wp_mono (deliverOne_spec hs hget ht.skips ht.jumps ht.last
      (ht.next_le (Int.le_refl nf))) (fun d r₁ hd => ?_) fun _ _ _ => trivial
    rw [wp_pure]
    split at hd
    · next hfin =>
      obtain ⟨t', hget', hstands⟩ := hd.2.row
      rw [if_pos hfin, hstands.notDue_iff_missed ht.jumps hget', missed_passed ht.jumps]
      omega
    · next hopen =>
      obtain ⟨t', hget', hstands⟩ := hd.2.row
      have hj : t.occurrence.recordRun.JumpsForward := ht.jumps
      rw [if_neg hopen, hstands.notDue_iff_missed hj hget', missed_recordRun_length]
  · rw [wp_bind, wp_orAbort]
    intro walk _
    rw [wp_bind]
    refine wp_mono (logSkippedMisfire_spec nf hs) (fun _ r₁ h₁ => ?_)
      fun _ _ _ => trivial
    rw [wp_bind]
    exact advance_clears h₁.keyed (h₁.row.trans hget) ht

theorem handleCoalesce_clears {graceSecs : Nat} (hs : r.store.Keyed)
    (hget : r.store.getTimer t.id = some t) (ht : t.Ready nf) (hdue : nf ≤ now)
    (hmisfire : t.misfire = .coalesce graceSecs) :
    wp (handleCoalesce h t nf now)
      (fun _ r' => r'.store.NotDue t.id now ↔ t.Clears h r.store nf now) (fun _ _ => True) r := by
  refine wp_mono (handleCoalesce_spec hs hget ht hdue) (fun ds r' hpost => ?_) fun _ _ _ => trivial
  unfold Timer.Clears
  rw [hmisfire]
  dsimp only at hpost ⊢
  split at hpost
  · next hgrace =>
    rw [if_pos hgrace]
    split at hpost
    · next hfin =>
      obtain ⟨t', hget', hstands⟩ := hpost.2
      rw [if_pos hfin, hstands.notDue_advanced ht.jumps hget', missed_passed ht.jumps]
      omega
    · next hopen =>
      obtain ⟨t', hget', hstands⟩ := hpost.2
      have hj : t.occurrence.recordRun.JumpsForward := ht.jumps
      rw [if_neg hopen, hstands.notDue_advanced hj hget', missed_recordRun_length]
  · next hpast =>
    obtain ⟨t', hget', hstands⟩ := hpost.2
    rw [if_neg hpast, hstands.notDue_iff hget', Timer.firing_advanced_gt ht.jumps,
      Timer.AdvanceReaches]

/-- With no instant to deliver the loop ends before its first turn. -/
theorem catchUpLoop_zero (h : Handling) (timerId : Uuid) (now grace : Int) (fuel : Nat)
    (scheduled : Int) (index : Nat) (delivered : List DeliveredFire) :
    catchUpLoop h timerId now grace 0 fuel scheduled index delivered = return delivered := by
  cases fuel with
  | zero => rfl
  | succ fuel =>
    unfold catchUpLoop
    exact if_pos (.inr (Nat.zero_le index))

theorem handleCatchUp_clears {graceSecs m : Nat} (hs : r.store.Keyed)
    (hget : r.store.getTimer t.id = some t) (ht : t.Ready nf) (hdue : nf ≤ now)
    (hmisfire : t.misfire = .catchUp graceSecs m) :
    wp (handleCatchUp h t graceSecs m nf now)
      (fun _ r' => r'.store.NotDue t.id now ↔ t.Clears h r.store nf now) (fun _ _ => True) r := by
  unfold Timer.Clears
  rw [hmisfire]
  dsimp only
  split
  · next hzero =>
    subst hzero
    unfold handleCatchUp
    rw [wp_bind]
    rw [catchUpLoop_zero, wp_pure, wp_bind, wp_getTimer, hget]
    dsimp only
    have hagain : t.nextFireUtc.any (· ≤ now) = true := by
      rw [ht.next]
      exact decide_eq_true hdue
    rw [if_pos hagain, wp_bind]
    exact advance_clears hs hget ht
  · next hm =>
    exact wp_mono (handleCatchUp_spec hs hget ht hdue (Nat.pos_of_ne_zero hm))
      (fun _ _ hpost => hpost.2) fun _ _ _ => trivial

/-- **A handling makes progress** exactly when nothing of the backlog is left
from where it leaves the row. -/
theorem handle_due_clears_iff {cfg : FireConfig} {tr : List (System.Event ReplyState Commit)}
    {ds : List DeliveredFire} {r' : ReplyState} (hrun : (ledger cfg).Run {} tr r)
    (hget : r.store.getTimer t.id = some t) (henabled : t.enabled = true)
    (hnext : t.nextFireUtc = some nf) (hdue : nf ≤ now) (hj : t.occurrence.JumpsForward)
    (hok : (handleDueTimer h t.id now).run r = (.ok ds, r')) :
    r'.store.NotDue t.id now ↔ t.Clears h r.store nf now := by
  have ht := ready_of_run hrun hget hnext hj
  have hs := keyed_of_run hrun
  rw [handleDueTimer_run hget henabled hnext hdue, handleMisfire] at hok
  cases hmisfire : t.misfire with
  | skip =>
    rw [hmisfire] at hok
    exact wp_ok (handleSkip_clears hs hget ht hmisfire) hok
  | coalesce graceSecs =>
    rw [hmisfire] at hok
    exact wp_ok (handleCoalesce_clears hs hget ht hdue hmisfire) hok
  | catchUp graceSecs m =>
    rw [hmisfire] at hok
    exact wp_ok (handleCatchUp_clears hs hget ht hdue hmisfire) hok

end Progress

/-! ### A period late -/

section Sample

attribute [local instance] Calendar.utcOnly

/-- A timer that fires every second, and skips what it is late for. -/
def NewTimer.prompt : NewTimer := { NewTimer.second with misfire := .skip }

/-- The same timer as a row. -/
def Timer.prompt : Timer := { Timer.second with misfire := .skip }

/-- The timer is made. -/
def promptMade : List Commit := [.createTimer .prompt 0]

theorem getTimer_promptMade :
    (ReplyState.made promptMade).store.getTimer Timer.prompt.id = some Timer.prompt := by
  decide +kernel

theorem handle_due_clears_prompt : ∃ ds r',
    (handleDueTimer (.sample NS) Timer.prompt.id NS).run (ReplyState.made promptMade) =
      (.ok ds, r') ∧ r'.store.NotDue Timer.prompt.id NS := by
  obtain ⟨ds, hok, -⟩ := run_of_map (m := handleDueTimer (.sample NS) Timer.prompt.id NS)
    (s := ReplyState.made promptMade) (f := fun ds => ds.map (·.scheduledFor)) (b := [NS])
    (by decide +kernel)
  refine ⟨ds, _, hok, (handle_due_clears_iff (run_made promptMade) getTimer_promptMade rfl rfl
    (Int.le_refl NS) jumpsForward_second hok).mpr ?_⟩
  have hmissed : Timer.prompt.occurrence.missed NS NS = [] :=
    Occurrence.missed_of_walkFrom (n := 1) jumpsForward_second rfl (by decide +kernel) (by decide)
  have hgrace : NS - NS ≤ graceFor Timer.prompt := by decide
  have hopen : (ReplyState.made promptMade).store.slotStatus Timer.prompt.id NS ≠
      some .finished := by
    decide +kernel
  unfold Timer.Clears
  show if _ then if _ then _ else Timer.prompt.FireClears NS NS 0 else _
  rw [if_pos hgrace, if_neg hopen, Timer.FireClears, hmissed]
  exact .inr (Nat.le_refl 0)

/-- **Late by a period**: the timer was due at 1 s and is handled at 2 s.  The
lateness is within grace, which is the period, so 1 s is delivered; and the
row is due again at 2 s. -/
theorem handle_due_again : ∃ ds r',
    (handleDueTimer (.sample (2 * NS)) Timer.prompt.id (2 * NS)).run (ReplyState.made promptMade) =
      (.ok ds, r') ∧ OneFire ds Timer.prompt.id NS ∧
      ¬r'.store.NotDue Timer.prompt.id (2 * NS) := by
  obtain ⟨ds, hok, hds⟩ := run_of_map
    (m := handleDueTimer (.sample (2 * NS)) Timer.prompt.id (2 * NS))
    (s := ReplyState.made promptMade) (f := fun ds => ds.map fun d => (d.timerId, d.scheduledFor))
    (b := [(Timer.prompt.id, NS)]) (by decide +kernel)
  refine ⟨ds, _, hok, ?_, fun hclear => ?_⟩
  · obtain ⟨⟨id, slot, run, kind⟩, rfl, hd⟩ := List.map_eq_singleton_iff.mp hds
    cases hd
    exact ⟨run, kind, rfl⟩
  · obtain ⟨t', hget, hnf⟩ : ∃ t', ((handleDueTimer (.sample (2 * NS)) Timer.prompt.id
        (2 * NS)).run (ReplyState.made promptMade)).2.store.getTimer Timer.prompt.id = some t' ∧
        t'.nextFireUtc = some (2 * NS) :=
      Option.map_eq_some_iff.mp (by decide +kernel)
    exact absurd (hclear t' hget (2 * NS) hnf) (Int.lt_irrefl _)

end Sample

end Bellman
