/-
Bellman/CatchUp.lean

A backlog that is caught up with: its oldest instants, one fire for each.

With a maximum of `m`, the `m` oldest instants within grace are to be
delivered in their order, and the row is not to be due again.  The code makes
at most 100000 turns, those that pass over an instant past grace among them,
and then passes over at most 100000 instants more.  A finished slot on the
way takes the rest of the backlog with it.

Main result: catching up does what it should exactly when the turns, the
runs and the last walk suffice, and no slot on the way is finished
(`catch_up_iff`).
-/
import Bellman.Replay

namespace Bellman

open ProgramLogic Prog ReplyM

section CatchUp

variable [Calendar] {h : Handling} {r : ReplyState} {t : Timer} {nf now grace : Int}
  {graceSecs m : Nat}

/-- The row that is due, before the first turn. -/
theorem Timer.Ready.running (ht : t.Ready nf) : t.Running 0 t nf where
  id := rfl
  overlap := rfl
  prune := rfl
  occurrence := rfl
  runs := ht.runs
  next := ht.next
  last := ht.last

/-- A row on its backlog is due again exactly when the last walk is cut short. -/
theorem advance_notDue {k : Nat} {rest : List Int} {t' : Timer} (hj : t.occurrence.JumpsForward)
    (hskips : t.occurrence.pendingSkips = 0) (hs : r.store.Keyed)
    (hget : r.store.getTimer t.id = some t') (hstops : t.StopsAt now k rest t') :
    wp (if t'.nextFireUtc.any (· ≤ now) then advancePastNow h t.id now else pure ())
      (fun _ r' => r'.store.NotDue t.id now ↔ rest.length ≤ MAX_ADVANCE) (fun _ _ => True) r := by
  obtain ⟨a, hstands, rfl⟩ := hstops
  have hj' := Occurrence.jumpsForward_ran hj k
  split
  · refine wp_mono (advance_stands hs hget hstands (by rw [Occurrence.pendingSkips_ran, hskips])
      hj') (fun _ r' hrow => ?_) fun _ _ _ => trivial
    obtain ⟨t'', hget', hstands'⟩ := hrow
    rw [hstands'.notDue_iff hget', Occurrence.firing_last_gt hj', List.length_take, Nat.le_min]
    exact and_iff_left (Nat.le_refl _)
  · next hclear =>
    have hnone : Walk.step (t.occurrence.ran k).firing now a = none := by
      rw [Walk.step_eq_none]
      intro u hu
      rw [hstands.nextFireUtc, hu] at hclear
      simpa using hclear
    rw [wp_pure, hstands.notDue_iff hget, Occurrence.missed, Walk.backlog_nil hnone]
    exact iff_of_true (Walk.step_eq_none.mp hnone) (Nat.zero_le _)

/-- What catching up delivers, and when it leaves the row due. -/
theorem handleCatchUp_spec (hs : r.store.Keyed) (hget : r.store.getTimer t.id = some t)
    (ht : t.Ready nf) (hdue : nf ≤ now) (hm : 0 < m) :
    let out := replay (h.replays t r.store now (saturatingSecs graceSecs)) MAX_ADVANCE m 0 false
      (t.scheduled nf now)
    wp (handleCatchUp h t graceSecs m nf now)
      (fun ds r' => Fires ds t.id out.fires ∧
        (r'.store.NotDue t.id now ↔ out.rest.length ≤ MAX_ADVANCE))
      (fun _ _ => True) r := by
  intro out
  have hlt : out.rest.length < (t.scheduled nf now).length := by
    obtain ⟨left, rfl⟩ := Nat.exists_eq_succ_of_ne_zero (Nat.ne_of_gt hm)
    exact replay_rest_lt _ 99999 left 0 false nf (t.occurrence.missed now nf)
  unfold handleCatchUp
  rw [wp_bind]
  refine wp_mono (catchUpLoop_spec ht.jumps ht.skips r.store m MAX_ADVANCE 0 hs hget ht.running
    (if_neg (Int.not_lt.mpr hdue)).symm fun y _ => (displaced_false _).symm)
    (fun ds r₁ hend => ?_) fun _ _ _ => trivial
  obtain ⟨hs₁, ⟨new, rfl, hnew⟩, t', hget₁, hrow⟩ := hend
  have hstops : t.StopsAt now out.runs out.rest t' := by
    rcases hrow with hstops | ⟨-, -, hrest⟩
    · exact hstops
    · exact absurd (congrArg List.length hrest) hlt.ne
  rw [wp_bind, wp_getTimer, hget₁]
  dsimp only
  have hlast := advance_notDue (h := h) ht.jumps ht.skips hs₁ hget₁ hstops
  split
  · next hagain =>
    rw [if_pos hagain] at hlast
    rw [wp_bind]
    exact wp_mono hlast (fun _ _ hdone => ⟨hnew, hdone⟩) fun _ _ _ => trivial
  · next hclear =>
    rw [if_neg hclear] at hlast
    exact ⟨hnew, hlast⟩

/-! ### The oldest instants -/

/-- The oldest instants of the backlog that are within grace. -/
def Timer.oldest (t : Timer) (nf now grace : Int) (m : Nat) : List Int :=
  ((t.scheduled nf now).filter fun x => now - x ≤ grace).take m

/-- What catching up is to do: one fire for each of the oldest instants within
grace, in their order and none twice; and the row is not due again. -/
def CaughtUp (t : Timer) (nf now grace : Int) (m : Nat) (ds : List DeliveredFire) (s' : Store) :
    Prop :=
  (t.oldest nf now grace m).Pairwise (· < ·) ∧ Fires ds t.id (t.oldest nf now grace m) ∧
    s'.NotDue t.id now

/-- How many instants are past grace. -/
def Timer.pastGrace (t : Timer) (nf now grace : Int) : Nat :=
  ((t.scheduled nf now).filter fun x => grace < now - x).length

/-- The turns suffice, no slot on the way is finished when its turn comes, the
runs suffice, and so does the last walk.  Where no instant is within grace,
the turns and the last walk suffice for the backlog. -/
def Timer.CatchUpReaches (t : Timer) (h : Handling) (s : Store) (nf now grace : Int) (m : Nat) :
    Prop :=
  let oldest := t.oldest nf now grace m
  if oldest = [] then (t.scheduled nf now).length ≤ MAX_ADVANCE + MAX_ADVANCE
  else
    t.pastGrace nf now grace + oldest.length ≤ MAX_ADVANCE ∧
      (h.replays t s now grace).Open false oldest ∧
      (∀ i < oldest.length, (t.occurrence.ran i).exhausted = false) ∧
      ((t.occurrence.ran oldest.length).exhausted = true ∨
        (t.scheduled nf now).length ≤
          t.pastGrace nf now grace + oldest.length + MAX_ADVANCE)

theorem Timer.scheduled_sorted (hj : t.occurrence.JumpsForward) :
    (t.scheduled nf now).Pairwise (· < ·) := by
  have hclimbs := Occurrence.firing_climbs hj
  refine List.pairwise_cons.mpr ⟨fun u hu => ?_, Walk.backlog_sorted hclimbs now nf⟩
  exact (Walk.mem_backlog hclimbs hu).1

/-- The backlog: first the instants past grace, and then those within. -/
theorem Timer.scheduled_split (hj : t.occurrence.JumpsForward) :
    (t.scheduled nf now).filter (fun x => grace < now - x) ++
      (t.scheduled nf now).filter (fun x => now - x ≤ grace) = t.scheduled nf now := by
  have hnot : (fun x => decide (now - x ≤ grace)) = fun x => !decide (grace < now - x) := by
    funext x
    rw [← decide_not, decide_eq_decide, Int.not_lt]
  rw [hnot]
  apply Walk.filter_append_filter_not (Timer.scheduled_sorted hj)
  intro u v huv hv
  simp only [decide_eq_true_eq] at hv ⊢
  omega

omit [Calendar] in
theorem Fires.unique {ds : List DeliveredFire} {timerId : Uuid} {xs ys : List Int}
    (hx : Fires ds timerId xs) : Fires ds timerId ys ↔ xs = ys := by
  constructor
  · intro hy
    have heq : xs.map (fun x => (timerId, x)) = ys.map fun x => (timerId, x) := hx.symm.trans hy
    exact List.map_injective_iff.mpr (fun u v huv => (Prod.mk.inj huv).2) heq
  · rintro rfl
    exact hx

/-- What the replay of the backlog comes to. -/
theorem replay_reaches_iff (ht : t.Ready nf) (s : Store) {left : Nat} {out : Replayed}
    (hout : out = replay (h.replays t s now grace) MAX_ADVANCE (left + 1) 0 false
      (t.scheduled nf now)) :
    out.fires = t.oldest nf now grace (left + 1) ∧ out.rest.length ≤ MAX_ADVANCE ↔
      t.CatchUpReaches h s nf now grace (left + 1) := by
  have hsplit : (t.scheduled nf now).filter (fun x => grace < now - x) ++ _ = _ :=
    Timer.scheduled_split ht.jumps
  have hlate : ∀ x ∈ (t.scheduled nf now).filter (fun x => grace < now - x),
      (h.replays t s now grace).late x := fun x hx => (List.mem_filter.mp hx).2
  have hgrace : ∀ x ∈ (t.scheduled nf now).filter (fun x => now - x ≤ grace),
      ¬(h.replays t s now grace).late x := by
    intro x hx
    have hle := of_decide_eq_true (List.mem_filter.mp hx).2
    simpa [Handling.replays] using hle
  have hnodup : ((t.scheduled nf now).filter fun x => now - x ≤ grace).Nodup :=
    (Timer.scheduled_sorted ht.jumps).imp Int.ne_of_lt |>.sublist List.filter_sublist
  have hspent : ¬(h.replays t s now grace).spent 0 := Bool.eq_false_iff.mp ht.runs
  have hspends : ∀ k, (h.replays t s now grace).spent k = (t.occurrence.ran k).exhausted :=
    fun _ => rfl
  have hlen := congrArg List.length hsplit
  rw [List.length_append] at hlen
  rw [← hsplit, replay_late _ _ _ _ hlate, hsplit] at hout
  unfold Timer.CatchUpReaches
  unfold Timer.oldest Timer.pastGrace
  generalize (t.scheduled nf now).filter (fun x => grace < now - x) = late at *
  generalize (t.scheduled nf now).filter (fun x => now - x ≤ grace) = inGrace at *
  dsimp only
  split at hout
  · next hturns =>
    -- The instants past grace use up all the turns.
    rw [hout, List.length_drop]
    cases htake : inGrace.take (left + 1) with
    | nil =>
      rw [if_pos rfl, and_iff_right rfl]
      omega
    | cons x xs =>
      rw [if_neg (List.cons_ne_nil x xs), List.length_cons]
      refine iff_of_false (fun hall => List.cons_ne_nil x xs hall.1.symm) fun hall => ?_
      have hfuel := hall.1
      omega
  · next hturns =>
    have hfires := replay_fires_iff (h.replays t s now grace) hnodup hgrace hspent
      (MAX_ADVANCE - late.length) (left + 1) false
    rw [← hout] at hfires
    by_cases hnil : inGrace.take (left + 1) = []
    · rw [if_pos hnil]
      have hempty : inGrace = [] := (List.take_eq_nil_iff.mp hnil).resolve_left (Nat.succ_ne_zero _)
      rw [hempty, List.length_nil] at hlen
      rw [hempty, replay_nil] at hout
      rw [hout, hnil]
      refine iff_of_true ⟨rfl, Nat.zero_le _⟩ ?_
      omega
    · rw [if_neg hnil, hfires]
      have hleft : (inGrace.take (left + 1)).length ≤ MAX_ADVANCE - late.length ↔
          late.length + (inGrace.take (left + 1)).length ≤ MAX_ADVANCE := by omega
      -- With the turns, the runs and open slots, the last walk remains.
      have hrest : (inGrace.take (left + 1)).length ≤ MAX_ADVANCE - late.length →
          (h.replays t s now grace).Open false (inGrace.take (left + 1)) →
          (∀ i < (inGrace.take (left + 1)).length, ¬(h.replays t s now grace).spent (0 + i)) →
          (out.rest.length ≤ MAX_ADVANCE ↔
            (t.occurrence.ran (inGrace.take (left + 1)).length).exhausted = true ∨
              (t.scheduled nf now).length ≤
                late.length + (inGrace.take (left + 1)).length + MAX_ADVANCE) := by
        intro hfuel hslots hruns
        rw [hout, replay_rest_eq _ hgrace hfuel hslots hruns, hspends, Nat.zero_add]
        split
        · next hlast => exact iff_of_true (Nat.zero_le _) (.inl hlast.2)
        · next hmore =>
          have hopen : ¬(t.occurrence.ran (inGrace.take (left + 1)).length).exhausted = true :=
            fun hlast => hmore ⟨hnil, hlast⟩
          rw [or_iff_right hopen, List.length_drop]
          omega
      simp only [Nat.zero_add, hspends, Bool.not_eq_true] at hrest ⊢
      constructor
      · rintro ⟨⟨hfuel, hslots, hruns⟩, hlast⟩
        exact ⟨hleft.mp hfuel, hslots, hruns, (hrest hfuel hslots hruns).mp hlast⟩
      · rintro ⟨hfuel, hslots, hruns, hlast⟩
        have hfuel := hleft.mpr hfuel
        exact ⟨⟨hfuel, hslots, hruns⟩, (hrest hfuel hslots hruns).mpr hlast⟩

/-- **Catching up delivers the oldest instants within grace**, exactly when the
turns, the runs and the last walk suffice, and no slot on the way is
finished. -/
theorem catch_up_iff {cfg : FireConfig} {tr : List (System.Event ReplyState Commit)}
    {ds : List DeliveredFire} {r' : ReplyState} (hrun : (ledger cfg).Run {} tr r)
    (hget : r.store.getTimer t.id = some t) (henabled : t.enabled = true)
    (hmisfire : t.misfire = .catchUp graceSecs m) (hm : 1 ≤ m) (hnext : t.nextFireUtc = some nf)
    (hdue : nf ≤ now) (hj : t.occurrence.JumpsForward)
    (hok : (handleDueTimer h t.id now).run r = (.ok ds, r')) :
    CaughtUp t nf now (saturatingSecs graceSecs) m ds r'.store ↔
      t.CatchUpReaches h r.store nf now (saturatingSecs graceSecs) m := by
  have ht := ready_of_run hrun hget hnext hj
  rw [handleDueTimer_run hget henabled hnext hdue, handleMisfire, hmisfire] at hok
  obtain ⟨hfires, hagain⟩ :=
    wp_ok (handleCatchUp_spec (keyed_of_run hrun) hget ht hdue hm) hok
  obtain ⟨left, rfl⟩ := Nat.exists_eq_succ_of_ne_zero (Nat.ne_of_gt hm)
  rw [← replay_reaches_iff ht r.store rfl]
  unfold CaughtUp
  rw [hfires.unique, hagain]
  apply and_iff_right
  exact (Timer.scheduled_sorted ht.jumps).sublist
    ((List.take_sublist _ _).trans List.filter_sublist)

end CatchUp

/-! ### Behind by a few seconds -/

section Sample

attribute [local instance] Calendar.utcOnly

/-- A timer that fires every second; of a backlog the two oldest instants of a
day are delivered. -/
def NewTimer.behind : NewTimer := { NewTimer.second with misfire := .catchUp 86400 2 }

/-- The same timer as a row. -/
def Timer.behind : Timer := { Timer.second with misfire := .catchUp 86400 2 }

/-- The timer is made. -/
def behindMade : List Commit := [.createTimer .behind 0]

/-- Its first slot is claimed and its action done; then the process ends,
before the row is written. -/
def behindCut : List Commit :=
  [.createTimer .behind 0, .claimRun Timer.behind.id NS NS, .finishRun .inlineDelivered ⟨1⟩ NS,
    .crash]

theorem getTimer_behindMade :
    (ReplyState.made behindMade).store.getTimer Timer.behind.id = some Timer.behind := by
  decide +kernel

theorem catch_up_behind : ∃ ds r',
    (handleDueTimer (.sample (5 * NS)) Timer.behind.id (5 * NS)).run (ReplyState.made behindMade) =
      (.ok ds, r') ∧ CaughtUp Timer.behind NS (5 * NS) (saturatingSecs 86400) 2 ds r'.store := by
  obtain ⟨ds, hok, -⟩ := run_of_map
    (m := handleDueTimer (.sample (5 * NS)) Timer.behind.id (5 * NS))
    (s := ReplyState.made behindMade) (f := fun ds => ds.map (·.scheduledFor)) (b := [NS, 2 * NS])
    (by decide +kernel)
  refine ⟨ds, _, hok, (catch_up_iff (run_made behindMade) getTimer_behindMade rfl rfl (by decide)
    rfl (by decide) jumpsForward_second hok).mpr ?_⟩
  have hmissed : Timer.behind.occurrence.missed (5 * NS) NS = [2 * NS, 3 * NS, 4 * NS, 5 * NS] :=
    Occurrence.missed_of_walkFrom (n := 5) jumpsForward_second rfl (by decide +kernel) (by decide)
  have hscheduled : Timer.behind.scheduled NS (5 * NS) =
      [NS, 2 * NS, 3 * NS, 4 * NS, 5 * NS] := by rw [Timer.scheduled, hmissed]
  have holdest : Timer.behind.oldest NS (5 * NS) (saturatingSecs 86400) 2 = [NS, 2 * NS] := by
    rw [Timer.oldest, hscheduled]
    decide
  have hpast : Timer.behind.pastGrace NS (5 * NS) (saturatingSecs 86400) = 0 := by
    rw [Timer.pastGrace, hscheduled]
    decide
  unfold Timer.CatchUpReaches
  rw [holdest, hpast, hscheduled]
  refine ⟨by decide, ⟨by decide +kernel, by decide +kernel, trivial⟩, ?_, .inr (by decide)⟩
  decide

/-- **After a crash between the action and the row** the first slot is finished:
nothing is delivered, and the row is past the other two instants, whose slots
are free. -/
theorem catch_up_drops_backlog : ∃ r',
    (handleDueTimer (.sample (3 * NS)) Timer.behind.id (3 * NS)).run (ReplyState.made behindCut) =
        (.ok [], r') ∧
      (∀ slot ∈ [2 * NS, 3 * NS], slot ∈ Timer.behind.scheduled NS (3 * NS) ∧
        r'.store.slotStatus Timer.behind.id slot = none) ∧
      (r'.store.getTimer Timer.behind.id).map (·.nextFireUtc) = some (some (4 * NS)) ∧
      ¬CaughtUp Timer.behind NS (3 * NS) (saturatingSecs 86400) 2 [] r'.store := by
  have hmissed : Timer.behind.occurrence.missed (3 * NS) NS = [2 * NS, 3 * NS] :=
    Occurrence.missed_of_walkFrom (n := 3) jumpsForward_second rfl (by decide +kernel) (by decide)
  have hscheduled : Timer.behind.scheduled NS (3 * NS) = [NS, 2 * NS, 3 * NS] := by
    rw [Timer.scheduled, hmissed]
  obtain ⟨ds, hok, rfl⟩ := run_of_map
    (m := handleDueTimer (.sample (3 * NS)) Timer.behind.id (3 * NS))
    (s := ReplyState.made behindCut) (f := id) (b := []) (by decide +kernel)
  refine ⟨_, hok, ?_, by decide +kernel, ?_⟩
  · rw [hscheduled]
    decide +kernel
  · rintro ⟨-, hfires, -⟩
    rw [Fires, Timer.oldest, hscheduled] at hfires
    exact absurd hfires (by decide)

end Sample

end Bellman
