/-
Bellman/Backlog.lean

The backlog of a timer: the instants that its schedule names after a cursor,
up to now.

A row that has a next fire has no skip pending, and while it is handled its
schedule stays as it is but for the count of runs.  So its instants are the
walk of one function, `firing`:

    missed now c = [firing c, firing (firing c), …]        up to now

and every loop of the handling walks a beginning of it.  A row whose last
fire is set to the place where a loop stopped, has the rest of the backlog
ahead, and is due again exactly when there is a rest (`firing_last_gt`).
-/
import Bellman.Edits
import Bellman.Misfire
import Bellman.Lib.Walk
import Mathlib.Data.Int.Interval

namespace Bellman

open ProgramLogic

namespace Occurrence

variable [Calendar] {occ : Occurrence} {now c : Int}

/-- The instant that a search comes to; none where it panics. -/
def firing (occ : Occurrence) (c : Int) : Option Int :=
  match occ.nextFire c with
  | .ok found => found.1
  | .error _ => none

/-- The instants after the cursor, up to now. -/
def missed (occ : Occurrence) (now c : Int) : List Int := Walk.backlog occ.firing now c

theorem firing_of_ok {fire : Option Int} {occ' : Occurrence}
    (h : occ.nextFire c = .ok (fire, occ')) : occ.firing c = fire := by
  rw [firing, h]

theorem firing_climbs (hj : occ.JumpsForward) : Walk.Climbs occ.firing := by
  intro c t h
  unfold firing at h
  split at h
  · next found hfound =>
    obtain ⟨fire, occ'⟩ := found
    obtain rfl : fire = some t := h
    exact nextFire_gt hj hfound
  · cases h

/-- Without a skip pending a search leaves the schedule as it is. -/
theorem nextFire_plain {fire : Option Int} {occ' : Occurrence} (hskips : occ.pendingSkips = 0)
    (h : occ.nextFire c = .ok (fire, occ')) : occ' = occ := by
  obtain ⟨n, rfl⟩ := nextFire_frame h
  rw [hskips, Nat.zero_sub, ← hskips]

/-! ### Runs that are counted -/

omit [Calendar] in
theorem exhausted_recordRun (h : occ.exhausted = true) : occ.recordRun.exhausted = true := by
  unfold exhausted recordRun at *
  cases hm : occ.maxRuns with
  | none => simp [hm] at h
  | some max =>
    simp only [hm, decide_eq_true_eq] at h ⊢
    split
    · exact h
    · next hne =>
      rw [UInt64.le_iff_toNat_le] at h ⊢
      have hlt := occ.runsDone.toNat_lt
      have hne' : occ.runsDone.toNat ≠ 18446744073709551615 := fun he => hne (UInt64.toNat.inj he)
      rw [UInt64.toNat_add]
      have hone : (1 : UInt64).toNat = 1 := rfl
      omega

theorem firing_of_exhausted (h : occ.exhausted = true) (c : Int) : occ.firing c = none := by
  unfold firing nextFire
  simp [h]

/-- A counted run changes the instants only by the last one that the cap
allows. -/
theorem firing_recordRun (h : occ.recordRun.exhausted = false) :
    occ.recordRun.firing = occ.firing := by
  have he : occ.exhausted = false := by
    cases hex : occ.exhausted with
    | false => rfl
    | true => exact absurd (exhausted_recordRun hex) (by simp [h])
  have hadmitted : ∀ z fuel c, occ.recordRun.admitted z fuel c = occ.admitted z fuel c := by
    intro z fuel
    have hraw : ∀ c, occ.recordRun.rawNextAfter z c = occ.rawNextAfter z c := by
      have hresolve : occ.recordRun.resolve = occ.resolve := rfl
      exact rawNextAfter_congr rfl hresolve rfl
    induction fuel with
    | zero => exact fun _ => rfl
    | succ fuel ih =>
      intro c
      unfold admitted
      rw [hraw]
      cases occ.rawNextAfter z c with
      | error p => rfl
      | ok found =>
        cases found with
        | none => rfl
        | some candidate =>
          dsimp only
          rw [ih, ih]
          rfl
  funext c
  unfold firing
  cases hz : Calendar.zone occ.tz with
  | none =>
    have hz' : Calendar.zone occ.recordRun.tz = none := hz
    simp [nextFire, timezone, h, he, hz, hz', bind, Except.bind]
  | some z =>
    have hskips : occ.recordRun.pendingSkips = occ.pendingSkips := rfl
    have hfloor : occ.recordRun.searchFloor c = occ.searchFloor c := rfl
    rw [nextFire_choose h hz, nextFire_choose he hz, hadmitted, hskips, hfloor]
    cases choose occ.pendingSkips (occ.admitted z MAX_CANDIDATES (occ.searchFloor c)) with
    | error p => rfl
    | ok out => rfl

/-! ### The loops -/

/-- `walk_missed` walks the beginning of the backlog. -/
theorem walkFrom_eq (hj : occ.JumpsForward) (hskips : occ.pendingSkips = 0) {n : Nat}
    {l : List Int} (h : walkFrom now n occ c = .ok l) : l = (occ.missed now c).take n := by
  rw [missed, ← Walk.upTo_eq_take (firing_climbs hj)]
  induction n generalizing c l with
  | zero => exact (Except.ok.inj h).symm
  | succ n ih =>
    unfold walkFrom at h
    cases hnext : occ.nextFire c with
    | error p => simp [hnext, bind, Except.bind] at h
    | ok found =>
      obtain ⟨fire, occ'⟩ := found
      obtain rfl := nextFire_plain hskips hnext
      have hfiring := firing_of_ok hnext
      simp only [hnext, bind, Except.bind, pure, Except.pure] at h
      cases fire with
      | none =>
        have hs : Walk.step occ'.firing now c = none := by
          rw [Walk.step_eq_none, hfiring]
          exact fun _ ht => nomatch ht
        rw [Walk.upTo_nil hs]
        exact (Except.ok.inj h).symm
      | some t =>
        dsimp only at h
        split at h
        · next hlt =>
          have hs : Walk.step occ'.firing now c = none := by
            rw [Walk.step_eq_none, hfiring]
            rintro u ⟨⟩
            exact hlt
          rw [Walk.upTo_nil hs]
          exact (Except.ok.inj h).symm
        · next hle =>
          have hs := Walk.step_eq_some.mpr ⟨hfiring, Int.not_lt.mp hle⟩
          rw [Walk.upTo_cons hs]
          cases hrest : walkFrom now n occ' t with
          | error p => simp [hrest] at h
          | ok rest =>
            simp only [hrest] at h
            rw [← Except.ok.inj h, ih hrest]

/-- A walk that ends before its cap is all of the backlog. -/
theorem missed_of_walkFrom (hj : occ.JumpsForward) (hskips : occ.pendingSkips = 0) {n : Nat}
    {l : List Int} (h : walkFrom now n occ c = .ok l) (hlen : l.length < n) :
    occ.missed now c = l := by
  have htake := walkFrom_eq hj hskips h
  have hlength := congrArg List.length htake
  rw [List.length_take] at hlength
  rw [htake, List.take_of_length_le (by omega)]

/-- `advance_past_now` stops at the last instant that its cap lets it come
to. -/
theorem advanceWalk_eq (hj : occ.JumpsForward) (hskips : occ.pendingSkips = 0) {n : Nat}
    {last last' : Option Int} {occ' : Occurrence}
    (h : advanceWalk now n occ c last = .ok (last', occ')) :
    occ' = occ ∧ last' = ((occ.missed now c).take n).getLast?.or last := by
  rw [missed, ← Walk.upTo_eq_take (firing_climbs hj)]
  induction n generalizing c last with
  | zero =>
    cases h
    exact ⟨rfl, rfl⟩
  | succ n ih =>
    unfold advanceWalk at h
    cases hnext : occ.nextFire c with
    | error p => simp [hnext, bind, Except.bind] at h
    | ok found =>
      obtain ⟨fire, occ₁⟩ := found
      obtain rfl := nextFire_plain hskips hnext
      have hfiring := firing_of_ok hnext
      simp only [hnext, bind, Except.bind, pure, Except.pure] at h
      cases fire with
      | none =>
        have hs : Walk.step occ₁.firing now c = none := by
          rw [Walk.step_eq_none, hfiring]
          exact fun _ ht => nomatch ht
        rw [Walk.upTo_nil hs]
        cases h
        exact ⟨rfl, rfl⟩
      | some t =>
        dsimp only at h
        split at h
        · next hlt =>
          have hs : Walk.step occ₁.firing now c = none := by
            rw [Walk.step_eq_none, hfiring]
            rintro u ⟨⟩
            exact hlt
          rw [Walk.upTo_nil hs]
          cases h
          exact ⟨rfl, rfl⟩
        · next hle =>
          have hs := Walk.step_eq_some.mpr ⟨hfiring, Int.not_lt.mp hle⟩
          obtain ⟨hocc, hlast⟩ := ih h
          refine ⟨hocc, ?_⟩
          rw [Walk.upTo_cons hs, hlast, List.getLast?_cons]
          cases (Walk.upTo occ₁.firing now n t).getLast? with
          | none => rfl
          | some u => rfl

/-- Where a loop stopped, the row is due again exactly when it did not come
to the end. -/
theorem firing_last_gt (hj : occ.JumpsForward) (now now' : Int) (n : Nat) (c : Int) :
    (∀ t, occ.firing (((occ.missed now' c).take n).getLastD c) = some t → now < t) ↔
      (occ.missed now c).length ≤ ((occ.missed now' c).take n).length := by
  have hclimbs := firing_climbs hj
  rw [← Walk.step_eq_none, ← Walk.backlog_eq_nil hclimbs, missed, missed,
    Walk.backlog_last hclimbs, List.drop_eq_nil_iff]

end Occurrence

end Bellman
