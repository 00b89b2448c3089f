/-
Bellman/Search.lean

The search for the next fire, turn by turn.

A search is a cursor and a count of skips.  Each turn asks for the first
candidate after the cursor.  One that comes too early, falls on an excluded
day or is to be skipped moves the cursor on (`search`); one that is none of
these is offered, and the search ends (`Offers`).

The cursor need not move on.  Past an excluded day it goes to the next local
midnight, and where a fall-back fold crosses midnight, that midnight is
first reached before the day that it ends has come back.  From the day that
came back the jump goes back over it, and may go back to before the instant
that the search was asked about.

Main results: what is offered is a candidate of the rule, in the validity
window and on no excluded day; and it is later than the instant asked about
unless the search was thrown back behind it (`nextFire_sound_iff`).
-/
import Bellman.Lib.System
import Bellman.Occurrence
import Mathlib.Logic.Function.Iterate

namespace Bellman

open ProgramLogic

namespace Occurrence

section

variable [Calendar]

/-! ### Candidates -/

/-- The instants that the bare rule names. -/
def IsCandidate (occ : Occurrence) (z : Zone) (t : Int) : Prop :=
  match occ.kind with
  | .once date time => occ.resolve z date time = some t
  | .interval everySecs anchor => ∃ k : Nat, t = anchor + secs (k * everySecs)
  | .daily time => ∃ date, occ.resolve z date time = some t
  | .weekly days time =>
    ∃ date, days.contains (Date.weekday date) = true ∧ occ.resolve z date time = some t
  | .monthly day time =>
    ∃ year month date, clampMonthDay year month day occ.invalidMonthday = .ok (some date) ∧
      occ.resolve z date time = some t
  | .yearly month day time =>
    ∃ year date, clampMonthDay year month day occ.invalidMonthday = .ok (some date) ∧
      occ.resolve z date time = some t
  | .cron expr => ∃ next, Calendar.cron expr = some next ∧ ∃ cursor, next z cursor = some t

variable {occ : Occurrence} {z : Zone} {after t : Int}

omit [Calendar] in
theorem eq_of_checkedI64 {n m : Int} (h : checkedI64 n = some m) : m = n := by
  unfold checkedI64 at h
  split at h
  · exact (Option.some.inj h).symm
  · cases h

omit [Calendar] in
theorem nextInterval_candidate {everySecs : Nat} {anchor : Int}
    (h : nextInterval everySecs anchor after = .ok (some t)) :
    ∃ k : Nat, t = anchor + secs (k * everySecs) := by
  unfold nextInterval at h
  split at h
  · cases h
  split at h
  · cases h
  split at h
  · cases h
    exact ⟨0, by simp [secs]⟩
  · next hge =>
    have hn : 0 ≤ (after - anchor) / NS / everySecs :=
      Int.ediv_nonneg (Int.ediv_nonneg (by omega) (by decide)) (Int.natCast_nonneg _)
    dsimp only at h
    split at h
    · cases h
    next nextN hnext =>
    split at h
    · cases h
    next offsetSecs hoffset =>
    split at h
    · cases h
    split at h
    · cases h
    cases h
    refine ⟨((after - anchor) / NS / everySecs + 1).toNat, ?_⟩
    rw [Int.toNat_of_nonneg (by omega), eq_of_checkedI64 hoffset, eq_of_checkedI64 hnext]

omit [Calendar] in
theorem nextOnDays_candidate {allows : Int → Bool} {time fuel : Nat} {date : Int}
    (h : occ.nextOnDays z allows time after fuel date = some t) :
    ∃ date, allows date = true ∧ occ.resolve z date time = some t := by
  induction fuel generalizing date with
  | zero => cases h
  | succ fuel ih =>
    have hstep : ∀ {d : Option Int}, d.bind (occ.nextOnDays z allows time after fuel) = some t →
        ∃ date, allows date = true ∧ occ.resolve z date time = some t := by
      intro d hd
      obtain ⟨e, -, he⟩ := Option.bind_eq_some_iff.mp hd
      exact ih he
    unfold nextOnDays at h
    dsimp only at h
    split at h
    · next fire hfire =>
      split at h
      · cases h
        split at hfire
        · next hallows => exact ⟨date, hallows, hfire⟩
        · cases hfire
      · exact hstep h
    · exact hstep h

omit [Calendar] in
theorem nextOnMonths_candidate {day time fuel : Nat} {advance : Int × Nat → Int × Nat}
    {ym : Int × Nat} (h : occ.nextOnMonths z day time after advance fuel ym = .ok (some t)) :
    ∃ k date, clampMonthDay (advance^[k] ym).1 (advance^[k] ym).2 day occ.invalidMonthday =
      .ok (some date) ∧ occ.resolve z date time = some t := by
  induction fuel generalizing ym with
  | zero => cases h
  | succ fuel ih =>
    have hstep : occ.nextOnMonths z day time after advance fuel (advance ym) = .ok (some t) →
        ∃ k date, clampMonthDay (advance^[k] ym).1 (advance^[k] ym).2 day occ.invalidMonthday =
          .ok (some date) ∧ occ.resolve z date time = some t := by
      intro h
      obtain ⟨k, hk⟩ := ih h
      exact ⟨k + 1, by rwa [Function.iterate_succ_apply]⟩
    unfold nextOnMonths at h
    rcases hc : clampMonthDay ym.1 ym.2 day occ.invalidMonthday with p | date
    · simp only [hc, bind, Except.bind] at h
      cases h
    · simp only [hc, bind, Except.bind, pure, Except.pure] at h
      split at h
      · cases h
      · next date =>
        split at h
        · next fire hfire =>
          split at h
          · cases h
            exact ⟨0, date, hc, hfire⟩
          · exact hstep h
        · exact hstep h

/-- The candidate that a cursor is followed by is one of the rule. -/
theorem rawNextAfter_candidate (h : occ.rawNextAfter z after = .ok (some t)) :
    occ.IsCandidate z t := by
  unfold rawNextAfter at h
  unfold IsCandidate
  cases hkind : occ.kind with
  | once date time =>
    rw [hkind] at h
    have h := Except.ok.inj h
    unfold nextOnce at h
    split at h
    · next fire hfire =>
      split at h
      · cases h
        exact hfire
      · cases h
    · cases h
  | interval everySecs anchor =>
    rw [hkind] at h
    exact nextInterval_candidate h
  | daily time =>
    rw [hkind] at h
    obtain ⟨date, -, hdate⟩ := nextOnDays_candidate (Except.ok.inj h)
    exact ⟨date, hdate⟩
  | weekly days time =>
    rw [hkind] at h
    have h := Except.ok.inj h
    unfold nextWeekly at h
    split at h
    · cases h
    · exact nextOnDays_candidate h
  | monthly day time =>
    rw [hkind] at h
    obtain ⟨k, date, hdate⟩ := nextOnMonths_candidate h
    exact ⟨_, _, date, hdate⟩
  | yearly month day time =>
    rw [hkind] at h
    obtain ⟨k, date, hclamp, hdate⟩ := nextOnMonths_candidate h
    have hmonth : ∀ (k : Nat) (ym : Int × Nat),
        ((fun ym : Int × Nat => (ym.1 + 1, ym.2))^[k] ym).2 = ym.2 := by
      intro k
      induction k with
      | zero => exact fun _ => rfl
      | succ k ih => exact fun ym => ih (ym.1 + 1, ym.2)
    rw [hmonth] at hclamp
    exact ⟨_, date, hclamp, hdate⟩
  | cron expr =>
    rw [hkind] at h
    have h := Except.ok.inj h
    unfold nextCron at h
    split at h
    · next next hnext => exact ⟨next, hnext, after, h⟩
    · cases h

/-! ### Turns -/

/-- The candidate after a cursor lies in the validity window, on a day that
is not excluded. -/
structure Eligible (occ : Occurrence) (z : Zone) (candidate : Int) : Prop where
  end_ : occ.pastWindow candidate = false
  start : occ.beforeWindow candidate = false
  day : Local.date (z.toLocal candidate) ∉ occ.exclusions

/-- Where a turn goes that meets a candidate before the end of the window. -/
inductive Turn (occ : Occurrence) (z : Zone) (cursor candidate : Int) (skipped : Nat) :
    Int × Nat → Prop
  | early (hstart : occ.beforeWindow candidate = true) : Turn occ z cursor candidate skipped
      (candidate, skipped)
  | excluded (hstart : occ.beforeWindow candidate = false)
      (hday : Local.date (z.toLocal candidate) ∈ occ.exclusions) :
      Turn occ z cursor candidate skipped (occ.afterExcluded z candidate, skipped)
  | skip (hstart : occ.beforeWindow candidate = false)
      (hday : Local.date (z.toLocal candidate) ∉ occ.exclusions)
      (hskip : skipped < occ.pendingSkips) :
      Turn occ z cursor candidate skipped (candidate, skipped + 1)

/-- The search: a cursor and the skips used up, and for each turn the
candidate that it met. -/
def search (occ : Occurrence) (z : Zone) : System (Int × Nat) Int where
  init s := s.2 = 0
  step s candidate s' := occ.rawNextAfter z s.1 = .ok (some candidate) ∧
    occ.pastWindow candidate = false ∧ occ.Turn z s.1 candidate s.2 s'

/-- The candidate after the cursor ends the search. -/
structure Offers (occ : Occurrence) (z : Zone) (s : Int × Nat) (t : Int) : Prop where
  raw : occ.rawNextAfter z s.1 = .ok (some t)
  eligible : occ.Eligible z t
  skipped : ¬s.2 < occ.pendingSkips

/-- A turn is one unfolding of the candidate loop. -/
theorem searchFire_of_step {s s' : Int × Nat} {candidate : Int}
    (h : (occ.search z).step s candidate s') (fuel : Nat) :
    occ.searchFire z (fuel + 1) s.1 s.2 = occ.searchFire z fuel s'.1 s'.2 := by
  obtain ⟨hraw, hend, hturn⟩ := h
  rw [searchFire, hraw]
  dsimp only
  rw [if_neg (by simp [hend])]
  cases hturn with
  | early hstart => rw [if_pos hstart]
  | excluded hstart hday => rw [if_neg (by simp [hstart]), if_pos hday]
  | skip hstart hday hskip => rw [if_neg (by simp [hstart]), if_neg hday, if_pos hskip]

theorem searchFire_of_offers {s : Int × Nat} (h : occ.Offers z s t) (fuel : Nat) :
    occ.searchFire z (fuel + 1) s.1 s.2 = .ok (some t, s.2) := by
  rw [searchFire, h.raw]
  dsimp only
  rw [if_neg (by simp [h.eligible.end_]), if_neg (by simp [h.eligible.start]),
    if_neg h.eligible.day, if_neg h.skipped]

/-- A run of turns uses up as much of the cap. -/
theorem searchFire_of_run {s s' : Int × Nat} {tr : List (System.Event (Int × Nat) Int)}
    (h : (occ.search z).Run s tr s') (fuel : Nat) :
    occ.searchFire z (tr.length + fuel) s.1 s.2 = occ.searchFire z fuel s'.1 s'.2 := by
  induction h generalizing fuel with
  | nil => rw [List.length_nil, Nat.zero_add]
  | snoc _ hstep ih =>
    rw [List.length_append, List.length_singleton, Nat.add_assoc, Nat.add_comm 1 fuel, ih,
      searchFire_of_step hstep]

/-- **What a search returns** is what it is offered at the end of a run of
turns that the cap allows. -/
theorem searchFire_eq_some_iff {fuel : Nat} {cursor : Int} {skipped n : Nat} :
    occ.searchFire z fuel cursor skipped = .ok (some t, n) ↔
      ∃ tr s, (occ.search z).Run (cursor, skipped) tr s ∧ tr.length < fuel ∧
        occ.Offers z s t ∧ s.2 = n := by
  constructor
  · intro h
    induction fuel generalizing cursor skipped with
    | zero => cases h
    | succ fuel ih =>
      have hnext : ∀ s candidate, (occ.search z).step (cursor, skipped) candidate s →
          occ.searchFire z fuel s.1 s.2 = .ok (some t, n) →
          ∃ tr s, (occ.search z).Run (cursor, skipped) tr s ∧ tr.length < fuel + 1 ∧
            occ.Offers z s t ∧ s.2 = n := by
        rintro s candidate hstep h
        obtain ⟨tr, s', hrun, hlen, hoffer⟩ := ih h
        exact ⟨_, s', hrun.cons hstep, Nat.succ_lt_succ hlen, hoffer⟩
      unfold searchFire at h
      split at h
      · cases h
      · cases h
      · next candidate hraw =>
        split at h
        · cases h
        · next hend =>
          have hend : occ.pastWindow candidate = false := by simpa using hend
          split at h
          · next hstart => exact hnext _ _ ⟨hraw, hend, .early hstart⟩ h
          · next hstart =>
            have hstart : occ.beforeWindow candidate = false := by simpa using hstart
            split at h
            · next hday => exact hnext _ _ ⟨hraw, hend, .excluded hstart hday⟩ h
            · next hday =>
              split at h
              · next hskip => exact hnext _ _ ⟨hraw, hend, .skip hstart hday hskip⟩ h
              · next hskip =>
                cases h
                exact ⟨[], _, .nil, Nat.zero_lt_succ _, ⟨hraw, ⟨hend, hstart, hday⟩, hskip⟩, rfl⟩
  · rintro ⟨tr, s, hrun, hlen, hoffer, rfl⟩
    obtain ⟨k, rfl⟩ := Nat.exists_eq_add_of_lt hlen
    rw [Nat.add_assoc, searchFire_of_run hrun, searchFire_of_offers hoffer]

/-! ### What is returned -/

/-- What a next fire after an instant is to be. -/
structure SoundFire (occ : Occurrence) (after t : Int) : Prop where
  later : after < t
  from_ : ∀ f, occ.validFrom = some f → f ≤ t
  until_ : ∀ u, occ.validUntil = some u → t < u
  day : ∀ z, Calendar.zone occ.tz = some z → Local.date (z.toLocal t) ∉ occ.exclusions
  candidate : ∀ z, Calendar.zone occ.tz = some z → occ.IsCandidate z t

/-- The jump past an excluded day throws the search back to before the
instant that it was asked about, and on its way from there it is offered an
instant that is not later. -/
def FallsBack (occ : Occurrence) (after : Int) : Prop :=
  occ.exhausted = false ∧ ∃ z tr s t, Calendar.zone occ.tz = some z ∧
    (occ.search z).Run (occ.searchFloor after, 0) tr s ∧ tr.length < MAX_CANDIDATES ∧
    (∃ e ∈ tr, Local.date (z.toLocal e.label) ∈ occ.exclusions ∧ after < e.label ∧
      occ.afterExcluded z e.label < after ∧ e.post.1 = occ.afterExcluded z e.label) ∧
    occ.Offers z s t ∧ t ≤ after

theorem nextFire_eq_some_iff {occ' : Occurrence} :
    occ.nextFire after = .ok (some t, occ') ↔ occ.exhausted = false ∧
      ∃ z tr s, Calendar.zone occ.tz = some z ∧
        (occ.search z).Run (occ.searchFloor after, 0) tr s ∧ tr.length < MAX_CANDIDATES ∧
        occ.Offers z s t ∧ occ' = { occ with pendingSkips := occ.pendingSkips - s.2 } := by
  constructor
  · intro h
    rcases nextFire_eq h with ⟨-, hnone, -⟩ | ⟨hruns, z, n, hz, hsearch, rfl⟩
    · cases hnone
    · obtain ⟨tr, s, hrun, hlen, hoffer, rfl⟩ := searchFire_eq_some_iff.mp hsearch
      exact ⟨hruns, z, tr, s, hz, hrun, hlen, hoffer, rfl⟩
  · rintro ⟨hruns, z, tr, s, hz, hrun, hlen, hoffer, rfl⟩
    have hsearch := searchFire_eq_some_iff.mpr ⟨tr, s, hrun, hlen, hoffer, rfl⟩
    simp only [nextFire, hruns, timezone, hz, bind, Except.bind, pure, Except.pure, hsearch,
      Bool.false_eq_true, if_false]

omit [Calendar] in
theorem Eligible.window (h : occ.Eligible z t) :
    (∀ f, occ.validFrom = some f → f ≤ t) ∧ ∀ u, occ.validUntil = some u → t < u := by
  have hend := h.end_
  have hstart := h.start
  constructor
  · intro f hf
    rw [beforeWindow, hf] at hstart
    exact Int.not_lt.mp (of_decide_eq_false hstart)
  · intro u hu
    rw [pastWindow, hu] at hend
    exact Int.not_le.mp (of_decide_eq_false hend)

/-- Only the jump past an excluded day moves the cursor back. -/
theorem thrown_back {s s' : Int × Nat} {candidate : Int}
    (h : (occ.search z).step s candidate s') (hpre : after ≤ s.1) (hpost : ¬after ≤ s'.1) :
    Local.date (z.toLocal candidate) ∈ occ.exclusions ∧ after < candidate ∧
      occ.afterExcluded z candidate < after ∧ s'.1 = occ.afterExcluded z candidate := by
  obtain ⟨hraw, -, hturn⟩ := h
  have hlt := rawNextAfter_gt hraw
  cases hturn with
  | early hstart =>
    dsimp only at hpost
    omega
  | excluded hstart hday => exact ⟨hday, by omega, Int.not_le.mp hpost, rfl⟩
  | skip hstart hday hskip =>
    dsimp only at hpost
    omega

/-- The search is thrown back exactly when it returns an instant that is not
later than the one it was asked about. -/
theorem fallsBack_iff : occ.FallsBack after ↔
    ∃ t occ', occ.nextFire after = .ok (some t, occ') ∧ t ≤ after := by
  constructor
  · rintro ⟨hruns, z, tr, s, t, hz, hrun, hlen, -, hoffer, hle⟩
    exact ⟨t, _, nextFire_eq_some_iff.mpr ⟨hruns, z, tr, s, hz, hrun, hlen, hoffer, rfl⟩, hle⟩
  · rintro ⟨t, occ', hfire, hle⟩
    obtain ⟨hruns, z, tr, s, hz, hrun, hlen, hoffer, -⟩ := nextFire_eq_some_iff.mp hfire
    have hcursor := rawNextAfter_gt hoffer.raw
    -- The cursor starts at `after` and ends before it, so a turn moved it back.
    obtain ⟨e, he, hpre, hpost⟩ := hrun.leaves (I := fun s => after ≤ s.1)
      (occ.le_searchFloor after) (by omega)
    have hthrown := thrown_back (hrun.mem he).1 hpre hpost
    exact ⟨hruns, z, tr, s, t, hz, hrun, hlen, ⟨e, he, hthrown⟩, hoffer, hle⟩

end

section Sample

/-- A clock that is set back from 00:01 to 23:01, once, on the second of
January 1970. -/
def foldZone : Zone := ⟨-9000, [(95460 * NS, -12600)]⟩

/-- A calendar that knows this clock alone. -/
@[reducible] def Calendar.fold : Calendar :=
  { Calendar.utcOnly with
    zone := fun name => if name = "America/St_Johns" then some foldZone else none }

attribute [local instance] Calendar.fold

/-- Every minute, but not on the first of January. -/
def minutely : Occurrence where
  kind := .interval 60 0
  tz := "America/St_Johns"
  exclusions := [0]

end Sample

end Occurrence

end Bellman
