/-
Bellman/Windows.lean

The windows of the calendar.

A window runs from the local midnight of its first day to the local midnight
after its last one.  What it shows is sifted twice, by instant and by local
date:

    start ≤ fire < end     and     from ≤ date of fire ≤ to

The two agree as long as the clock passes each midnight once: what comes
before the instant is the day before, and what comes from it on is the day
itself.  A midnight that the clock leaves out has no instant; one that the
clock is set back over leaves fires between the two, on a day that is over
already.

Main result: of two adjacent windows exactly one shows a fire, on the day of
its local date, if and only if the clock passes the three midnights once
(`partitions_iff`).
-/
import Bellman.Dialog
import Bellman.Interval
import Bellman.Lib.Faults
import Bellman.Search
import Bellman.Zones

namespace Bellman

open ProgramLogic

namespace Windows

/-! ### Bounds -/

/-- What a calendar function returns: a value or an error, unless it panics. -/
abbrev Built (α : Type) : Type := ExceptT String (Except Panic) α

/-- `ok_or_else`. -/
def okOr {α : Type} (o : Option α) (error : String) : Built α :=
  match o with
  | some a => pure a
  | none => throw error

/-- `NaiveDate + Duration::days(n)`, which panics when out of range. -/
def addDays (date n : Int) : Except Panic Int :=
  if Date.min ≤ date + n ∧ date + n ≤ Date.max then .ok (date + n)
  else .error (.dateOverflow (date + n))

/-- `DateTime + Duration`, which panics when out of range. -/
def shiftUtc (t d : Int) : Except Panic Int :=
  if minUtc ≤ t + d ∧ t + d ≤ Occurrence.maxUtc then .ok (t + d)
  else .error (.dateTimeOverflow (t + d))

/-- The instant is one of `DateTime<Utc>`. -/
def checkedUtc (t : Int) : Option Int :=
  if minUtc ≤ t ∧ t ≤ Occurrence.maxUtc then some t else none

/-- `.and_local_timezone(tz).earliest()` of the start of a day, and where
there is none `.latest()`. -/
def midnight (z : Zone) (date : Int) : Option Int :=
  match z.fromLocal (Date.at date 0) with
  | .single t => checkedUtc t
  | .ambiguous earliest latest =>
    -- The readings are dropped together.
    (checkedUtc latest).bind fun _ => checkedUtc earliest
  | .none => none

def showDate (date : Int) : String := String.ofList (fmtDate date)

def localRangeBounds (z : Zone) (from_ to_ : Int) : Built (Int × Int) := do
  let start ← okOr (midnight z from_) s!"cannot resolve local midnight for {showDate from_}"
  let endExclusive ← addDays to_ 1
  let end_ ← okOr (midnight z endExclusive) s!"cannot resolve local end for {showDate to_}"
  return (start, end_)

/-! ### Rows -/

/-- `date_naive` of an instant in a zone, which panics when out of range. -/
def dateNaive (z : Zone) (t : Int) : Except Panic Int :=
  if minUtc ≤ z.toLocal t ∧ z.toLocal t ≤ Occurrence.maxUtc then .ok (Local.date (z.toLocal t))
  else .error (.dateTimeOverflow (z.toLocal t))

/-- The fires that a window shows, with their days.  (The truth window passes
over what is not after the present instant first.) -/
def windowRows (z : Zone) (from_ to_ start end_ : Int) : List Int → Except Panic (List (Int × Int))
  | [] => .ok []
  | fire :: fires =>
    if end_ ≤ fire then .ok []
    else if fire < start then windowRows z from_ to_ start end_ fires
    else do
      let date ← dateNaive z fire
      let rows ← windowRows z from_ to_ start end_ fires
      return if date < from_ ∨ to_ < date then rows else (fire, date) :: rows

section

variable {z : Zone} {from_ to_ next start mid end_ date t lo hi : Int} {fires : List Int}
  {rows : List (Int × Int)}

theorem addDays_eq_ok {n m : Int} :
    addDays date n = .ok m ↔ (Date.min ≤ m ∧ m ≤ Date.max) ∧ date + n = m := by
  unfold addDays
  constructor
  · intro h
    split at h
    · next hrange =>
      cases h
      exact ⟨hrange, rfl⟩
    · cases h
  · rintro ⟨hrange, rfl⟩
    exact if_pos hrange

theorem shiftUtc_eq_ok {t d u : Int} : shiftUtc t d = .ok u ↔
    (minUtc ≤ t + d ∧ t + d ≤ Occurrence.maxUtc) ∧ t + d = u := by
  unfold shiftUtc
  split
  · next h => simp [h]
  · next h => simp [h]

theorem returns_okOr_iff {α : Type} {o : Option α} {e : String} {a : α} :
    Returns (okOr o e) a ↔ o = some a := by
  cases o with
  | none => exact ⟨nofun, nofun⟩
  | some b =>
    rw [Option.some.injEq]
    exact returns_pure_iff

theorem localRangeBounds_iff : Returns (localRangeBounds z from_ to_) (start, end_) ↔
    midnight z from_ = some start ∧ (Date.min ≤ to_ + 1 ∧ to_ + 1 ≤ Date.max) ∧
      midnight z (to_ + 1) = some end_ := by
  unfold localRangeBounds
  simp only [returns_bind_iff, returns_okOr_iff, returns_lift_iff, returns_pure_iff,
    addDays_eq_ok, Prod.mk.injEq]
  constructor
  · rintro ⟨s, hs, _, ⟨hrange, rfl⟩, e, he, rfl, rfl⟩
    exact ⟨hs, hrange, he⟩
  · rintro ⟨hs, hrange, he⟩
    exact ⟨start, hs, to_ + 1, ⟨hrange, rfl⟩, end_, he, rfl, rfl⟩

/-- A midnight is an instant that the clock reads as the start of the day. -/
theorem toLocal_midnight {m : Int} (h : midnight z date = some m) :
    z.toLocal m = Date.at date 0 := by
  have hchecked : ∀ {u}, checkedUtc u = some m → u = m := by
    intro u hu
    unfold checkedUtc at hu
    split at hu
    · exact Option.some.inj hu
    · cases hu
  unfold midnight at h
  split at h
  · next u hu =>
    rw [← hchecked h]
    exact Zone.fromLocal_single hu
  · next e l hel =>
    obtain ⟨-, -, h⟩ := Option.bind_eq_some_iff.mp h
    rw [← hchecked h]
    exact (Zone.fromLocal_ambiguous hel).1
  · cases h

/-! ### What is shown -/

/-- The local day of an instant. -/
def day (z : Zone) (t : Int) : Int := Local.date (z.toLocal t)

/-- The wall clock at the instant is within the calendar. -/
def OnClock (z : Zone) (t : Int) : Prop :=
  minUtc ≤ z.toLocal t ∧ z.toLocal t ≤ Occurrence.maxUtc

theorem dateNaive_eq_ok : dateNaive z t = .ok date ↔ OnClock z t ∧ day z t = date := by
  unfold dateNaive OnClock day
  split
  · next h => simp [h]
  · next h => simp [h]

/-- Of fires in order a window shows those between its bounds whose day is
one of its days. -/
theorem windowRows_spec (from_ to_ : Int) (hsorted : fires.Pairwise (· < ·))
    (hclock : ∀ t ∈ fires, start ≤ t → t < end_ → OnClock z t) :
    ∃ rows, windowRows z from_ to_ start end_ fires = .ok rows ∧
      ∀ t date, (t, date) ∈ rows ↔ t ∈ fires ∧ (start ≤ t ∧ t < end_) ∧ day z t = date ∧
        from_ ≤ date ∧ date ≤ to_ := by
  induction fires with
  | nil => exact ⟨[], rfl, by simp⟩
  | cons fire fires ih =>
    obtain ⟨hlt, hsorted⟩ := List.pairwise_cons.mp hsorted
    obtain ⟨rows, hrows, hmem⟩ := ih hsorted fun t ht => hclock t (List.mem_cons_of_mem _ ht)
    unfold windowRows
    by_cases hend : end_ ≤ fire
    · -- The later fires are past the end as well.
      refine ⟨[], if_pos hend, fun t date => iff_of_false List.not_mem_nil ?_⟩
      rintro ⟨ht, ⟨-, hbefore⟩, -⟩
      rcases List.mem_cons.mp ht with rfl | ht
      · omega
      · have hlater := hlt t ht
        omega
    rw [if_neg hend]
    by_cases hstart : fire < start
    · rw [if_pos hstart]
      refine ⟨rows, hrows, fun t date => (hmem t date).trans ?_⟩
      rw [List.mem_cons]
      refine ⟨fun h => ⟨.inr h.1, h.2⟩, ?_⟩
      rintro ⟨rfl | ht, h⟩
      · omega
      · exact ⟨ht, h⟩
    rw [if_neg hstart]
    have hfire := hclock fire List.mem_cons_self (by omega) (by omega)
    rw [dateNaive_eq_ok.mpr ⟨hfire, rfl⟩, hrows]
    refine ⟨_, rfl, fun t date => ?_⟩
    rw [List.mem_cons]
    by_cases hout : day z fire < from_ ∨ to_ < day z fire
    · rw [if_pos hout, hmem]
      refine ⟨fun h => ⟨.inr h.1, h.2⟩, ?_⟩
      rintro ⟨rfl | ht, h⟩
      · obtain ⟨-, rfl, h⟩ := h
        omega
      · exact ⟨ht, h⟩
    · rw [if_neg hout, List.mem_cons, hmem]
      constructor
      · rintro (h | ⟨ht, h⟩)
        · obtain ⟨rfl, rfl⟩ := Prod.mk.inj h
          exact ⟨.inl rfl, by omega, rfl, by omega⟩
        · exact ⟨.inr ht, h⟩
      · rintro ⟨rfl | ht, h⟩
        · obtain ⟨-, rfl, -⟩ := h
          exact .inl rfl
        · exact .inr ⟨ht, h⟩

/-- Sifting aborts when a fire of the window is not on the clock; what comes
after the first fire past the window is not looked at. -/
theorem windowRows_ok_iff : (∃ rows, windowRows z from_ to_ start end_ fires = .ok rows) ↔
    ∀ t ∈ fires.takeWhile (· < end_), start ≤ t → OnClock z t := by
  induction fires with
  | nil => exact iff_of_true ⟨[], rfl⟩ (fun _ h => absurd h List.not_mem_nil)
  | cons fire fires ih =>
    unfold windowRows
    by_cases hend : end_ ≤ fire
    · rw [if_pos hend, List.takeWhile_cons_of_neg (by simpa using hend)]
      exact iff_of_true ⟨[], rfl⟩ (fun _ h => absurd h List.not_mem_nil)
    rw [if_neg hend, List.takeWhile_cons_of_pos (by simpa using hend), List.forall_mem_cons, ← ih]
    by_cases hstart : fire < start
    · rw [if_pos hstart]
      exact (and_iff_right fun h => absurd hstart (Int.not_lt.mpr h)).symm
    rw [if_neg hstart]
    cases hdate : dateNaive z fire with
    | error p =>
      refine iff_of_false (fun ⟨_, h⟩ => nomatch h) fun h => ?_
      have hclock := h.1 (Int.not_lt.mp hstart)
      cases hdate.symm.trans (dateNaive_eq_ok.mpr ⟨hclock, rfl⟩)
    | ok date =>
      rw [and_iff_right fun _ => (dateNaive_eq_ok.mp hdate).1]
      cases hrest : windowRows z from_ to_ start end_ fires with
      | error p => exact iff_of_false (fun ⟨_, h⟩ => nomatch h) fun ⟨_, h⟩ => nomatch h
      | ok rows => exact iff_of_true ⟨_, rfl⟩ ⟨rows, rfl⟩

/-- One fire on its own. -/
theorem windowRows_singleton (h : windowRows z from_ to_ start end_ [t] = .ok rows)
    (hstart : start ≤ t) (hend : t < end_) : OnClock z t := by
  unfold windowRows at h
  rw [if_neg (by omega), if_neg (by omega)] at h
  cases hdate : dateNaive z t with
  | error p =>
    rw [hdate] at h
    cases h
  | ok date => exact (dateNaive_eq_ok.mp hdate).1

/-! ### Adjacent windows -/

/-- Exactly one of two windows shows the fire, on the day of its local date. -/
def ShownOnce (z : Zone) (rows rows' : List (Int × Int)) (t : Int) : Prop :=
  ((t, day z t) ∈ rows ∧ ∀ date, (t, date) ∉ rows') ∨
    ((t, day z t) ∈ rows' ∧ ∀ date, (t, date) ∉ rows)

/-- The windows from `from_` to `to_` and from there to `next` share the time
between them. -/
def Partitions (z : Zone) (from_ to_ next : Int) : Prop :=
  ∃ start mid end_, Returns (localRangeBounds z from_ to_) (start, mid) ∧
    Returns (localRangeBounds z (to_ + 1) next) (mid, end_) ∧
    ∀ fires : List Int, fires.Pairwise (· < ·) → ∃ rows rows',
      windowRows z from_ to_ start mid fires = .ok rows ∧
      windowRows z (to_ + 1) next mid end_ fires = .ok rows' ∧
      ∀ t ∈ fires, from_ ≤ day z t → day z t ≤ next → ShownOnce z rows rows' t

/-- Over the days from `lo` to `hi`, the clock passes the midnight at an
instant, and from then on it is that day or a later one. -/
def PassedAt (z : Zone) (date lo hi m : Int) : Prop :=
  midnight z date = some m ∧ ∀ t, lo ≤ day z t → day z t ≤ hi → (m ≤ t ↔ date ≤ day z t)

/-- The clock passes the three midnights once each, within the calendar. -/
def PassedOnce (z : Zone) (from_ to_ next : Int) : Prop :=
  (Date.min ≤ to_ + 1 ∧ next + 1 ≤ Date.max) ∧ ∃ start mid end_,
    (PassedAt z from_ from_ to_ start ∧ PassedAt z (to_ + 1) from_ next mid ∧
      PassedAt z (next + 1) (to_ + 1) next end_) ∧
    ∀ t, start ≤ t → t < end_ → OnClock z t

theorem day_midnight {m : Int} (h : midnight z date = some m) : day z m = date := by
  rw [day, toLocal_midnight h]
  unfold Local.date Date.at DAY
  omega

/-- A row is a fire between the bounds, on its day. -/
theorem windowRows_sound (h : windowRows z from_ to_ start end_ fires = .ok rows)
    (hmem : (t, date) ∈ rows) :
    (start ≤ t ∧ t < end_) ∧ day z t = date ∧ from_ ≤ date ∧ date ≤ to_ := by
  induction fires generalizing rows with
  | nil =>
    cases h
    exact absurd hmem List.not_mem_nil
  | cons fire fires ih =>
    unfold windowRows at h
    split at h
    · cases h
      exact absurd hmem List.not_mem_nil
    · split at h
      · exact ih h hmem
      · cases hdate : dateNaive z fire with
        | error p =>
          rw [hdate] at h
          cases h
        | ok d =>
          cases hrest : windowRows z from_ to_ start end_ fires with
          | error p =>
            rw [hdate, hrest] at h
            cases h
          | ok rest =>
            rw [hdate, hrest] at h
            obtain rfl := Except.ok.inj h
            split at hmem
            · exact ih hrest hmem
            · rcases List.mem_cons.mp hmem with heq | hmem
              · obtain ⟨rfl, rfl⟩ := Prod.mk.inj heq
                exact ⟨by omega, (dateNaive_eq_ok.mp hdate).2, by omega⟩
              · exact ih hrest hmem

theorem PassedOnce.partitions (hfrom : from_ ≤ to_) (hnext : to_ < next)
    (h : PassedOnce z from_ to_ next) : Partitions z from_ to_ next := by
  obtain ⟨⟨hlow, hhigh⟩, start, mid, end_, ⟨⟨hs, hstart⟩, ⟨hm, hmid⟩, he, hend⟩, hclock⟩ := h
  have hsm : start < mid := by
    have hturn := hmid start
    rw [day_midnight hs] at hturn
    omega
  have hme : mid < end_ := by
    have hturn := hend mid
    rw [day_midnight hm] at hturn
    omega
  refine ⟨start, mid, end_, localRangeBounds_iff.mpr ⟨hs, ⟨hlow, by omega⟩, hm⟩,
    localRangeBounds_iff.mpr ⟨hm, ⟨by omega, hhigh⟩, he⟩, fun fires hsorted => ?_⟩
  obtain ⟨rows, hrows, hmem⟩ := windowRows_spec (z := z) from_ to_ hsorted fun t _
    (hst : start ≤ t) (htm : t < mid) => hclock t hst (by omega)
  obtain ⟨rows', hrows', hmem'⟩ := windowRows_spec (z := z) (to_ + 1) next hsorted fun t _
    (hmt : mid ≤ t) (hte : t < end_) => hclock t (by omega) hte
  refine ⟨rows, rows', hrows, hrows', fun t ht hlo hhi => ?_⟩
  have hturn := hmid t hlo hhi
  by_cases hday : day z t ≤ to_
  · refine .inl ⟨(hmem t _).mpr ⟨ht, ⟨?_, by omega⟩, rfl, hlo, hday⟩, fun date hshown => ?_⟩
    · exact (hstart t hlo hday).mpr hlo
    · obtain ⟨-, -, hdate, hfrom', -⟩ := (hmem' t date).mp hshown
      omega
  · refine .inr ⟨(hmem' t _).mpr ⟨ht, ⟨by omega, ?_⟩, rfl, by omega, hhi⟩, fun date hshown => ?_⟩
    · have hlast := hend t (by omega) hhi
      omega
    · obtain ⟨-, -, hdate, -, hto⟩ := (hmem t date).mp hshown
      omega

theorem Partitions.passedOnce (hfrom : from_ ≤ to_) (hnext : to_ < next)
    (h : Partitions z from_ to_ next) : PassedOnce z from_ to_ next := by
  obtain ⟨start, mid, end_, hbounds, hbounds', hshown⟩ := h
  obtain ⟨hs, ⟨hlow, -⟩, hm⟩ := localRangeBounds_iff.mp hbounds
  obtain ⟨-, ⟨-, hhigh⟩, he⟩ := localRangeBounds_iff.mp hbounds'
  -- A fire on one of the days is shown by the window whose day it is.
  have hone : ∀ t, from_ ≤ day z t → day z t ≤ next →
      (start ≤ t ∧ t < mid ∧ day z t ≤ to_) ∨ (mid ≤ t ∧ t < end_ ∧ to_ + 1 ≤ day z t) := by
    intro t hlo hhi
    obtain ⟨rows, rows', hrows, hrows', honce⟩ := hshown [t] (List.pairwise_singleton _ t)
    rcases honce t (List.mem_singleton_self t) hlo hhi with ⟨hmem, -⟩ | ⟨hmem, -⟩
    · obtain ⟨hbetween, -, hdays⟩ := windowRows_sound hrows hmem
      exact .inl ⟨hbetween.1, hbetween.2, hdays.2⟩
    · obtain ⟨hbetween, -, hdays⟩ := windowRows_sound hrows' hmem
      exact .inr ⟨hbetween.1, hbetween.2, hdays.1⟩
  refine ⟨⟨hlow, hhigh⟩, start, mid, end_, ⟨⟨hs, ?_⟩, ⟨hm, ?_⟩, he, ?_⟩, ?_⟩
  · intro t hlo hhi
    rcases hone t hlo (by omega) with h | h <;> omega
  · intro t hlo hhi
    rcases hone t hlo hhi with h | h <;> omega
  · intro t hlo hhi
    rcases hone t (by omega) hhi with h | h <;> omega
  · intro t hst hte
    obtain ⟨rows, rows', hrows, hrows', -⟩ := hshown [t] (List.pairwise_singleton _ t)
    by_cases hmt : mid ≤ t
    · exact windowRows_singleton hrows' hmt hte
    · exact windowRows_singleton hrows hst (by omega)

/-- **Adjacent windows share the time between them** if and only if the clock
passes each of the three midnights once. -/
theorem partitions_iff (hfrom : from_ ≤ to_) (hnext : to_ < next) :
    Partitions z from_ to_ next ↔ PassedOnce z from_ to_ next :=
  ⟨Partitions.passedOnce hfrom hnext, PassedOnce.partitions hfrom hnext⟩

end

section Sample

/-- The first two days of January 1970 on the UTC clock. -/
theorem partitions_utc : Partitions Zone.utc 0 0 1 := by
  refine (partitions_iff (by decide) (by decide)).mpr ?_
  have hday : ∀ t, day Zone.utc t = t / DAY := fun t => by rw [day, Zone.toLocal_utc, Local.date]
  have hpassed : ∀ date lo hi m : Int, midnight Zone.utc date = some m → m = date * DAY →
      PassedAt Zone.utc date lo hi m := by
    intro date lo hi m hm heq
    refine ⟨hm, fun t _ _ => ?_⟩
    rw [hday, heq]
    unfold DAY
    omega
  refine ⟨by decide +kernel, 0, DAY, 2 * DAY, ⟨hpassed 0 0 0 0 (by decide +kernel) rfl,
    hpassed 1 0 1 DAY (by decide +kernel) rfl, hpassed 2 1 1 (2 * DAY) (by decide +kernel) rfl⟩,
    fun t hlo hhi => ?_⟩
  unfold OnClock
  rw [Zone.toLocal_utc, minUtc_eq, maxUtc_eq]
  unfold DAY at hhi
  omega

/-- The clock is set back over midnight, from 00:01 to 23:01: a fire of the
last hour of the first day is on neither day. -/
theorem not_partitions : ¬∀ (z : Zone) (from_ to_ next : Int), from_ ≤ to_ → to_ < next →
    Partitions z from_ to_ next := by
  intro h
  obtain ⟨start, mid, end_, hbounds, hbounds', hshown⟩ :=
    h Occurrence.foldZone 0 0 1 (by decide) (by decide)
  have hfirst : Returns (localRangeBounds Occurrence.foldZone 0 0) (9000 * NS, 95400 * NS) := by
    unfold Returns
    decide +kernel
  have hsecond : Returns (localRangeBounds Occurrence.foldZone 1 1)
      (95400 * NS, 185400 * NS) := by
    unfold Returns
    decide +kernel
  obtain ⟨rfl, rfl⟩ := Prod.mk.inj (hbounds.unique hfirst)
  obtain ⟨-, rfl⟩ := Prod.mk.inj (hbounds'.unique hsecond)
  obtain ⟨rows, rows', hrows, hrows', honce⟩ := hshown [95460 * NS] (List.pairwise_singleton _ _)
  have hnone : windowRows Occurrence.foldZone 0 0 (9000 * NS) (95400 * NS) [95460 * NS] =
      .ok [] := by decide +kernel
  have hnone' : windowRows Occurrence.foldZone 1 1 (95400 * NS) (185400 * NS) [95460 * NS] =
      .ok [] := by decide +kernel
  obtain rfl := Except.ok.inj (hrows.symm.trans hnone)
  obtain rfl := Except.ok.inj (hrows'.symm.trans hnone')
  rcases honce _ (List.mem_singleton_self _) (by decide +kernel) (by decide +kernel) with h | h
  · exact List.not_mem_nil h.1
  · exact List.not_mem_nil h.1

end Sample

end Windows

end Bellman
