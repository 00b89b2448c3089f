/-
Bellman/DueQuery.lean

The query for the timers that are due, over rows whose instants are texts.

A timer is written as a row, and what is written is read back before the
transaction commits, so a row that cannot be read is never stored.  The query
compares the texts of the rows with the text of the horizon:

    WHERE next_fire_utc <= ?1  ORDER BY next_fire_utc ASC, id ASC

All stored instants have a year of four digits, so among them the texts are
in the order of the instants.  The horizon is not stored; a later one is
written with a sign and comes before all of them.

Main result: the query returns the timers that are due, in the order of their
fires, exactly when the year of the horizon is at most 9999 or no enabled
timer has a next fire (`dueExact_iff`).
-/
import Bellman.Datetime
import Bellman.Commit
import Bellman.Lib.System

namespace Bellman

open ProgramLogic

/-! ### Rows -/

/-- A row of the `timers` table: its instants are texts. -/
structure TimerRow where
  /-- The columns that are not instants. -/
  columns : Timer
  nextFireUtc : Option (List Char)
  lastFired : Option (List Char)
  validFrom : Option (List Char)
  validUntil : Option (List Char)

/-- What `INSERT` and `UPDATE` write. -/
def Timer.toRow (t : Timer) : TimerRow where
  columns := { t with
    nextFireUtc := none, lastFired := none, validFrom := none, validUntil := none }
  nextFireUtc := t.nextFireUtc.map fmtDt
  lastFired := t.lastFired.map fmtDt
  validFrom := t.validFrom.map fmtDt
  validUntil := t.validUntil.map fmtDt

/-- `parse_opt_dt`, for the column with an index. -/
def parseOptDt (index : Nat) : Option (List Char) → Except StoreError (Option Int)
  | none => .ok none
  | some s =>
    match parseDt s with
    | .ok t => .ok (some t)
    | .error (.internal m) =>
      .error (.sqlite s!"Conversion error from type Text at index: {index}, internal: {m}")
    | .error e => .error e

/-- `row_to_timer`. -/
def rowToTimer (r : TimerRow) : Except StoreError Timer := do
  let nextFireUtc ← parseOptDt 5 r.nextFireUtc
  let lastFired ← parseOptDt 6 r.lastFired
  let validFrom ← parseOptDt 10 r.validFrom
  let validUntil ← parseOptDt 11 r.validUntil
  return { r.columns with nextFireUtc, lastFired, validFrom, validUntil }

/-- The order of the query: by the text of the next fire, then by id. -/
def TimerRow.before (a b : TimerRow) : Prop :=
  a.nextFireUtc.getD [] < b.nextFireUtc.getD [] ∨
    (a.nextFireUtc.getD [] = b.nextFireUtc.getD [] ∧ a.columns.id.n ≤ b.columns.id.n)

instance : DecidableRel TimerRow.before := fun _ _ => inferInstanceAs (Decidable (_ ∨ _))

/-- `timers_due_by`, as the query computes it. -/
def timersDueBy (rows : List TimerRow) (horizon : Int) : Except StoreError (List Timer) :=
  ((rows.filter fun r => r.columns.enabled && r.nextFireUtc.any fun s => decide (s ≤ fmtDt horizon))
    |>.insertionSort TimerRow.before).mapM rowToTimer

/-! ### The table -/

/-- The instants of a timer are values of `DateTime<Utc>`. -/
def Timer.InRange (t : Timer) : Prop :=
  ∀ x, t.nextFireUtc = some x ∨ t.lastFired = some x ∨ t.validFrom = some x ∨
    t.validUntil = some x → IsUtc x

/-- A change of the table. -/
inductive TimerWrite where
  | insert (t : Timer)
  | update (t : Timer)
  | delete (id : Uuid)

/-- The changes that commit: a row that is written must be read back. -/
def timerTable : System (List TimerRow) TimerWrite where
  init rows := rows = []
  step rows w rows' :=
    match w with
    | .insert t => t.InRange ∧ (∃ u, rowToTimer t.toRow = .ok u) ∧ rows' = rows ++ [t.toRow]
    | .update t => t.InRange ∧ (∃ u, rowToTimer t.toRow = .ok u) ∧
        rows' = rows.map fun r => if r.columns.id = t.id then t.toRow else r
    | .delete id => rows' = rows.filter fun r => r.columns.id ≠ id

section Rows

variable {t : Timer} {x : Int}

theorem parseOptDt_map (i : Nat) {o : Option Int}
    (h : ∀ x, o = some x → IsUtc x ∧ FourDigits x) : parseOptDt i (o.map fmtDt) = .ok o := by
  cases o with
  | none => rfl
  | some x =>
    obtain ⟨hutc, hyear⟩ := h x rfl
    rw [Option.map_some, parseOptDt, parseDt_fmtDt hutc hyear]

theorem fourDigits_of_parseOptDt {i : Nat} {o o' : Option Int}
    (h : parseOptDt i (o.map fmtDt) = .ok o') (hx : o = some x) (hutc : IsUtc x) :
    FourDigits x := by
  subst hx
  rw [← readsBack_iff hutc]
  rw [Option.map_some, parseOptDt] at h
  cases hp : parseDt (fmtDt x) with
  | ok u => exact ⟨u, rfl⟩
  | error e =>
    rw [hp] at h
    cases e <;> cases h

/-- All instants of a timer have years of four digits. -/
def Timer.Storable (t : Timer) : Prop :=
  ∀ x, t.nextFireUtc = some x ∨ t.lastFired = some x ∨ t.validFrom = some x ∨
    t.validUntil = some x → IsUtc x ∧ FourDigits x

/-- A row that is read back is read back as the timer that was written. -/
theorem rowToTimer_toRow (h : t.Storable) : rowToTimer t.toRow = .ok t := by
  unfold rowToTimer Timer.toRow
  dsimp only
  rw [parseOptDt_map 5 fun x hx => h x (.inl hx), parseOptDt_map 6 fun x hx => h x (.inr (.inl hx)),
    parseOptDt_map 10 fun x hx => h x (.inr (.inr (.inl hx))),
    parseOptDt_map 11 fun x hx => h x (.inr (.inr (.inr hx)))]
  rfl

theorem storable_of_readsBack (hr : t.InRange) (h : ∃ u, rowToTimer t.toRow = .ok u) :
    t.Storable := by
  obtain ⟨u, hu⟩ := h
  unfold rowToTimer Timer.toRow at hu
  simp only [bind, Except.bind] at hu
  split at hu
  · cases hu
  next o₁ h₁ =>
  split at hu
  · cases hu
  next o₂ h₂ =>
  split at hu
  · cases hu
  next o₃ h₃ =>
  split at hu
  · cases hu
  next o₄ h₄ =>
  intro x hx
  refine ⟨hr x hx, ?_⟩
  rcases hx with hx | hx | hx | hx
  · exact fourDigits_of_parseOptDt h₁ hx (hr x (.inl hx))
  · exact fourDigits_of_parseOptDt h₂ hx (hr x (.inr (.inl hx)))
  · exact fourDigits_of_parseOptDt h₃ hx (hr x (.inr (.inr (.inl hx))))
  · exact fourDigits_of_parseOptDt h₄ hx (hr x (.inr (.inr (.inr hx))))

/-- Every row of the table is the row of a timer that can be stored. -/
theorem exists_timers {rows : List TimerRow} (h : timerTable.Reachable rows) :
    ∃ ts : List Timer, rows = ts.map Timer.toRow ∧ ∀ t ∈ ts, t.Storable := by
  refine h.invariant (I := fun rows => ∃ ts : List Timer, rows = ts.map Timer.toRow ∧
    ∀ t ∈ ts, t.Storable) ?_ ?_
  · rintro rows rfl
    exact ⟨[], rfl, fun t ht => absurd ht List.not_mem_nil⟩
  · rintro rows w rows' hstep ⟨ts, rfl, hts⟩
    cases w with
    | insert t =>
      obtain ⟨hr, hread, rfl⟩ := hstep
      refine ⟨ts ++ [t], by rw [List.map_append, List.map_singleton], fun u hu => ?_⟩
      rcases List.mem_append.mp hu with hu | hu
      · exact hts u hu
      · obtain rfl := List.mem_singleton.mp hu
        exact storable_of_readsBack hr hread
    | update t =>
      obtain ⟨hr, hread, rfl⟩ := hstep
      refine ⟨ts.map fun u => if u.id = t.id then t else u, ?_, fun u hu => ?_⟩
      · rw [List.map_map, List.map_map]
        refine List.map_congr_left fun u _ => ?_
        show (if u.id = t.id then t.toRow else u.toRow) = (if u.id = t.id then t else u).toRow
        split <;> rfl
      · obtain ⟨v, hv, rfl⟩ := List.mem_map.mp hu
        split
        · exact storable_of_readsBack hr hread
        · exact hts v hv
    | delete id =>
      cases hstep
      refine ⟨ts.filter fun u => u.id ≠ id, ?_, fun u hu => hts u (List.mem_filter.mp hu).1⟩
      rw [List.filter_map]
      rfl

theorem mapM_toRow {ts : List Timer} (h : ∀ t ∈ ts, t.Storable) :
    (ts.map Timer.toRow).mapM rowToTimer = .ok ts := by
  induction ts with
  | nil => rfl
  | cons t ts ih =>
    rw [List.map_cons, List.mapM_cons, rowToTimer_toRow (h t (List.mem_cons_self ..)),
      ih fun u hu => h u (List.mem_cons_of_mem _ hu)]
    rfl

/-! ### The query -/

/-- The text of the next fire is at most that of the horizon. -/
def Timer.selected (horizon : Int) (t : Timer) : Bool :=
  t.enabled && t.nextFireUtc.any fun x => decide (fmtDt x ≤ fmtDt horizon)

/-- The order of the timers themselves. -/
def Timer.before (a b : Timer) : Prop :=
  a.nextFireUtc.getD 0 < b.nextFireUtc.getD 0 ∨
    (a.nextFireUtc.getD 0 = b.nextFireUtc.getD 0 ∧ a.id.n ≤ b.id.n)

instance : DecidableRel Timer.before := fun _ _ => inferInstanceAs (Decidable (_ ∨ _))

/-- The rows with a next fire are in the order of the timers. -/
theorem before_toRow {a b : Timer} (ha : a.Storable) (hb : b.Storable)
    (hasome : a.nextFireUtc.isSome) (hbsome : b.nextFireUtc.isSome) :
    a.before b ↔ a.toRow.before b.toRow := by
  obtain ⟨x, hx⟩ := Option.isSome_iff_exists.mp hasome
  obtain ⟨y, hy⟩ := Option.isSome_iff_exists.mp hbsome
  have hx4 := (ha x (.inl hx)).2
  have hy4 := (hb y (.inl hy)).2
  have hle := fmtDt_le_iff hy4 hx4
  have hlt : x < y ↔ fmtDt x < fmtDt y := by
    rw [← Int.not_le, ← not_le, hle]
  have heq : x = y ↔ fmtDt x = fmtDt y :=
    ⟨congrArg fmtDt, fmtDt_injective hx4 hy4⟩
  unfold Timer.before TimerRow.before Timer.toRow
  rw [hx, hy]
  simp only [Option.map_some, Option.getD_some]
  rw [hlt, heq]

theorem timersDueBy_toRow {ts : List Timer} (h : ∀ t ∈ ts, t.Storable) (horizon : Int) :
    timersDueBy (ts.map Timer.toRow) horizon =
      .ok ((ts.filter (Timer.selected horizon)).insertionSort Timer.before) := by
  have hmem : ∀ t ∈ ts.filter (Timer.selected horizon), t.Storable ∧ t.nextFireUtc.isSome := by
    intro t ht
    obtain ⟨ht, hsel⟩ := List.mem_filter.mp ht
    refine ⟨h t ht, ?_⟩
    unfold Timer.selected at hsel
    cases hnext : t.nextFireUtc with
    | none =>
      rw [hnext] at hsel
      simp at hsel
    | some x => rfl
  have hfilter : (ts.map Timer.toRow).filter (fun r => r.columns.enabled &&
      r.nextFireUtc.any fun s => decide (s ≤ fmtDt horizon)) =
      (ts.filter (Timer.selected horizon)).map Timer.toRow := by
    rw [List.filter_map]
    congr 1
    refine List.filter_congr fun t _ => ?_
    show (t.enabled && (t.nextFireUtc.map fmtDt).any fun s => decide (s ≤ fmtDt horizon)) = _
    rw [Option.any_map]
    rfl
  unfold timersDueBy
  rw [hfilter, ← List.map_insertionSort (r := Timer.before) (s := TimerRow.before)]
  · refine mapM_toRow fun t ht => ?_
    rw [List.mem_insertionSort] at ht
    exact (hmem t ht).1
  · intro a ha b hb
    exact before_toRow (hmem a ha).1 (hmem b hb).1 (hmem a ha).2 (hmem b hb).2

/-- The query returns the timers of the table that are due. -/
def DueExact (rows : List TimerRow) (horizon : Int) : Prop :=
  ∃ ts, rows.mapM rowToTimer = .ok ts ∧
    timersDueBy rows horizon = .ok (({ timers := ts } : Store).timersDueBy horizon)

/-- Instants that are read back are compared and read as what they are. -/
def TextsFaithful : Prop :=
  ∀ x y, IsUtc x → IsUtc y → (∃ u, parseDt (fmtDt x) = .ok u) → (∃ u, parseDt (fmtDt y) = .ok u) →
    (fmtDt x ≤ fmtDt y ↔ x ≤ y) ∧ (fmtDt x = fmtDt y → x = y) ∧ parseDt (fmtDt x) = .ok x

theorem textsFaithful : TextsFaithful := by
  intro x y hx hy hx' hy'
  rw [readsBack_iff hx] at hx'
  rw [readsBack_iff hy] at hy'
  exact ⟨fmtDt_le_iff hx' hy', fmtDt_injective hx' hy', parseDt_fmtDt hx hx'⟩

/-- Up to the year 9999 the texts select the timers that are due. -/
theorem selected_eq {horizon : Int} (ht : t.Storable)
    (hyear : Date.year (horizon / DAY) ≤ 9999) : t.selected horizon =
      (t.enabled && t.nextFireUtc.any fun nf => decide (nf ≤ horizon)) := by
  unfold Timer.selected
  cases hnext : t.nextFireUtc with
  | none => rfl
  | some x =>
    have hx := (ht x (.inl hnext)).2
    have hiff : fmtDt x ≤ fmtDt horizon ↔ x ≤ horizon := by
      by_cases hh : FourDigits horizon
      · exact fmtDt_le_iff hx hh
      · -- A horizon before the year 0 is before everything that is stored.
        refine iff_of_false (not_le.mpr (fmtDt_sign_lt hh hx)) fun hle => ?_
        have hyears := year_le hle
        unfold FourDigits at hx hh
        omega
    rw [Option.any_some, Option.any_some]
    simp only [hiff]

/-- **The due query is exact** up to the year 9999, and after it only for
tables without a timer that could be due.  The texts of what is stored are
faithful. -/
theorem dueExact_iff {rows : List TimerRow} (h : timerTable.Reachable rows) (horizon : Int) :
    TextsFaithful ∧ (DueExact rows horizon ↔ Date.year (horizon / DAY) ≤ 9999 ∨
      ∀ r ∈ rows, r.columns.enabled = true → r.nextFireUtc = none) := by
  obtain ⟨ts, rfl, hts⟩ := exists_timers h
  refine ⟨textsFaithful, ?_⟩
  have hexact : DueExact (ts.map Timer.toRow) horizon ↔
      (ts.filter (Timer.selected horizon)).insertionSort Timer.before =
        ({ timers := ts } : Store).timersDueBy horizon := by
    unfold DueExact
    rw [mapM_toRow hts, timersDueBy_toRow hts]
    constructor
    · rintro ⟨us, hus, hdue⟩
      cases hus
      exact Except.ok.inj hdue
    · intro heq
      exact ⟨ts, rfl, congrArg Except.ok heq⟩
  rw [hexact]
  by_cases hyear : Date.year (horizon / DAY) ≤ 9999
  · refine iff_of_true ?_ (.inl hyear)
    show _ = (ts.filter _).insertionSort Timer.before
    congr 1
    exact List.filter_congr fun t ht => selected_eq (hts t ht) hyear
  · -- The text of the horizon comes before all that is stored: nothing is selected.
    have hnone : ts.filter (Timer.selected horizon) = [] := by
      rw [List.filter_eq_nil_iff]
      intro t ht hsel
      unfold Timer.selected at hsel
      cases hnext : t.nextFireUtc with
      | none =>
        rw [hnext] at hsel
        simp at hsel
      | some x =>
        have hx := (hts t ht x (.inl hnext)).2
        rw [hnext, Option.any_some, Bool.and_eq_true, decide_eq_true_eq] at hsel
        exact not_le.mpr (fmtDt_sign_lt (fun hh => hyear hh.2) hx) hsel.2
    rw [hnone]
    constructor
    · intro hdue
      right
      intro r hr henabled
      obtain ⟨t, ht, rfl⟩ := List.mem_map.mp hr
      cases hnext : t.nextFireUtc with
      | none =>
        show t.nextFireUtc.map fmtDt = none
        rw [hnext]
        rfl
      | some x =>
        have hx := (hts t ht x (.inl hnext)).2
        have hle : x ≤ horizon := by
          by_contra hlt
          have hyears := year_le (Int.le_of_lt (Int.not_le.mp hlt))
          unfold FourDigits at hx
          omega
        have hmem : t ∈ ({ timers := ts } : Store).timersDueBy horizon := by
          unfold Store.timersDueBy
          rw [List.mem_insertionSort, List.mem_filter]
          refine ⟨ht, ?_⟩
          rw [hnext, Option.any_some, Bool.and_eq_true, decide_eq_true_eq]
          exact ⟨henabled, hle⟩
        rw [← hdue] at hmem
        exact absurd hmem List.not_mem_nil
    · rintro (hle | hall)
      · exact absurd hle hyear
      · have hfilter : (ts.filter fun t => t.enabled &&
            (t.nextFireUtc.any fun nf => decide (nf ≤ horizon))) = [] := by
          rw [List.filter_eq_nil_iff]
          intro t ht hdue
          rw [Bool.and_eq_true] at hdue
          have hnext := hall _ (List.mem_map_of_mem ht) hdue.1
          have hnext : t.nextFireUtc = none := Option.map_eq_none_iff.mp hnext
          rw [hnext] at hdue
          simp at hdue
        unfold Store.timersDueBy
        rw [hfilter]
        rfl

end Rows

section Sample

/-- A table with one timer, which is due. -/
def tickTable : List TimerRow := [(Timer.sample .skip).toRow]

theorem sample_storable : (Timer.sample .skip).Storable := by
  rintro x (hx | hx | hx | hx)
  · cases hx
    refine ⟨by decide +kernel, ?_, ?_⟩
    · decide
    · decide
  · cases hx
  · cases hx
  · cases hx

theorem tickTable_reachable : timerTable.Reachable tickTable :=
  ⟨[], [⟨[], .insert (Timer.sample .skip), tickTable⟩], rfl, System.Run.single
    ⟨fun x hx => (sample_storable x hx).1, ⟨_, rowToTimer_toRow sample_storable⟩, rfl⟩⟩

/-- A minute after the epoch it is due. -/
theorem dueExact_tick : DueExact tickTable (60 * NS) :=
  (dueExact_iff tickTable_reachable _).2.mpr (.inl (by decide))

/-- On the first day of the year 10000 it is not. -/
theorem dueExact_late :
    ¬∀ rows horizon, timerTable.Reachable rows → DueExact rows horizon := by
  intro h
  obtain ⟨ts, hts, hdue⟩ := h tickTable (2932897 * DAY) tickTable_reachable
  have hstored : ∀ t ∈ [Timer.sample .skip], t.Storable := by
    intro t ht
    obtain rfl := List.mem_singleton.mp ht
    exact sample_storable
  cases (mapM_toRow hstored).symm.trans hts
  have hnone : [Timer.sample .skip].filter (Timer.selected (2932897 * DAY)) = [] := by
    decide +kernel
  have hdue := (timersDueBy_toRow hstored _).symm.trans hdue
  rw [hnone] at hdue
  exact absurd (Except.ok.inj hdue) (by decide +kernel)

end Sample

end Bellman
