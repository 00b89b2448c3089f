/-
Bellman/Horizon.lean

A rebuild covers every timer.

A rebuild empties the heap and reads the table of timers twice, by the due
query and as a whole.  It ends with an entry for each fire that a row awaits
(`rebuildHorizon_covers`): the query compares texts, which is sound for rows
that are read back at all, and a rebuild that meets a row that is not read
back fails.
-/
import Bellman.DueQuery
import Bellman.Drain

namespace Bellman

open ProgramLogic Prog ReplyM

/-! ### Rows that are read back -/

/-- The years 0 to 9999 are within the instants of chrono. -/
theorem isUtc_of_fourDigits {t : Int} (h : FourDigits t) : IsUtc t := by
  constructor
  · by_contra hlt
    have hyear := year_le (Int.le_of_lt (Int.not_le.mp hlt))
    have hmin : Date.year (minUtc / DAY) = -262143 := by decide +kernel
    unfold FourDigits at h
    omega
  · by_contra hlt
    have hyear := year_le (Int.le_of_lt (Int.not_le.mp hlt))
    have hmax : Date.year (Occurrence.maxUtc / DAY) = 262142 := by decide +kernel
    unfold FourDigits at h
    omega

/-- What is read back has a year of four digits, whatever was written. -/
theorem fourDigits_of_readsBack {t : Int} (h : ∃ u, parseDt (fmtDt t) = .ok u) :
    FourDigits t := by
  obtain ⟨u, hu⟩ := h
  by_contra hno
  rw [parseDt, parse_error hno] at hu
  cases hu

theorem parseDt_of_parseOptDt {i : Nat} {o o' : Option Int} {x : Int}
    (h : parseOptDt i (o.map fmtDt) = .ok o') (hx : o = some x) :
    ∃ u, parseDt (fmtDt x) = .ok u := by
  subst hx
  rw [Option.map_some, parseOptDt] at h
  cases hp : parseDt (fmtDt x) with
  | ok u => exact ⟨u, rfl⟩
  | error e =>
    rw [hp] at h
    cases e <;> cases h

/-- A row that is read back is one of a timer that can be stored. -/
theorem storable_of_rowToTimer {t u : Timer} (h : rowToTimer t.toRow = .ok u) : t.Storable := by
  have hstored : ∀ {i o o' x}, parseOptDt i (o.map fmtDt) = .ok o' → o = some x →
      IsUtc x ∧ FourDigits x := by
    intro i o o' x hread hx
    have hdigits := fourDigits_of_readsBack (parseDt_of_parseOptDt hread hx)
    exact ⟨isUtc_of_fourDigits hdigits, hdigits⟩
  unfold rowToTimer Timer.toRow at h
  simp only [bind, Except.bind] at h
  split at h
  · cases h
  next o₁ h₁ =>
  split at h
  · cases h
  next o₂ h₂ =>
  split at h
  · cases h
  next o₃ h₃ =>
  split at h
  · cases h
  next o₄ h₄ =>
  intro x hx
  rcases hx with hx | hx | hx | hx
  · exact hstored h₁ hx
  · exact hstored h₂ hx
  · exact hstored h₃ hx
  · exact hstored h₄ hx

/-- Each element of a list that was gone through has left its result. -/
theorem mem_mapM {α β π : Type} {g : α → Except π β} {l : List α} {bs : List β}
    (h : l.mapM g = .ok bs) {a : α} (ha : a ∈ l) : ∃ b ∈ bs, g a = .ok b := by
  induction l generalizing bs with
  | nil => cases ha
  | cons c l ih =>
    rw [List.mapM_cons] at h
    cases hc : g c with
    | error p =>
      rw [hc] at h
      cases h
    | ok b =>
      cases hl : l.mapM g with
      | error p =>
        rw [hc, hl] at h
        cases h
      | ok bs' =>
        rw [hc, hl] at h
        cases h
        rcases List.mem_cons.mp ha with rfl | ha
        · exact ⟨b, List.mem_cons_self .., hc⟩
        · obtain ⟨b', hb', hg⟩ := ih hl ha
          exact ⟨b', List.mem_cons_of_mem _ hb', hg⟩

/-- No reading of the clock has a horizon past the year 9999. -/
def Outside.InYears (o : Outside) (config : SchedulerConfig) : Prop :=
  ∀ i d, fromStd config.horizon = some d → Date.year ((o.wall i + d) / DAY) ≤ 9999

namespace Scheduler

section

variable {o : Outside} {config : SchedulerConfig} {limit : Option Int} {s : Scheduler}

/-- The entry of a row that a rebuild goes through. -/
theorem fireEntry_awaits {hash : Uuid → Int → Nat} {t : Timer} {nf execAt : Int}
    (h : t.Awaits hash limit nf execAt) : fireEntry hash t = .ok (some (.fire execAt t.id)) := by
  unfold fireEntry
  rw [h.next]
  dsimp only
  rw [h.exec]
  rfl

theorem wp_orStore {α : Type} {Q : α → Scheduler → Prop} {x : Except StoreError α} :
    wp (rebuildHorizon.orStore x) Q (fun _ _ => True) s ↔ ∀ a, x = .ok a → Q a s := by
  cases x with
  | ok a =>
    constructor
    · rintro h b ⟨⟩
      exact h
    · exact fun h => h a rfl
  | error e => exact iff_of_true trivial (by intro a ha; cases ha)

/-- **A rebuild covers every timer**, whatever the heap held. -/
theorem rebuildHorizon_covers (hsees : o.Sees config limit) (hyears : o.InYears config)
    (hids : (s.memory.store.timers.map Timer.id).Nodup) :
    wp (rebuildHorizon o config)
      (fun _ s' => s'.memory = s.memory ∧
        ∀ t ∈ s.memory.store.timers, Covers o.hash limit s' t) (fun _ _ => True) s := by
  unfold rebuildHorizon ask
  rw [wp_bind, wp_modifyGet, wp_bind, wp_modifyGet, wp_bind, wp_modify, wp_bind, wp_modifyGet]
  cases hd : fromStd config.horizon with
  | none => trivial
  | some d =>
    dsimp only
    rw [wp_bind, wp_orPanic]
    intro horizon hhorizon
    obtain ⟨-, rfl⟩ := Windows.shiftUtc_eq_ok.mp hhorizon
    rw [wp_bind, wp_get, wp_bind, wp_orStore]
    intro due hdue
    rw [wp_bind, wp_orPanic]
    intro fires hfires
    rw [wp_bind, rebuildHorizon.pushAll, wp_modify, wp_bind, wp_orStore]
    intro timers htimers
    rw [wp_bind, wp_orPanic]
    intro resident hresident
    rw [wp_bind, rebuildHorizon.pushAll, wp_modify, wp_bind, wp_modifyGet, wp_bind, wp_orPanic]
    intro deadlines _
    rw [rebuildHorizon.pushAll, wp_modify]
    refine ⟨rfl, fun t ht nf execAt hawaits => ?_⟩
    dsimp only at hdue htimers ⊢
    -- Every row was read back.
    have hlisted : ∀ u, u ∈ s.memory.store.listTimers ↔ u ∈ s.memory.store.timers := by
      intro u
      unfold Store.listTimers
      exact List.mem_insertionSort _
    have hstorable : ∀ u ∈ s.memory.store.timers, u.Storable := by
      intro u hu
      obtain ⟨v, -, hv⟩ := mem_mapM htimers (List.mem_map_of_mem ((hlisted u).mpr hu))
      exact storable_of_rowToTimer hv
    have hall : timers = s.memory.store.listTimers := by
      have hback : (s.memory.store.listTimers.map Timer.toRow).mapM rowToTimer =
          .ok s.memory.store.listTimers :=
        mapM_toRow fun u hu => hstorable u ((hlisted u).mp hu)
      exact Except.ok.inj (htimers.symm.trans hback)
    have hselected : ∀ u, u ∈ due ↔ u ∈ s.memory.store.timers ∧ u.enabled = true ∧
        ∃ x, u.nextFireUtc = some x ∧ x ≤ o.wall (s.asked + 1 + 1) + d := by
      intro u
      have hsorted := hdue.symm.trans (timersDueBy_toRow hstorable _)
      obtain rfl := Except.ok.inj hsorted
      rw [List.mem_insertionSort, List.mem_filter]
      refine and_congr_right fun hu => ?_
      rw [selected_eq (hstorable u hu) (hyears _ d hd), Bool.and_eq_true, Option.any_eq_true]
      simp
    -- An entry of the row is on the heap if the row is gone through.
    have hnoted : ∀ heap : List HeapEntry, .fire execAt t.id ∈ heap →
        Noted HeapEntry.at_ (HeapEntry.Fires t.id) heap (max execAt nf) :=
      fun heap hmem => ⟨_, hmem, ⟨execAt, rfl⟩, le_max_left _ _⟩
    apply hnoted
    by_cases hdue' : t ∈ due
    · obtain ⟨e, he, hentry⟩ := mem_mapM hfires hdue'
      rw [fireEntry_awaits hawaits] at hentry
      cases hentry
      refine List.mem_append_right _ (List.mem_append_right _ (List.mem_append_left _ ?_))
      exact List.mem_filterMap.mpr ⟨_, he, rfl⟩
    · have hlate : o.wall (s.asked + 1 + 1) + d < nf := by
        by_contra hle
        exact hdue' ((hselected t).mpr ⟨ht, hawaits.enabled, nf, hawaits.next, Int.not_lt.mp hle⟩)
      have hhigh : t.isHighFrequency = true := by
        rcases hawaits.near with ⟨l, hl, hnear⟩ | hhigh
        · have hle := hnear.trans (hsees (s.asked + 1 + 1) d hd l hl)
          exact absurd ((le_max_right _ _).trans hle) (not_le.mpr hlate)
        · exact hhigh
      have hunseen : t.id ∉ seenIds due := by
        intro hseen
        obtain ⟨u, hu, huid⟩ := List.mem_map.mp hseen
        have humem := (hselected u).mp (List.mem_of_mem_filter hu)
        have hsame : u = t := List.inj_on_of_nodup_map hids humem.1 ht huid
        exact hdue' (hsame ▸ List.mem_of_mem_filter hu)
      have hres : t ∈ timers.filter (IsResident due ·) := by
        rw [List.mem_filter, hall]
        exact ⟨(hlisted t).mpr ht, decide_eq_true ⟨hawaits.enabled, hunseen, hhigh⟩⟩
      obtain ⟨e, he, hentry⟩ := mem_mapM hresident hres
      rw [fireEntry_awaits hawaits] at hentry
      cases hentry
      refine List.mem_append_right _ (List.mem_append_left _ ?_)
      exact List.mem_filterMap.mpr ⟨_, he, rfl⟩

end

end Scheduler

end Bellman
