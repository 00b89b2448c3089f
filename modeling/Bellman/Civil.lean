/-
Bellman/Civil.lean

The civil calendar: day numbers against years, months and days.

Both conversions count years from March, so that the leap day is the last
day of its year.  A day number is then the start of such a year and a day of
it, and a month of the year starts at a day of it that depends on the month
alone:

    day number = yearStart y + monthStart m + (day of the month - 1)

The eras of 400 years of the source are the last two terms of `yearStart`.

Main results: the two conversions are inverse to each other
(`civilFromDays_daysFromCivil`, `exists_civil`), and later months have later
days (`daysFromCivil_lt`).
-/
import Bellman.Time
import Mathlib.Tactic.Ring
import Mathlib.Logic.Function.Iterate

namespace Bellman

/-! ### Years from March -/

/-- The days before the year `y`, counted from March, with an origin of its own. -/
def yearStart (y : Int) : Int := 365 * y + y / 4 - y / 100 + y / 400

/-- The length of the year from March of `y` to February of `y + 1`. -/
def yearLength (y : Int) : Int := if isLeap (y + 1) then 366 else 365

theorem isLeap_iff {y : Int} :
    isLeap y = true ↔ y % 4 = 0 ∧ (y % 100 ≠ 0 ∨ y % 400 = 0) := by
  simp [isLeap]

theorem yearStart_succ (y : Int) : yearStart (y + 1) = yearStart y + yearLength y := by
  unfold yearStart yearLength
  split
  · next h =>
    rw [isLeap_iff] at h
    omega
  · next h =>
    rw [isLeap_iff] at h
    omega

/-- The year of an era that a day of the era lies in. -/
theorem year_of_era {c q s doy : Int} (hc : 0 ≤ c ∧ c ≤ 3) (hq : 0 ≤ q ∧ q ≤ 24)
    (hs : 0 ≤ s ∧ s ≤ 3) (hdoy : 0 ≤ doy)
    (hlen : doy ≤ 364 ∨ doy = 365 ∧ s = 3 ∧ (q ≤ 23 ∨ c = 3)) {doe : Int}
    (hdoe : doe = 36524 * c + 1461 * q + 365 * s + doy) :
    (doe - doe / 1460 + doe / 36524 - doe / 146096) / 365 = 100 * c + 4 * q + s := by
  by_cases hlast : doe = 146096
  · subst hlast
    omega
  · have hcentury : doe / 36524 = c := by omega
    have hera : doe / 146096 = 0 := by omega
    -- A leap day is the 1460th day of its four years.
    have hleap : doe / 1460 = 25 * c + q ∨
        doe / 1460 = 25 * c + q + 1 ∧ 269 ≤ doy := by omega
    rcases hleap with hleap | ⟨hleap, hlate⟩
    · have hshort : doy ≤ 364 := by omega
      rw [hcentury, hera, hleap]
      omega
    · rw [hcentury, hera, hleap]
      omega

/-- The day of the year from March that a month begins at. -/
def monthStart (m : Nat) : Int := ((153 * (if m ≤ 2 then m + 9 else m - 3) + 2) / 5 : Nat)

/-- The year from March that a month of a civil year lies in. -/
def marchYear (y : Int) (m : Nat) : Int := if m ≤ 2 then y - 1 else y

theorem daysFromCivil_eq (y : Int) (m d : Nat) :
    daysFromCivil y m d = yearStart (marchYear y m) + (monthStart m + d - 1) - 719468 := by
  unfold daysFromCivil yearStart monthStart marchYear
  dsimp only
  generalize (if m ≤ 2 then y - 1 else y) = y'
  generalize (153 * (if m ≤ 2 then m + 9 else m - 3) + 2) / 5 = start
  push_cast
  omega

/-- A year by its era, its century, its four years and its year of those. -/
structure YearParts (y e c q s : Int) : Prop where
  year : y = 400 * e + 100 * c + 4 * q + s
  century : 0 ≤ c ∧ c ≤ 3
  four : 0 ≤ q ∧ q ≤ 24
  last : 0 ≤ s ∧ s ≤ 3

theorem exists_yearParts (y : Int) : ∃ e c q s, YearParts y e c q s :=
  ⟨y / 400, y % 400 / 100, y % 100 / 4, y % 4, by omega, by omega, by omega, by omega⟩

section Parts

variable {y e c q s : Int}

theorem YearParts.yearStart_eq (h : YearParts y e c q s) :
    yearStart y = 146097 * e + (36524 * c + 1461 * q + 365 * s) := by
  obtain ⟨hy, hc, hq, hs⟩ := h
  have hfour : y / 4 = 100 * e + 25 * c + q := by omega
  have hcentury : y / 100 = 4 * e + c := by omega
  have hera : y / 400 = e := by omega
  rw [yearStart, hfour, hcentury, hera, hy]
  omega

/-- The leap day is the last day of four years, but for that of the first
three centuries of an era. -/
theorem YearParts.leap (h : YearParts y e c q s) (hleap : isLeap (y + 1) = true) :
    s = 3 ∧ (q ≤ 23 ∨ c = 3) := by
  obtain ⟨hy, hc, hq, hs⟩ := h
  rw [isLeap_iff, hy] at hleap
  obtain ⟨hfour, hmore⟩ := hleap
  obtain rfl : s = 3 := by omega
  refine ⟨rfl, ?_⟩
  clear hfour hs hy
  omega

theorem YearParts.yearLength_le (h : YearParts y e c q s) {doy : Int}
    (hlen : doy < yearLength y) : doy ≤ 364 ∨ doy = 365 ∧ s = 3 ∧ (q ≤ 23 ∨ c = 3) := by
  unfold yearLength at hlen
  split at hlen
  · next hleap =>
    have hparts := h.leap hleap
    by_cases hshort : doy ≤ 364
    · exact .inl hshort
    · exact .inr ⟨by omega, hparts⟩
  · exact .inl (by omega)

/-- A day of a year from March, read back. -/
theorem civilFromDays_eq {doy : Int} (hdoy : 0 ≤ doy) (hlen : doy < yearLength y) :
    civilFromDays (yearStart y + doy - 719468) =
      let mp := (5 * doy + 2) / 153
      let m := (if mp < 10 then mp + 3 else mp - 9).toNat
      (y + (if m ≤ 2 then 1 else 0), m, (doy - (153 * mp + 2) / 5 + 1).toNat) := by
  obtain ⟨e, c, q, s, h⟩ := exists_yearParts y
  have hleap := h.yearLength_le hlen
  have hstart := h.yearStart_eq
  obtain ⟨hy, hc, hq, hs⟩ := h
  have hera : (yearStart y + doy) / 146097 = e := by
    rw [hstart]
    clear hy hstart hlen
    omega
  have hdoe : yearStart y + doy - e * 146097 = 36524 * c + 1461 * q + 365 * s + doy := by
    rw [hstart]
    ring
  have hyoe := year_of_era hc hq hs hdoy hleap rfl
  have hday : 36524 * c + 1461 * q + 365 * s + doy -
      (365 * (100 * c + 4 * q + s) + (100 * c + 4 * q + s) / 4 - (100 * c + 4 * q + s) / 100) =
      doy := by
    have hfour : (100 * c + 4 * q + s) / 4 = 25 * c + q := by
      clear hyoe hdoe hera hleap hlen hy hstart
      omega
    have hcentury : (100 * c + 4 * q + s) / 100 = c := by
      clear hyoe hdoe hera hleap hlen hy hstart
      omega
    rw [hfour, hcentury]
    ring
  have hyear : 100 * c + 4 * q + s + e * 400 = y := by
    rw [hy]
    ring
  unfold civilFromDays
  dsimp only
  rw [Int.sub_add_cancel, hera, hdoe, hyoe, hday, hyear]

end Parts

/-- Every day number is a day of a year from March. -/
theorem exists_day_of_year (z : Int) : ∃ y doy, 0 ≤ doy ∧ doy < yearLength y ∧
    yearStart y + doy - 719468 = z := by
  obtain ⟨e, r, hr, hz⟩ : ∃ e r : Int, (0 ≤ r ∧ r < 146097) ∧ z + 719468 = 146097 * e + r :=
    ⟨(z + 719468) / 146097, (z + 719468) % 146097, by omega, by omega⟩
  obtain ⟨c, r₁, hc, hr₁, hlastCentury, hrest⟩ : ∃ c r₁ : Int, (0 ≤ c ∧ c ≤ 3) ∧
      (0 ≤ r₁ ∧ r₁ ≤ 36524) ∧ (r₁ = 36524 → c = 3) ∧ r = 36524 * c + r₁ := by
    by_cases hlast : r = 146096
    · exact ⟨3, 36524, by omega, by omega, fun _ => rfl, by omega⟩
    · exact ⟨r / 36524, r % 36524, by omega, by omega, by omega, by omega⟩
  obtain ⟨q, r₂, hq, hr₂, hrest₁⟩ : ∃ q r₂ : Int, (0 ≤ q ∧ q ≤ 24) ∧ (0 ≤ r₂ ∧ r₂ ≤ 1460) ∧
      r₁ = 1461 * q + r₂ :=
    ⟨r₁ / 1461, r₁ % 1461, by omega, by omega, by omega⟩
  obtain ⟨s, doy, hs, hdoy, hrest₂⟩ : ∃ s doy : Int, (0 ≤ s ∧ s ≤ 3) ∧
      (0 ≤ doy ∧ (doy ≤ 364 ∨ doy = 365 ∧ s = 3)) ∧ r₂ = 365 * s + doy := by
    by_cases hlast : r₂ = 1460
    · exact ⟨3, 365, by omega, by omega, by omega⟩
    · exact ⟨r₂ / 365, r₂ % 365, by omega, by omega, by omega⟩
  have hparts : YearParts (400 * e + 100 * c + 4 * q + s) e c q s := ⟨rfl, hc, hq, hs⟩
  refine ⟨400 * e + 100 * c + 4 * q + s, doy, hdoy.1, ?_, ?_⟩
  · rcases hdoy.2 with hshort | ⟨rfl, rfl⟩
    · unfold yearLength
      split <;> omega
    · have hleap : isLeap (400 * e + 100 * c + 4 * q + 3 + 1) = true := by
        rw [isLeap_iff]
        have hcentury : q ≤ 23 ∨ c = 3 := by omega
        rcases hcentury with hq' | rfl
        · clear hrest hrest₁ hrest₂ hz hr hr₁ hr₂ hlastCentury
          omega
        · clear hrest hrest₁ hrest₂ hz hr hr₁ hr₂ hlastCentury
          omega
      rw [yearLength, if_pos hleap]
      decide
  · rw [hparts.yearStart_eq]
    omega

/-! ### Months -/

section Months

variable {y : Int} {m d : Nat}

theorem yearLength_pos (y : Int) : 365 ≤ yearLength y := by
  unfold yearLength
  split <;> omega

theorem monthLength_february (y : Int) : (monthLength y 2 : Int) = yearLength (y - 1) - 337 := by
  rw [yearLength, Int.sub_add_cancel, monthLength]
  split <;> rfl

theorem months (hm : 1 ≤ m ∧ m ≤ 12) : m = 1 ∨ m = 2 ∨ m = 3 ∨ m = 4 ∨ m = 5 ∨ m = 6 ∨
    m = 7 ∨ m = 8 ∨ m = 9 ∨ m = 10 ∨ m = 11 ∨ m = 12 := by
  omega

/-- A day of a month, as a day of the year from March: it is of that year, and
it is told from the days of the other months. -/
theorem day_of_year (hm : 1 ≤ m ∧ m ≤ 12) (hd : 1 ≤ d ∧ d ≤ monthLength y m) :
    0 ≤ monthStart m + d - 1 ∧ monthStart m + d - 1 < yearLength (marchYear y m) ∧
      (5 * (monthStart m + d - 1) + 2) / 153 = ((if m ≤ 2 then m + 9 else m - 3 : Nat) : Int) := by
  have hfebruary := monthLength_february y
  have hlen := yearLength_pos (marchYear y m)
  obtain ⟨hlow, hhigh⟩ := hd
  rcases months hm with rfl | rfl | rfl | rfl | rfl | rfl | rfl | rfl | rfl | rfl | rfl | rfl
  case inr.inl =>
    have hstart : monthStart 2 = 337 := rfl
    have hyear : yearLength (y - 1) ≤ 366 := by
      unfold yearLength
      split <;> omega
    rw [hstart, marchYear, if_pos (Nat.le_refl 2), if_pos (Nat.le_refl 2)]
    refine ⟨by omega, by omega, ?_⟩
    push_cast
    omega
  all_goals
    simp only [monthStart, monthLength] at hhigh ⊢
    norm_num
    omega

/-- **Year, month and day of the day number** of a date are those of the date. -/
theorem civilFromDays_daysFromCivil (hm : 1 ≤ m ∧ m ≤ 12) (hd : 1 ≤ d ∧ d ≤ monthLength y m) :
    civilFromDays (daysFromCivil y m d) = (y, m, d) := by
  obtain ⟨hlow, hhigh, hmonth⟩ := day_of_year hm hd
  rw [daysFromCivil_eq, civilFromDays_eq hlow hhigh, hmonth]
  dsimp only
  have hm' : (if ((if m ≤ 2 then m + 9 else m - 3 : Nat) : Int) < 10 then
      ((if m ≤ 2 then m + 9 else m - 3 : Nat) : Int) + 3
      else ((if m ≤ 2 then m + 9 else m - 3 : Nat) : Int) - 9).toNat = m := by
    split <;> split at * <;> omega
  have hstart : (153 * ((if m ≤ 2 then m + 9 else m - 3 : Nat) : Int) + 2) / 5 = monthStart m := by
    unfold monthStart
    push_cast
    rfl
  rw [hm', hstart, marchYear]
  refine Prod.ext ?_ (Prod.ext rfl ?_)
  · dsimp only
    split <;> omega
  · dsimp only
    omega

/-- **Every day number** is that of a date. -/
theorem exists_civil (z : Int) : ∃ y m d, (1 ≤ m ∧ m ≤ 12) ∧ (1 ≤ d ∧ d ≤ monthLength y m) ∧
    daysFromCivil y m d = z := by
  obtain ⟨y, doy, hlow, hlen, rfl⟩ := exists_day_of_year z
  have hdate : ∀ (year : Int) (m : Nat), 1 ≤ m ∧ m ≤ 12 → marchYear year m = y →
      monthStart m ≤ doy → doy < monthStart m + monthLength year m →
      ∃ y' m d, (1 ≤ m ∧ m ≤ 12) ∧ (1 ≤ d ∧ d ≤ monthLength y' m) ∧
        daysFromCivil y' m d = yearStart y + doy - 719468 := by
    intro year m hm hyear hstart hend
    refine ⟨year, m, (doy - monthStart m + 1).toNat, hm, by omega, ?_⟩
    rw [daysFromCivil_eq, hyear, Int.toNat_of_nonneg (by omega)]
    ring
  have hfebruary := monthLength_february (y + 1)
  rw [Int.add_sub_cancel] at hfebruary
  have hlater : ∀ m, ¬m ≤ 2 → marchYear y m = y := fun m hm => if_neg hm
  have hnext : ∀ m, m ≤ 2 → marchYear (y + 1) m = y := fun m hm => by
    rw [marchYear, if_pos hm, Int.add_sub_cancel]
  have hmonth : doy < 31 ∨ 31 ≤ doy ∧ doy < 61 ∨ 61 ≤ doy ∧ doy < 92 ∨ 92 ≤ doy ∧ doy < 122 ∨
      122 ≤ doy ∧ doy < 153 ∨ 153 ≤ doy ∧ doy < 184 ∨ 184 ≤ doy ∧ doy < 214 ∨
      214 ≤ doy ∧ doy < 245 ∨ 245 ≤ doy ∧ doy < 275 ∨ 275 ≤ doy ∧ doy < 306 ∨
      306 ≤ doy ∧ doy < 337 ∨ 337 ≤ doy := by omega
  rcases hmonth with h | h | h | h | h | h | h | h | h | h | h | h
  · exact hdate y 3 (by decide) (hlater 3 (by decide)) hlow
      (by simpa [monthStart, monthLength] using h)
  · exact hdate y 4 (by decide) (hlater 4 (by decide)) h.1 h.2
  · exact hdate y 5 (by decide) (hlater 5 (by decide)) h.1 h.2
  · exact hdate y 6 (by decide) (hlater 6 (by decide)) h.1 h.2
  · exact hdate y 7 (by decide) (hlater 7 (by decide)) h.1 h.2
  · exact hdate y 8 (by decide) (hlater 8 (by decide)) h.1 h.2
  · exact hdate y 9 (by decide) (hlater 9 (by decide)) h.1 h.2
  · exact hdate y 10 (by decide) (hlater 10 (by decide)) h.1 h.2
  · exact hdate y 11 (by decide) (hlater 11 (by decide)) h.1 h.2
  · exact hdate y 12 (by decide) (hlater 12 (by decide)) h.1 h.2
  · exact hdate (y + 1) 1 (by decide) (hnext 1 (by decide)) h.1 h.2
  · refine hdate (y + 1) 2 (by decide) (hnext 2 (by decide)) h ?_
    have hstart : monthStart 2 = 337 := rfl
    omega

end Months

/-! ### One month after another -/

/-- A month of the calendar. -/
def IsMonth (ym : Int × Nat) : Prop := 1 ≤ ym.2 ∧ ym.2 ≤ 12

/-- The month after a month. -/
def nextMonth (ym : Int × Nat) : Int × Nat :=
  if ym.2 = 12 then (ym.1 + 1, 1) else (ym.1, ym.2 + 1)

/-- The months in their order, counted. -/
def monthIndex (ym : Int × Nat) : Int := 12 * ym.1 + ym.2

section Sequence

variable {ym ym' : Int × Nat}

theorem IsMonth.next (h : IsMonth ym) : IsMonth (nextMonth ym) := by
  obtain ⟨hlow, hhigh⟩ := h
  unfold nextMonth
  split
  · exact ⟨Nat.le_refl 1, Nat.le_add_left 1 11⟩
  · next hm =>
    refine ⟨?_, ?_⟩
    · show 1 ≤ ym.2 + 1
      omega
    · show ym.2 + 1 ≤ 12
      omega

theorem monthIndex_next (ym : Int × Nat) : monthIndex (nextMonth ym) = monthIndex ym + 1 := by
  unfold nextMonth monthIndex
  split
  · next hm =>
    rw [hm]
    push_cast
    ring
  · push_cast
    ring

theorem eq_of_monthIndex (h : IsMonth ym) (h' : IsMonth ym')
    (heq : monthIndex ym = monthIndex ym') : ym = ym' := by
  obtain ⟨y, m⟩ := ym
  obtain ⟨y', m'⟩ := ym'
  obtain ⟨hlow, hhigh⟩ := h
  obtain ⟨hlow', hhigh'⟩ := h'
  simp only [monthIndex] at *
  refine Prod.ext ?_ ?_
  · show y = y'
    omega
  · show m = m'
    omega

theorem isMonth_iterate (h : IsMonth ym) (k : Nat) : IsMonth (nextMonth^[k] ym) := by
  induction k with
  | zero => exact h
  | succ k ih =>
    rw [Function.iterate_succ_apply']
    exact ih.next

/-- The months from one on, up to a later one. -/
theorem exists_iterate_nextMonth (h : IsMonth ym) (h' : IsMonth ym')
    (hle : monthIndex ym ≤ monthIndex ym') :
    ∃ k : Nat, nextMonth^[k] ym = ym' ∧ monthIndex ym' = monthIndex ym + k := by
  have hiterate : ∀ k : Nat, monthIndex (nextMonth^[k] ym) = monthIndex ym + k := by
    intro k
    induction k with
    | zero => simp
    | succ k ih =>
      rw [Function.iterate_succ_apply', monthIndex_next, ih]
      push_cast
      ring
  obtain ⟨k, hk⟩ := Int.eq_ofNat_of_zero_le (Int.sub_nonneg.mpr hle)
  have hindex : monthIndex ym' = monthIndex ym + k := by omega
  exact ⟨k, eq_of_monthIndex (isMonth_iterate h k) h' ((hiterate k).trans hindex.symm), hindex⟩

theorem daysFromCivil_one {y y' : Int} {m m' : Nat} (hyear : marchYear y' m' = marchYear y m)
    (hstart : monthStart m' = monthStart m + monthLength y m) :
    daysFromCivil y' m' 1 = daysFromCivil y m 1 + monthLength y m := by
  rw [daysFromCivil_eq, daysFromCivil_eq, hyear, hstart]
  ring

/-- A month begins where the one before it ends. -/
theorem daysFromCivil_nextMonth (h : IsMonth ym) :
    daysFromCivil (nextMonth ym).1 (nextMonth ym).2 1 =
      daysFromCivil ym.1 ym.2 1 + monthLength ym.1 ym.2 := by
  obtain ⟨y, m⟩ := ym
  rcases months h with rfl | rfl | rfl | rfl | rfl | rfl | rfl | rfl | rfl | rfl | rfl | rfl
  case inr.inl =>
    -- The year from March ends with February.
    have hyear := yearStart_succ (y - 1)
    rw [Int.sub_add_cancel] at hyear
    show daysFromCivil y 3 1 = daysFromCivil y 2 1 + monthLength y 2
    rw [daysFromCivil_eq, daysFromCivil_eq, monthLength_february]
    show yearStart y + (0 + 1 - 1) - _ = yearStart (y - 1) + (337 + 1 - 1) - _ + _
    omega
  case inr.inr.inr.inr.inr.inr.inr.inr.inr.inr.inr =>
    exact daysFromCivil_one (Int.add_sub_cancel y 1)
      (by simp [nextMonth, monthStart, monthLength])
  all_goals exact daysFromCivil_one rfl (by simp [nextMonth, monthStart, monthLength])

theorem daysFromCivil_day (y : Int) (m d : Nat) :
    daysFromCivil y m d = daysFromCivil y m 1 + (d : Int) - 1 := by
  rw [daysFromCivil_eq, daysFromCivil_eq]
  push_cast
  ring

theorem monthLength_bounds (h : IsMonth ym) :
    28 ≤ monthLength ym.1 ym.2 ∧ monthLength ym.1 ym.2 ≤ 31 := by
  obtain ⟨y, m⟩ := ym
  rcases months h with rfl | rfl | rfl | rfl | rfl | rfl | rfl | rfl | rfl | rfl | rfl | rfl
  case inr.inl =>
    show 28 ≤ (if isLeap y then 29 else 28) ∧ (if isLeap y then 29 else 28) ≤ 31
    split <;> omega
  all_goals exact ⟨by simp [monthLength], by simp [monthLength]⟩

/-- So many months on. -/
theorem daysFromCivil_months (h : IsMonth ym) (h' : IsMonth ym') {n : Nat}
    (hn : monthIndex ym' = monthIndex ym + n) :
    daysFromCivil ym.1 ym.2 1 + 28 * n ≤ daysFromCivil ym'.1 ym'.2 1 ∧
      daysFromCivil ym'.1 ym'.2 1 ≤ daysFromCivil ym.1 ym.2 1 + 31 * n := by
  obtain ⟨k, rfl, hk⟩ := exists_iterate_nextMonth h h' (by omega)
  obtain rfl : k = n := by omega
  clear hn hk h'
  induction k with
  | zero => simp
  | succ k ih =>
    have hmonth := isMonth_iterate h k
    have hlen := monthLength_bounds hmonth
    rw [Function.iterate_succ_apply', daysFromCivil_nextMonth hmonth]
    push_cast
    omega

/-- **Later months have later days.** -/
theorem daysFromCivil_lt {d d' : Nat} (h : IsMonth ym) (h' : IsMonth ym')
    (hd : d ≤ monthLength ym.1 ym.2) (hd' : 1 ≤ d') (hlt : monthIndex ym < monthIndex ym') :
    daysFromCivil ym.1 ym.2 d < daysFromCivil ym'.1 ym'.2 d' := by
  obtain ⟨n, hn⟩ := Int.eq_ofNat_of_zero_le (Int.sub_nonneg.mpr (Int.add_one_le_of_lt hlt))
  have hlater := (daysFromCivil_months h.next h' (n := n) (by rw [monthIndex_next]; omega)).1
  have hnext := daysFromCivil_nextMonth h
  rw [daysFromCivil_day ym.1, daysFromCivil_day ym'.1]
  omega

end Sequence

end Bellman
