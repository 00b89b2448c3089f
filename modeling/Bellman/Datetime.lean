/-
Bellman/Datetime.lean

Instants as texts.

The store keeps instants as texts, to the nanosecond and in UTC, and compares
them as texts:

    2026-03-08T07:00:00.000000000Z

The fields have a fixed width and come the most significant first, so the
order of the texts is that of the instants, as long as the year has four
digits.  A year before 0 or after 9999 is written with a sign and is not read
back: the grammar of the texts that are read has four digits for the year.

Main results: instants that are read back are those of the years 0 to 9999
(`readsBack_iff`), they are read back exactly (`parseDt_fmtDt`), and their
texts are in their order (`fmtDt_lt_iff`).
-/
import Bellman.Lib.Numeral
import Bellman.Civil
import Bellman.Interval
import Bellman.Store
import Mathlib.Data.Char
import Mathlib.Data.List.Lex

namespace Bellman

open ProgramLogic

/-! ### Texts of instants -/

/-- The year: four digits, or a sign and at least four (`{:+05}`). -/
def fmtYear (y : Int) : List Char :=
  if 0 ≤ y ∧ y ≤ 9999 then numeral 4 y.toNat
  else (if y < 0 then '-' else '+') :: padded 4 y.natAbs

/-- The whole seconds of the day. -/
def secondOfDay (t : Int) : Nat := (t % DAY / NS).toNat

/-- `to_rfc3339_opts(SecondsFormat::Nanos, true)`. -/
def fmtDt (t : Int) : List Char :=
  let (y, m, d) := civilFromDays (t / DAY)
  let s := secondOfDay t
  fmtYear y ++ '-' :: (numeral 2 m ++ '-' :: (numeral 2 d ++ 'T' :: (numeral 2 (s / 3600) ++
    ':' :: (numeral 2 (s / 60 % 60) ++ ':' :: (numeral 2 (s % 60) ++
    '.' :: (numeral 9 (t % NS).toNat ++ ['Z']))))))

/-! ### Instants of texts -/

namespace Rfc3339

def TOO_SHORT : String := "premature end of input"
def INVALID : String := "input contains invalid characters"
def OUT_OF_RANGE : String := "input is out of range"
def TOO_LONG : String := "trailing input"

/-- `scan::number` for a width of `k` digits. -/
def number (k : Nat) (s : List Char) : Except String (Nat × List Char) :=
  if s.length < k then .error TOO_SHORT
  else if (s.take k).all Char.isDigit then .ok (Nat.ofDigitChars 10 (s.take k) 0, s.drop k)
  else .error INVALID

/-- `scan::char`, for one of several characters. -/
def char (cs : List Char) : List Char → Except String (List Char)
  | [] => .error TOO_SHORT
  | c :: s => if c ∈ cs then .ok s else .error INVALID

/-- `scan::nanosecond`: as many digits as there are, of which nine count. -/
def nanosecond (s : List Char) : Except String (Nat × List Char) :=
  let digits := s.takeWhile Char.isDigit
  if digits = [] then .error (if s = [] then TOO_SHORT else INVALID)
  else .ok (Nat.ofDigitChars 10 (digits.take 9) 0 * 10 ^ (9 - digits.length),
    s.dropWhile Char.isDigit)

/-- The fraction of a second, if there is one. -/
def fraction : List Char → Except String (Nat × List Char)
  | '.' :: s => nanosecond s
  | s => .ok (0, s)

/-- `scan::timezone_offset`: the offset in seconds. -/
def offset : List Char → Except String (Int × List Char)
  | [] => .error TOO_SHORT
  | c :: s =>
    if c = 'Z' ∨ c = 'z' then .ok (0, s)
    else if c = '+' ∨ c = '-' then do
      let (h, s) ← number 2 s
      let s ← char [':'] s
      let (m, s) ← number 2 s
      if 59 < m then .error OUT_OF_RANGE
      else
        let secs : Int := h * 3600 + m * 60
        if 86400 ≤ secs then .error OUT_OF_RANGE
        else return (if c = '-' then -secs else secs, s)
    else .error INVALID

/-- The instant that the fields stand for. -/
def build (y mo d h mi s nano : Nat) (off : Int) : Except String Int :=
  match Date.fromYmdOpt y mo d with
  | none => .error OUT_OF_RANGE
  | some date =>
    if 23 < h ∨ 59 < mi ∨ 60 < s then .error OUT_OF_RANGE
    else
      let t := date * DAY + secs (h * 3600 + mi * 60 + s) + nano - secs off
      if IsUtc t then .ok t else .error OUT_OF_RANGE

/-- `DateTime::parse_from_rfc3339`, as an instant. -/
def parse (s : List Char) : Except String Int := do
  let (y, s) ← number 4 s
  let s ← char ['-'] s
  let (mo, s) ← number 2 s
  let s ← char ['-'] s
  let (d, s) ← number 2 s
  let s ← char ['T', 't', ' '] s
  let (h, s) ← number 2 s
  let s ← char [':'] s
  let (mi, s) ← number 2 s
  let s ← char [':'] s
  let (sec, s) ← number 2 s
  let (nano, s) ← fraction s
  let (off, s) ← offset s
  if s = [] then build y mo d h mi sec nano off else .error TOO_LONG

end Rfc3339

/-- `parse_dt`. -/
def parseDt (s : List Char) : Except StoreError Int :=
  match Rfc3339.parse s with
  | .ok t => .ok t
  | .error e => .error (.internal s!"bad datetime '{String.ofList s}': {e}")

/-! ### Fields -/

section Fields

variable {t : Int}

theorem secondOfDay_lt (t : Int) : secondOfDay t < 86400 := by
  unfold secondOfDay
  simp only [DAY, NS]
  omega

/-- An instant is its day, its second of the day and its nanosecond. -/
theorem eq_of_fields (t : Int) :
    t = t / DAY * DAY + secs (secondOfDay t) + ((t % NS).toNat : Int) := by
  unfold secondOfDay secs
  simp only [DAY, NS]
  omega

theorem nano_lt (t : Int) : (t % NS).toNat < 10 ^ 9 := by
  simp only [NS]
  omega

/-- The date of an instant, written out. -/
theorem exists_fields (t : Int) : ∃ y m d, (1 ≤ m ∧ m ≤ 12) ∧ (1 ≤ d ∧ d ≤ monthLength y m) ∧
    daysFromCivil y m d = t / DAY ∧ civilFromDays (t / DAY) = (y, m, d) := by
  obtain ⟨y, m, d, hm, hd, hdays⟩ := exists_civil (t / DAY)
  exact ⟨y, m, d, hm, hd, hdays, hdays ▸ civilFromDays_daysFromCivil hm hd⟩

theorem fmtDt_eq {y : Int} {m d : Nat} (h : civilFromDays (t / DAY) = (y, m, d)) :
    fmtDt t = fmtYear y ++ '-' :: (numeral 2 m ++ '-' :: (numeral 2 d ++ 'T' ::
      (numeral 2 (secondOfDay t / 3600) ++ ':' :: (numeral 2 (secondOfDay t / 60 % 60) ++
      ':' :: (numeral 2 (secondOfDay t % 60) ++
      '.' :: (numeral 9 (t % NS).toNat ++ ['Z'])))))) := by
  unfold fmtDt
  rw [h]

end Fields

/-! ### Reading back -/

namespace Rfc3339

variable {k n : Nat} {r : List Char}

/-- A numeral of the width asked for is read. -/
theorem number_numeral (h : n < 10 ^ k) : number k (numeral k n ++ r) = .ok (n, r) := by
  have hlen := numeral_length k n
  unfold number
  rw [if_neg (by rw [List.length_append, hlen]; omega), List.take_left' hlen, List.drop_left' hlen,
    if_pos (numeral_isDigit k n), ofDigitChars_numeral h]

theorem char_cons {cs : List Char} {c : Char} (h : c ∈ cs) : char cs (c :: r) = .ok r := by
  exact if_pos h

/-- Nine digits are the nanosecond. -/
theorem nanosecond_numeral (h : n < 10 ^ 9) :
    nanosecond (numeral 9 n ++ 'Z' :: r) = .ok (n, 'Z' :: r) := by
  have hlen := numeral_length 9 n
  have hdigits : (numeral 9 n ++ 'Z' :: r).takeWhile Char.isDigit = numeral 9 n := by
    rw [List.takeWhile_append_of_pos (List.all_eq_true.mp (numeral_isDigit 9 n)),
      List.takeWhile_cons_of_neg (by decide), List.append_nil]
  have hrest : (numeral 9 n ++ 'Z' :: r).dropWhile Char.isDigit = 'Z' :: r := by
    rw [List.dropWhile_append_of_pos (List.all_eq_true.mp (numeral_isDigit 9 n)),
      List.dropWhile_cons_of_neg (by decide)]
  unfold nanosecond
  rw [hdigits, hrest]
  have hne : numeral 9 n ≠ [] := by
    intro hnil
    rw [hnil] at hlen
    cases hlen
  rw [if_neg hne, hlen, List.take_of_length_le (Nat.le_of_eq hlen), ofDigitChars_numeral h]
  simp

end Rfc3339

section Read

variable {t u : Int}

/-- The instants of the years 0 to 9999. -/
def FourDigits (t : Int) : Prop := 0 ≤ Date.year (t / DAY) ∧ Date.year (t / DAY) ≤ 9999

theorem parse_fmtDt (ht : IsUtc t) (h : FourDigits t) : Rfc3339.parse (fmtDt t) = .ok t := by
  obtain ⟨y, m, d, hm, hd, hdays, hcivil⟩ := exists_fields t
  have hyear : Date.year (t / DAY) = y := by rw [Date.year, hcivil]
  unfold FourDigits at h
  rw [hyear] at h
  have hlen := (monthLength_bounds (show IsMonth (y, m) from hm)).2
  have hs := secondOfDay_lt t
  have hdate : Date.fromYmdOpt (y.toNat : Int) m d = some (t / DAY) := by
    rw [Int.toNat_of_nonneg h.1, Date.fromYmdOpt, if_pos ⟨by omega, by omega, hd.1, hd.2⟩, hdays]
  have hfields := eq_of_fields t
  have hsplit : (secondOfDay t / 3600 : Nat) * 3600 + (secondOfDay t / 60 % 60 : Nat) * 60 +
      (secondOfDay t % 60 : Nat) = secondOfDay t := by omega
  have hsecs : t / DAY * DAY + secs ((secondOfDay t / 3600 : Nat) * 3600 +
      (secondOfDay t / 60 % 60 : Nat) * 60 + (secondOfDay t % 60 : Nat)) +
      ((t % NS).toNat : Int) - secs 0 = t := by
    rw [show secs 0 = 0 from rfl, Int.sub_zero]
    rw [← hsplit] at hfields
    push_cast at hfields ⊢
    exact hfields.symm
  have hbuild : Rfc3339.build y.toNat m d (secondOfDay t / 3600) (secondOfDay t / 60 % 60)
      (secondOfDay t % 60) (t % NS).toNat 0 = .ok t := by
    rw [Rfc3339.build, hdate]
    dsimp only
    rw [if_neg (by omega), hsecs, if_pos ht]
  have hy : y.toNat < 10 ^ 4 := by omega
  have hmo : m < 10 ^ 2 := by omega
  have hda : d < 10 ^ 2 := by
    dsimp only at hlen
    omega
  have hho : secondOfDay t / 3600 < 10 ^ 2 := by omega
  have hmi : secondOfDay t / 60 % 60 < 10 ^ 2 := by omega
  have hse : secondOfDay t % 60 < 10 ^ 2 := by omega
  rw [fmtDt_eq hcivil, fmtYear, if_pos h]
  -- The fields are read one after another.
  simp only [Rfc3339.parse, bind, Except.bind, Rfc3339.number_numeral hy,
    Rfc3339.number_numeral hmo, Rfc3339.number_numeral hda, Rfc3339.number_numeral hho,
    Rfc3339.number_numeral hmi, Rfc3339.number_numeral hse, Rfc3339.char_cons, List.mem_cons,
    List.not_mem_nil, or_false, true_or, Rfc3339.fraction, Rfc3339.nanosecond_numeral (nano_lt t),
    Rfc3339.offset, if_true, hbuild]

/-- A year that is written with a sign is not read. -/
theorem parse_error (h : ¬FourDigits t) : Rfc3339.parse (fmtDt t) = .error Rfc3339.INVALID := by
  obtain ⟨y, m, d, -, -, -, hcivil⟩ := exists_fields t
  have hyear : Date.year (t / DAY) = y := by rw [Date.year, hcivil]
  unfold FourDigits at h
  rw [hyear] at h
  rw [fmtDt_eq hcivil, fmtYear, if_neg h]
  generalize hsign : (if y < 0 then '-' else '+') = sign
  have hdigit : sign.isDigit = false := by
    rw [← hsign]
    split <;> rfl
  have hnumber : ∀ r, Rfc3339.number 4 (sign :: (padded 4 y.natAbs ++ r)) =
      .error Rfc3339.INVALID := by
    intro r
    unfold Rfc3339.number
    rw [if_neg, if_neg]
    · simp [hdigit]
    · rw [List.length_cons, List.length_append, padded, List.length_leftpad]
      omega
  unfold Rfc3339.parse
  rw [List.cons_append, hnumber]
  rfl

/-- **The instants that are read back** are those of four-digit years. -/
theorem readsBack_iff (ht : IsUtc t) : (∃ u, parseDt (fmtDt t) = .ok u) ↔ FourDigits t := by
  constructor
  · rintro ⟨u, hu⟩
    by_contra h
    rw [parseDt, parse_error h] at hu
    cases hu
  · intro h
    exact ⟨t, by rw [parseDt, parse_fmtDt ht h]⟩

/-- They are read back exactly. -/
theorem parseDt_fmtDt (ht : IsUtc t) (h : FourDigits t) : parseDt (fmtDt t) = .ok t := by
  rw [parseDt, parse_fmtDt ht h]

end Read

/-! ### Order -/

section Order

variable {t u : Int}

/-- Dates are in the order of their years, months and days. -/
theorem date_cases {y y' : Int} {m m' d d' : Nat} (hm : IsMonth (y, m)) (hm' : IsMonth (y', m'))
    (hd : 1 ≤ d) (hd' : d' ≤ monthLength y' m')
    (hlt : daysFromCivil y m d < daysFromCivil y' m' d') :
    y < y' ∨ y = y' ∧ (m < m' ∨ m = m' ∧ d < d') := by
  have hbefore : ¬monthIndex (y', m') < monthIndex (y, m) := by
    intro h
    have := daysFromCivil_lt hm' hm hd' hd h
    dsimp only at this
    omega
  obtain ⟨hlow, hhigh⟩ := hm
  obtain ⟨hlow', hhigh'⟩ := hm'
  simp only [monthIndex] at *
  by_cases hyear : y = y'
  · subst hyear
    by_cases hmonth : m = m'
    · subst hmonth
      rw [daysFromCivil_day y m d, daysFromCivil_day y m d'] at hlt
      omega
    · omega
  · omega

/-- The text of an earlier instant comes first. -/
theorem fmtDt_lt (ht : FourDigits t) (hu : FourDigits u) (hlt : t < u) : fmtDt t < fmtDt u := by
  obtain ⟨y, m, d, hm, hd, hdays, hcivil⟩ := exists_fields t
  obtain ⟨y', m', d', hm', hd', hdays', hcivil'⟩ := exists_fields u
  unfold FourDigits Date.year at ht hu
  rw [hcivil] at ht
  rw [hcivil'] at hu
  have hlen := (monthLength_bounds (show IsMonth (y', m') from hm')).2
  have hs := secondOfDay_lt u
  rw [fmtDt_eq hcivil, fmtDt_eq hcivil', fmtYear, fmtYear, if_pos ht, if_pos hu]
  dsimp only at ht hu hlen
  have hday : t / DAY ≤ u / DAY := Int.ediv_le_ediv (by decide) (Int.le_of_lt hlt)
  rcases hday.lt_or_eq with hday | hday
  · -- An earlier day: the first of the fields of the date that differ decides.
    rw [← hdays, ← hdays'] at hday
    rcases date_cases hm hm' hd.1 hd'.2 hday with hy | ⟨rfl, hmo | ⟨rfl, hda⟩⟩
    · exact numeral_append_lt (by omega) (by omega)
    · apply List.append_left_lt
      rw [List.cons_lt_cons_self]
      exact numeral_append_lt hmo (by omega)
    · apply List.append_left_lt
      rw [List.cons_lt_cons_self]
      apply List.append_left_lt
      rw [List.cons_lt_cons_self]
      exact numeral_append_lt hda (by omega)
  · -- The same day, and an earlier time.
    rw [hday, hcivil'] at hcivil
    cases hcivil
    have hfields := eq_of_fields t
    have hfields' := eq_of_fields u
    have hnano := nano_lt t
    have hnano' := nano_lt u
    have htime : secondOfDay t < secondOfDay u ∨ secondOfDay t = secondOfDay u ∧
        (t % NS).toNat < (u % NS).toNat := by
      rw [hday] at hfields
      unfold secs at hfields hfields'
      have hns : NS = 1000000000 := rfl
      rw [hns] at hfields hfields' hnano hnano' ⊢
      omega
    apply List.append_left_lt
    rw [List.cons_lt_cons_self]
    apply List.append_left_lt
    rw [List.cons_lt_cons_self]
    apply List.append_left_lt
    rw [List.cons_lt_cons_self]
    rcases htime with hsec | ⟨hsec, hnanos⟩
    · have hparts : secondOfDay t / 3600 < secondOfDay u / 3600 ∨
          secondOfDay t / 3600 = secondOfDay u / 3600 ∧
            (secondOfDay t / 60 % 60 < secondOfDay u / 60 % 60 ∨
              secondOfDay t / 60 % 60 = secondOfDay u / 60 % 60 ∧
                secondOfDay t % 60 < secondOfDay u % 60) := by omega
      rcases hparts with hho | ⟨hho, hmi | ⟨hmi, hse⟩⟩
      · exact numeral_append_lt hho (by omega)
      · rw [hho]
        apply List.append_left_lt
        rw [List.cons_lt_cons_self]
        exact numeral_append_lt hmi (by omega)
      · rw [hho, hmi]
        apply List.append_left_lt
        rw [List.cons_lt_cons_self]
        apply List.append_left_lt
        rw [List.cons_lt_cons_self]
        exact numeral_append_lt hse (by omega)
    · rw [hsec]
      apply List.append_left_lt
      rw [List.cons_lt_cons_self]
      apply List.append_left_lt
      rw [List.cons_lt_cons_self]
      apply List.append_left_lt
      rw [List.cons_lt_cons_self]
      exact numeral_append_lt hnanos hnano'

/-- **The texts are in the order of the instants.** -/
theorem fmtDt_le_iff (ht : FourDigits t) (hu : FourDigits u) : fmtDt t ≤ fmtDt u ↔ t ≤ u := by
  rcases Int.lt_trichotomy t u with hlt | rfl | hlt
  · exact iff_of_true (le_of_lt (fmtDt_lt ht hu hlt)) (Int.le_of_lt hlt)
  · exact iff_of_true (le_refl _) (Int.le_refl _)
  · exact iff_of_false (not_le.mpr (fmtDt_lt hu ht hlt)) (Int.not_le.mpr hlt)

theorem fmtDt_injective (ht : FourDigits t) (hu : FourDigits u) (h : fmtDt t = fmtDt u) :
    t = u := by
  apply Int.le_antisymm
  · exact (fmtDt_le_iff ht hu).mp (le_of_eq h)
  · exact (fmtDt_le_iff hu ht).mp (le_of_eq h.symm)

/-- A year that is written with a sign comes before the years that are not. -/
theorem fmtDt_sign_lt (ht : ¬FourDigits t) (hu : FourDigits u) : fmtDt t < fmtDt u := by
  obtain ⟨y, m, d, -, -, -, hcivil⟩ := exists_fields t
  obtain ⟨y', m', d', -, -, -, hcivil'⟩ := exists_fields u
  unfold FourDigits Date.year at ht hu
  rw [hcivil] at ht
  rw [hcivil'] at hu
  rw [fmtDt_eq hcivil, fmtDt_eq hcivil', fmtYear, fmtYear, if_neg ht, if_pos hu]
  have hsign : ∀ n < 10, '-' < Nat.digitChar n ∧ '+' < Nat.digitChar n := by decide
  obtain ⟨n, hn, r, hr⟩ := exists_digit 3 y'.toNat
  rw [hr, List.cons_append, List.cons_append, List.cons_lt_cons_iff]
  left
  split
  · exact (hsign n hn).1
  · exact (hsign n hn).2

/-- Earlier instants have earlier years. -/
theorem year_le (h : t ≤ u) : Date.year (t / DAY) ≤ Date.year (u / DAY) := by
  obtain ⟨y, m, d, hm, hd, hdays, hcivil⟩ := exists_fields t
  obtain ⟨y', m', d', hm', hd', hdays', hcivil'⟩ := exists_fields u
  unfold Date.year
  rw [hcivil, hcivil']
  have hday : t / DAY ≤ u / DAY := Int.ediv_le_ediv (by decide) h
  rcases hday.lt_or_eq with hday | hday
  · rw [← hdays, ← hdays'] at hday
    rcases date_cases hm hm' hd.1 hd'.2 hday with hy | ⟨rfl, -⟩
    · exact Int.le_of_lt hy
    · exact Int.le_refl _
  · rw [hday, hcivil'] at hcivil
    cases hcivil
    exact Int.le_refl _

end Order

end Bellman
