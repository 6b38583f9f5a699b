import Mathlib.Algebra.GroupWithZero.Nat
import Mathlib.Data.Int.Basic

/-!
# The calendar of ECMAScript dates

Days are counted from 1970-01-01, a Thursday, in the Gregorian calendar extended to every
year.  Months are counted from `0`, as `getUTCMonth` does.

* `dayFromYear`, `makeDay` — the number of the first day of a year, and of any day.
* `yearFromDay` — the year of a day, the largest one that starts no later
  (`yearFromDay_spec`).
* `monthFromDay`, `dateFromDay` — the month of a day and its place there (`makeDay_civil`,
  `civil_makeDay`).
* `CivilDate` — a date that exists.  Later dates have greater numbers (`number_lt_iff`).
* `isoWeek` — the week, from Monday to Sunday, that a day lies in.
-/

namespace Calendar

def isLeap (y : ℤ) : Bool := (y % 4 == 0 && y % 100 != 0) || y % 400 == 0

/-- `DayFromYear`. -/
def dayFromYear (y : ℤ) : ℤ :=
  365 * (y - 1970) + (y - 1969) / 4 - (y - 1901) / 100 + (y - 1601) / 400

/-- The days of a year in front of a month. -/
def monthStart (leap : Bool) (m : Fin 12) : ℤ :=
  [0, 31, 59, 90, 120, 151, 181, 212, 243, 273, 304, 334][m]
    + if leap ∧ 2 ≤ m.val then 1 else 0

def daysInMonth (leap : Bool) (m : Fin 12) : ℕ :=
  [31, 28, 31, 30, 31, 30, 31, 31, 30, 31, 30, 31][m] + if leap ∧ m.val = 1 then 1 else 0

/-- `MakeDay` for a month of the year; the day may lie outside the month. -/
def makeDay (y : ℤ) (m : Fin 12) (d : ℤ) : ℤ :=
  dayFromYear y + monthStart (isLeap y) m + (d - 1)

/-- `YearFromTime`: an estimate from the mean length of a year, put right by at most one. -/
def yearFromDay (n : ℤ) : ℤ :=
  let y := 1970 + n * 400 / 146097
  if n < dayFromYear y then y - 1 else if dayFromYear (y + 1) ≤ n then y + 1 else y

/-- The day within its year, from `0` on. -/
def dayWithinYear (n : ℤ) : ℤ := n - dayFromYear (yearFromDay n)

/-- A year has months, so a numeral names one. -/
instance neZero_months : NeZero 12 := ⟨by decide⟩

/-- `MonthFromTime`: the last month that begins no later than the day. -/
def monthFromDay (n : ℤ) : Fin 12 :=
  ((List.finRange 12).reverse.find? (fun m =>
    decide (monthStart (isLeap (yearFromDay n)) m ≤ dayWithinYear n))).getD 0

/-- `DateFromTime`: the day of the month, from `1` on. -/
def dateFromDay (n : ℤ) : ℤ :=
  dayWithinYear n - monthStart (isLeap (yearFromDay n)) (monthFromDay n) + 1

/-- The length of the month a day lies in. -/
def monthLength (n : ℤ) : ℕ := daysInMonth (isLeap (yearFromDay n)) (monthFromDay n)

/-- The weekday of a day; `0` is Sunday. -/
def weekDay (n : ℤ) : ℤ := (n + 4) % 7

/-- The week of a day, from Monday to Sunday. -/
def isoWeek (n : ℤ) : ℤ := (n + 3) / 7

/-! ### Years -/

theorem dayFromYear_succ (y : ℤ) :
    dayFromYear (y + 1) = dayFromYear y + 365 + if isLeap y then 1 else 0 := by
  unfold dayFromYear
  by_cases h : isLeap y = true
  · rw [if_pos h]
    simp only [isLeap, Bool.or_eq_true, Bool.and_eq_true, beq_iff_eq, bne_iff_ne] at h
    omega
  · rw [if_neg h]
    simp only [isLeap, Bool.or_eq_true, Bool.and_eq_true, beq_iff_eq, bne_iff_ne] at h
    omega

theorem dayFromYear_mono {y y' : ℤ} (h : y ≤ y') : dayFromYear y ≤ dayFromYear y' := by
  unfold dayFromYear
  omega

/-- `yearFromDay` is the year that the day lies in. -/
theorem yearFromDay_spec (n : ℤ) :
    dayFromYear (yearFromDay n) ≤ n ∧ n < dayFromYear (yearFromDay n + 1) := by
  have hlow : dayFromYear (1970 + n * 400 / 146097 - 1) ≤ n := by
    unfold dayFromYear
    omega
  have hhigh : n < dayFromYear (1970 + n * 400 / 146097 + 1 + 1) := by
    unfold dayFromYear
    omega
  simp only [yearFromDay]
  split
  · rename_i h
    rw [Int.sub_add_cancel]
    exact ⟨hlow, h⟩
  · rename_i h
    split
    · rename_i h'
      exact ⟨h', hhigh⟩
    · rename_i h'
      exact ⟨Int.not_lt.mp h, Int.not_le.mp h'⟩

/-- Years do not overlap. -/
theorem yearFromDay_eq {n y : ℤ} (hlow : dayFromYear y ≤ n) (hhigh : n < dayFromYear (y + 1)) :
    yearFromDay n = y := by
  obtain ⟨hle, hlt⟩ := yearFromDay_spec n
  rcases Int.lt_trichotomy (yearFromDay n) y with h | h | h
  · have hmono := dayFromYear_mono (Int.add_one_le_of_lt h)
    omega
  · exact h
  · have hmono := dayFromYear_mono (Int.add_one_le_of_lt h)
    omega

/-! ### Dates -/

/-- A date of the years `0000` to `9999`. -/
@[ext] structure CivilDate where
  year : ℕ
  month : Fin 12
  day : ℕ
  year_lt : year < 10000
  day_pos : 1 ≤ day
  day_le : day ≤ daysInMonth (isLeap year) month
deriving DecidableEq

namespace CivilDate

/-- The number of a date. -/
def number (c : CivilDate) : ℤ := makeDay c.year c.month c.day

/-- The number of the month a date lies in. -/
def monthNumber (c : CivilDate) : ℕ := 12 * c.year + c.month

/-- Earlier in the calendar, by year, month and day. -/
def Earlier (c c' : CivilDate) : Prop :=
  c.year < c'.year ∨ c.year = c'.year ∧ (c.month < c'.month ∨ c.month = c'.month ∧ c.day < c'.day)

end CivilDate

theorem monthStart_add (leap : Bool) (m m' : Fin 12) (h : m < m') :
    monthStart leap m + daysInMonth leap m ≤ monthStart leap m' := by
  revert m m' leap
  decide

theorem monthStart_le (leap : Bool) (m : Fin 12) :
    monthStart leap m + daysInMonth leap m ≤ 365 + if leap then 1 else 0 := by
  revert m leap
  decide

theorem monthStart_nonneg (leap : Bool) (m : Fin 12) : 0 ≤ monthStart leap m := by
  revert m leap
  decide

/-! ### Months -/

theorem monthStart_succ (leap : Bool) (m m' : Fin 12) (h : m.val + 1 = m'.val) :
    monthStart leap m' = monthStart leap m + daysInMonth leap m := by
  revert m m' leap
  decide

theorem monthStart_january (leap : Bool) : monthStart leap 0 = 0 := by
  revert leap
  decide

theorem monthStart_december (leap : Bool) :
    monthStart leap 11 + daysInMonth leap 11 = 365 + if leap then 1 else 0 := by
  revert leap
  decide

theorem daysInMonth_bounds (leap : Bool) (m : Fin 12) :
    28 ≤ daysInMonth leap m ∧ daysInMonth leap m ≤ 31 := by
  revert m leap
  decide

/-- A search from the last number down passes over the greater ones. -/
private theorem find_last {n : ℕ} {p : Fin n → Bool} {m m' : Fin n}
    (h : (List.finRange n).reverse.find? p = some m) (hlt : m < m') : p m' = false := by
  obtain ⟨-, before, after, hsplit, hbefore⟩ := List.find?_eq_some_iff_append.mp h
  have hsorted : (before ++ m :: after).Pairwise (· > ·) := by
    rw [← hsplit, List.pairwise_reverse]
    exact List.pairwise_lt_finRange n
  have hmem : m' ∈ before ++ m :: after := by
    rw [← hsplit, List.mem_reverse]
    exact List.mem_finRange m'
  rcases List.mem_append.mp hmem with hm | hm
  · simpa using hbefore m' hm
  rcases List.mem_cons.mp hm with rfl | hm
  · exact absurd hlt (Nat.lt_irrefl _)
  · have hafter := List.rel_of_pairwise_cons (List.pairwise_append.mp hsorted).2.1 hm
    exact absurd (Nat.lt_trans hlt hafter) (Nat.lt_irrefl _)

/-- The month that the search finds holds the day. -/
private theorem find_month (leap : Bool) (d : ℤ) (hlow : 0 ≤ d)
    (hhigh : d < 365 + if leap then 1 else 0) :
    ∃ m, (List.finRange 12).reverse.find? (fun m => decide (monthStart leap m ≤ d)) = some m ∧
      monthStart leap m ≤ d ∧ d < monthStart leap m + daysInMonth leap m := by
  have hsome : ((List.finRange 12).reverse.find? fun m =>
      decide (monthStart leap m ≤ d)).isSome = true := by
    rw [List.find?_isSome]
    exact ⟨0, by simp, by rw [monthStart_january]; exact decide_eq_true hlow⟩
  obtain ⟨m, hfind⟩ := Option.isSome_iff_exists.mp hsome
  have hle : monthStart leap m ≤ d := by simpa using List.find?_some hfind
  refine ⟨m, hfind, hle, ?_⟩
  by_cases hlast : m = 11
  · rw [hlast, monthStart_december]
    exact hhigh
  · -- the next month begins later
    have hlt := m.isLt
    have hnext : m.val + 1 < 12 := by
      have hne : m.val ≠ 11 := fun h => hlast (Fin.ext h)
      omega
    have hsucc : m < ⟨m.val + 1, hnext⟩ := Fin.lt_def.mpr (Nat.lt_succ_self _)
    have hlater := find_last hfind hsucc
    rw [decide_eq_false_iff_not, monthStart_succ leap m ⟨m.val + 1, hnext⟩ rfl] at hlater
    omega

theorem dayWithinYear_bounds (n : ℤ) : 0 ≤ dayWithinYear n ∧
    dayWithinYear n < 365 + if isLeap (yearFromDay n) then 1 else 0 := by
  obtain ⟨hlow, hhigh⟩ := yearFromDay_spec n
  rw [dayFromYear_succ] at hhigh
  unfold dayWithinYear
  omega

/-- The day lies in its month. -/
theorem monthFromDay_spec (n : ℤ) :
    monthStart (isLeap (yearFromDay n)) (monthFromDay n) ≤ dayWithinYear n ∧
      dayWithinYear n < monthStart (isLeap (yearFromDay n)) (monthFromDay n) + monthLength n := by
  obtain ⟨hlow, hhigh⟩ := dayWithinYear_bounds n
  obtain ⟨m, hfind, hspec⟩ := find_month (isLeap (yearFromDay n)) (dayWithinYear n) hlow hhigh
  have hmonth : monthFromDay n = m := by rw [monthFromDay, hfind, Option.getD_some]
  rw [monthLength, hmonth]
  exact hspec

theorem monthLength_bounds (n : ℤ) : 28 ≤ monthLength n ∧ monthLength n ≤ 31 :=
  daysInMonth_bounds _ _

theorem dateFromDay_bounds (n : ℤ) : 1 ≤ dateFromDay n ∧ dateFromDay n ≤ monthLength n := by
  obtain ⟨hlow, hhigh⟩ := monthFromDay_spec n
  unfold dateFromDay
  omega

theorem makeDay_civil (n k : ℤ) :
    makeDay (yearFromDay n) (monthFromDay n) (dateFromDay n + k) = n + k := by
  unfold makeDay dateFromDay dayWithinYear
  omega

/-- Year, month and date are those the day is made from. -/
theorem civil_makeDay {y : ℤ} {m : Fin 12} {d : ℤ} (hpos : 1 ≤ d)
    (hle : d ≤ daysInMonth (isLeap y) m) :
    yearFromDay (makeDay y m d) = y ∧ monthFromDay (makeDay y m d) = m ∧
      dateFromDay (makeDay y m d) = d := by
  have hstart := monthStart_nonneg (isLeap y) m
  have hend := monthStart_le (isLeap y) m
  have hyear : yearFromDay (makeDay y m d) = y := by
    apply yearFromDay_eq
    · rw [makeDay]
      omega
    · rw [dayFromYear_succ, makeDay]
      omega
  obtain ⟨hlow, hhigh⟩ := monthFromDay_spec (makeDay y m d)
  have hwithin : dayWithinYear (makeDay y m d) = monthStart (isLeap y) m + (d - 1) := by
    rw [dayWithinYear, hyear, makeDay]
    omega
  rw [monthLength] at hhigh
  rw [hwithin, hyear] at hlow hhigh
  -- months do not overlap
  have hmonth : monthFromDay (makeDay y m d) = m := by
    rcases Nat.lt_trichotomy (monthFromDay (makeDay y m d)).val m.val with h | h | h
    · have hadd := monthStart_add (isLeap y) _ _ (Fin.lt_def.mpr h)
      omega
    · exact Fin.ext h
    · have hadd := monthStart_add (isLeap y) _ _ (Fin.lt_def.mpr h)
      omega
  refine ⟨hyear, hmonth, ?_⟩
  rw [dateFromDay, hwithin, hyear, hmonth]
  omega

/-- The day in front of a month is the last one of the month before. -/
theorem makeDay_zero (y : ℤ) (m : Fin 12) :
    makeDay (y + (m.val + 1 : ℕ) / 12) (Fin.ofNat 12 (m.val + 1)) 0
      = makeDay y m (daysInMonth (isLeap y) m) := by
  have hlt := m.isLt
  by_cases hlast : m.val = 11
  · have hm : m = 11 := Fin.ext hlast
    have hnext : Fin.ofNat 12 (m.val + 1) = 0 := by rw [hlast]; rfl
    have hyear : y + (m.val + 1 : ℕ) / 12 = y + 1 := by omega
    have hjanuary := monthStart_january (isLeap (y + 1))
    have hdecember := monthStart_december (isLeap y)
    rw [hnext, hyear, makeDay, makeDay, dayFromYear_succ, hm]
    omega
  · have hnext : (Fin.ofNat 12 (m.val + 1)).val = m.val + 1 := Nat.mod_eq_of_lt (by omega)
    have hyear : y + (m.val + 1 : ℕ) / 12 = y := by omega
    have hsucc := monthStart_succ (isLeap y) m (Fin.ofNat 12 (m.val + 1)) hnext.symm
    rw [hyear, makeDay, makeDay, hsucc]
    omega

theorem dateFromDay_lastOfPrevious (n : ℤ) :
    dateFromDay (n - dateFromDay n) = monthLength (n - dateFromDay n) := by
  obtain ⟨y, m, hday⟩ : ∃ y m, n - dateFromDay n = makeDay y m (daysInMonth (isLeap y) m) := by
    have hself := makeDay_civil n (-dateFromDay n)
    rw [Int.add_right_neg, ← Int.sub_eq_add_neg] at hself
    have hlt := (monthFromDay n).isLt
    by_cases hfirst : (monthFromDay n).val = 0
    · refine ⟨yearFromDay n - 1, 11, ?_⟩
      have hnext : Fin.ofNat 12 ((11 : Fin 12).val + 1) = monthFromDay n :=
        Fin.ext (by rw [hfirst]; rfl)
      rw [← makeDay_zero, hnext, ← hself]
      congr 1
      show yearFromDay n = yearFromDay n - 1 + ((11 + 1 : ℕ) : ℤ) / 12
      omega
    · refine ⟨yearFromDay n, ⟨(monthFromDay n).val - 1, by omega⟩, ?_⟩
      have hnext : Fin.ofNat 12 ((monthFromDay n).val - 1 + 1) = monthFromDay n := by
        rw [Nat.sub_add_cancel (by omega)]
        exact Fin.ext (Nat.mod_eq_of_lt hlt)
      rw [← makeDay_zero, hnext, ← hself]
      congr 1
      dsimp only
      omega
  have hbounds := daysInMonth_bounds (isLeap y) m
  obtain ⟨hyear, hmonth, hdate⟩ := civil_makeDay (y := y) (m := m)
    (d := daysInMonth (isLeap y) m) (by omega) (Int.le_refl _)
  rw [hday, hdate, monthLength, hyear, hmonth]

/-- Days back within a month. -/
theorem dateFromDay_sub {n k : ℤ} (hk : 0 ≤ k) (hlt : k < dateFromDay n) :
    dateFromDay (n - k) = dateFromDay n - k ∧ monthLength (n - k) = monthLength n := by
  have hle := (dateFromDay_bounds n).2
  rw [monthLength] at hle
  obtain ⟨hyear, hmonth, hdate⟩ := civil_makeDay (y := yearFromDay n) (m := monthFromDay n)
    (d := dateFromDay n + -k) (by omega) (by omega)
  rw [makeDay_civil, ← Int.sub_eq_add_neg] at hyear hmonth hdate
  refine ⟨?_, ?_⟩
  · rw [hdate]
    omega
  · rw [monthLength, hyear, hmonth, monthLength]

/-- The last day with some date, where a date behind the end of a month is its last day, is never
    more than thirty days ago. -/
theorem exists_date_back (n : ℤ) {d : ℤ} (hpos : 1 ≤ d) (hle : d ≤ 31) :
    ∃ k : ℕ, k ≤ 30 ∧ dateFromDay (n - k) = min d (monthLength (n - k)) := by
  obtain ⟨hfirst, hlast⟩ := dateFromDay_bounds n
  have hlength := monthLength_bounds n
  by_cases hthis : min d (monthLength n) ≤ dateFromDay n
  · -- in this month
    refine ⟨(dateFromDay n - min d (monthLength n)).toNat, by omega, ?_⟩
    rw [Int.toNat_of_nonneg (by omega)]
    obtain ⟨hdate, hmonth⟩ := dateFromDay_sub (n := n)
      (k := dateFromDay n - min d (monthLength n)) (by omega) (by omega)
    rw [hdate, hmonth]
    omega
  · -- in the month before, from its last day on
    have hprevious := dateFromDay_lastOfPrevious n
    have hlength' := monthLength_bounds (n - dateFromDay n)
    refine ⟨(dateFromDay n + (monthLength (n - dateFromDay n)
      - min d (monthLength (n - dateFromDay n)))).toNat, by omega, ?_⟩
    rw [Int.toNat_of_nonneg (by omega), ← Int.sub_sub]
    obtain ⟨hdate, hmonth⟩ := dateFromDay_sub (n := n - dateFromDay n)
      (k := monthLength (n - dateFromDay n) - min d (monthLength (n - dateFromDay n)))
      (by omega) (by omega)
    rw [hdate, hmonth, hprevious]
    omega

theorem exists_weekDay_back (n : ℤ) {w : ℤ} (hpos : 0 ≤ w) (hle : w ≤ 6) :
    ∃ k : ℕ, k ≤ 6 ∧ weekDay (n - k) = w := by
  unfold weekDay
  exact ⟨((n + 4 - w) % 7).toNat, by omega, by omega⟩

namespace CivilDate

/-- A date lies in its year. -/
theorem number_mem_year (c : CivilDate) :
    dayFromYear c.year ≤ c.number ∧ c.number < dayFromYear (c.year + 1) := by
  have hstart := monthStart_nonneg (isLeap c.year) c.month
  have hend := monthStart_le (isLeap c.year) c.month
  have hpos := c.day_pos
  have hle := c.day_le
  rw [dayFromYear_succ, number, makeDay]
  omega

theorem number_lt_of_earlier {c c' : CivilDate} (h : c.Earlier c') : c.number < c'.number := by
  rcases h with hyear | ⟨hyear, hmonth | ⟨hmonth, hday⟩⟩
  · calc c.number < dayFromYear (c.year + 1) := c.number_mem_year.2
      _ ≤ dayFromYear c'.year := dayFromYear_mono (by omega)
      _ ≤ c'.number := c'.number_mem_year.1
  · have hstart := monthStart_add (isLeap c.year) c.month c'.month hmonth
    have hle := c.day_le
    have hpos := c'.day_pos
    rw [number, number, makeDay, makeDay, ← hyear]
    omega
  · rw [number, number, makeDay, makeDay, ← hyear, ← hmonth]
    omega

theorem earlier_trichotomy (c c' : CivilDate) : c.Earlier c' ∨ c = c' ∨ c'.Earlier c := by
  obtain ⟨y, m, d, _, _, _⟩ := c
  obtain ⟨y', m', d', _, _, _⟩ := c'
  simp only [Earlier, mk.injEq, Fin.ext_iff, Fin.lt_def]
  omega

/-- Later dates have greater numbers. -/
theorem number_lt_iff {c c' : CivilDate} : c.number < c'.number ↔ c.Earlier c' := by
  refine ⟨fun h => ?_, number_lt_of_earlier⟩
  rcases earlier_trichotomy c c' with hlt | rfl | hgt
  · exact hlt
  · omega
  · have hlt := number_lt_of_earlier hgt
    omega

theorem number_inj {c c' : CivilDate} : c.number = c'.number ↔ c = c' := by
  refine ⟨fun h => ?_, fun h => by rw [h]⟩
  rcases earlier_trichotomy c c' with hearlier | heq | hearlier
  · have hlt := number_lt_of_earlier hearlier
    omega
  · exact heq
  · have hlt := number_lt_of_earlier hearlier
    omega

end CivilDate

end Calendar
