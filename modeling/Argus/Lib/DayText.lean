import Argus.Lib.Calendar
import Argus.Lib.Numerals

/-!
# Days as texts

The first ten characters of what `toISOString` prints, for the days from 1970 to 9999.

* `dayText` — of a day, by its number.
* `dayText_lt_iff` — later days have greater texts; so the text tells the day (`dayText_inj`).
-/

namespace Calendar

open Numerals

/-- `YYYY-MM-DD`. -/
def dayText (n : ℤ) : List Char :=
  pad 4 (yearFromDay n).toNat ++ '-' ::
    (pad 2 (monthFromDay n + 1) ++ '-' :: pad 2 (dateFromDay n).toNat)

/-- The number of January 1st, 10000. -/
def endOfDays : ℤ := 2932897

theorem exists_date {n : ℤ} (h0 : 0 ≤ n) (hend : n < endOfDays) :
    ∃ c : CivilDate, c.number = n ∧ (c.year : ℤ) = yearFromDay n ∧ c.month = monthFromDay n ∧
      (c.day : ℤ) = dateFromDay n := by
  obtain ⟨hlow, hhigh⟩ := yearFromDay_spec n
  obtain ⟨hpos, hle⟩ := dateFromDay_bounds n
  have hfirst : dayFromYear 0 < 0 := by decide
  have hlast : dayFromYear 10000 = endOfDays := by decide
  have hyear0 : 0 ≤ yearFromDay n := by
    by_contra hneg
    have hmono := dayFromYear_mono (by omega : yearFromDay n + 1 ≤ 0)
    omega
  have hyear1 : yearFromDay n < 10000 := by
    by_contra hge
    have hmono := dayFromYear_mono (by omega : 10000 ≤ yearFromDay n)
    omega
  obtain ⟨y, hy⟩ := Int.eq_ofNat_of_zero_le hyear0
  obtain ⟨d, hd⟩ := Int.eq_ofNat_of_zero_le (by omega : 0 ≤ dateFromDay n)
  refine ⟨⟨y, monthFromDay n, d, by omega, by omega, ?_⟩, ?_, hy.symm, rfl, hd.symm⟩
  · rw [monthLength, hy] at hle
    omega
  · have hcivil := makeDay_civil n 0
    rw [Int.add_zero, Int.add_zero, hy, hd] at hcivil
    exact hcivil

theorem dayText_eq {n : ℤ} {c : CivilDate} (hyear : (c.year : ℤ) = yearFromDay n)
    (hmonth : c.month = monthFromDay n) (hday : (c.day : ℤ) = dateFromDay n) :
    dayText n = pad 4 c.year ++ '-' :: (pad 2 (c.month + 1) ++ '-' :: pad 2 c.day) := by
  rw [dayText, ← hyear, ← hmonth, ← hday, Int.toNat_natCast, Int.toNat_natCast]

/-- **Order.**  Later days have greater texts. -/
theorem dayText_lt_iff {n m : ℤ} (hn : 0 ≤ n) (hn' : n < endOfDays) (hm : 0 ≤ m)
    (hm' : m < endOfDays) : dayText n < dayText m ↔ n < m := by
  obtain ⟨c, rfl, hcy, hcm, hcd⟩ := exists_date hn hn'
  obtain ⟨c', rfl, hcy', hcm', hcd'⟩ := exists_date hm hm'
  have hmonth := c.month.isLt
  have hmonth' := c'.month.isLt
  have hbound : ∀ leap m, daysInMonth leap m < 10 ^ 2 := by decide
  have hday := Nat.lt_of_le_of_lt c.day_le (hbound _ _)
  have hday' := Nat.lt_of_le_of_lt c'.day_le (hbound _ _)
  rw [dayText_eq hcy hcm hcd, dayText_eq hcy' hcm' hcd', CivilDate.number_lt_iff,
    pad_cons_lt_iff c.year_lt c'.year_lt, pad_cons_lt_iff (by omega) (by omega),
    pad_lt_iff hday hday']
  simp only [CivilDate.Earlier, Fin.ext_iff, Fin.lt_def]
  omega

theorem dayText_inj {n m : ℤ} (hn : 0 ≤ n) (hn' : n < endOfDays) (hm : 0 ≤ m)
    (hm' : m < endOfDays) : dayText n = dayText m ↔ n = m := by
  refine ⟨fun h => ?_, fun h => by rw [h]⟩
  have hlt := dayText_lt_iff hn hn' hm hm'
  have hgt := dayText_lt_iff hm hm' hn hn'
  rw [h] at hlt hgt
  have hirrefl : ¬ dayText m < dayText m := List.lt_irrefl _
  have h1 := mt hlt.mpr hirrefl
  have h2 := mt hgt.mpr hirrefl
  omega

end Calendar
