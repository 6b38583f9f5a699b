import Argus.Backup.Stamps
import Argus.Lib.IsoWeek
import Argus.Lib.JsDate
import Argus.Reports.Storage

namespace Argus.Backup

open Calendar Numerals JsDate

/-!
# Backup — the weeks of the calendar

`weekKey` on time values, with the arithmetic of dates and numbers that it does.

* `Utc.weekKey` — the key of an instant; `none` where a date is out of range.
* `isoKey` — the year and the number that ISO 8601 gives a day, as a text; `isoKey_lt_iff`, the
  order of these texts.
* `Utc.weekNumber_eq` — a distance of days is rounded to weeks, although its quotient is rounded to
  a double before.
* `Utc.weekKey_eq`, `weekKey_eq_isoKey` — both models give this text from 1970 to 9999.
-/

/-! ### Keys -/

namespace Utc

theorem utc_offset_lt : |(0 : ℤ)| < 86400000 := by
  rw [abs_zero]
  decide

/-- Coordinated universal time. -/
def utc : Zone where
  offset := 0
  offset_lt := utc_offset_lt

/-- `7 * 86400000`. -/
def msPerWeek : JsNumber := .mul (.ofNat 7) (.ofNat 86400000)

/-- `1 + Math.round((t.getTime() - firstThursday.getTime()) / (7 * 86400000))`. -/
def weekNumber (t firstThursday : ℤ) : JsNumber :=
  .add (.ofNat 1) (Reports.mathRound (.div (.sub (.ofRat t) (.ofRat firstThursday)) msPerWeek))

/-- `weekKey`. -/
def weekKey (d : ℤ) : Option (List Char) := do
  let y ← utc.getFullYear (some d)
  let m ← utc.getMonth (some d)
  let date ← utc.getDate (some d)
  let t ← utc.ofCivil y m date
  let weekday ← utc.getDay (some t)
  -- Monday is 0 and Sunday 6
  let day := (weekday + 6) % 7
  let thursday ← utc.setDate (some t) ((utc.getDate (some t)).map (· - day + 3))
  let year ← utc.getFullYear (some thursday)
  let firstThursday ← utc.ofCivil year 0 4
  return decimal year ++ '-' :: 'W' :: padStart 2 '0' (weekNumber thursday firstThursday).toChars

/-- The day of an instant. -/
def dayOf (d : ℤ) : ℤ := utc.localDay d

/-- An instant of the years 1970 to 9999. -/
def InRange (d : ℤ) : Prop := 1970 ≤ yearFromDay (dayOf d) ∧ yearFromDay (dayOf d) ≤ 9999

end Utc

/-- The year and the week of a day. -/
def isoKey (n : ℤ) : List Char :=
  decimal (isoYear n) ++ '-' :: 'W' :: padStart 2 '0' (decimal (weekOfYear n))

/-! ### The order of the keys -/

/-- From 1970 on the years of the weeks have four digits. -/
theorem isoYear_bounds {n : ℤ} (h : 1970 ≤ yearFromDay n ∧ yearFromDay n ≤ 9999) :
    1970 ≤ isoYear n ∧ isoYear n ≤ 9999 := by
  -- the first of these days is a Thursday and the last one a Friday
  have hfirst : dayFromYear 1970 = 0 := by decide
  have hlast : dayFromYear 10000 = 2932897 := by decide
  obtain ⟨hlow, hhigh⟩ := yearFromDay_spec n
  have hmono := dayFromYear_mono h.1
  have hmono' := dayFromYear_mono (by omega : yearFromDay n + 1 ≤ 10000)
  obtain ⟨hlow', hhigh'⟩ := yearFromDay_spec (7 * isoWeek n)
  have hweek : 0 ≤ 7 * isoWeek n ∧ 7 * isoWeek n < 2932897 := by
    rw [isoWeek]
    omega
  constructor
  · by_contra hlt
    have hbefore := dayFromYear_mono (by unfold isoYear at hlt; omega :
      yearFromDay (7 * isoWeek n) + 1 ≤ 1970)
    omega
  · by_contra hlt
    have hafter := dayFromYear_mono (by unfold isoYear at hlt; omega :
      10000 ≤ yearFromDay (7 * isoWeek n))
    omega

/-- A number of four digits is not filled up. -/
theorem decimal_eq_pad {y : ℕ} (hlow : 1000 ≤ y) (hhigh : y < 10000) : decimal y = pad 4 y := by
  have hlength : ¬ (Nat.toDigits 10 y).length ≤ 3 := by
    rw [Nat.length_toDigits_le_iff (by decide) (by decide)]
    omega
  have hpad := padStart_toDigits (w := 3) (n := y) hhigh
  rw [padStart, (by omega : 3 + 1 - (Nat.toDigits 10 y).length = 0)] at hpad
  exact hpad

/-- The key is a year of four digits and a week of two. -/
theorem isoKey_eq {n : ℤ} (h : 1970 ≤ yearFromDay n ∧ yearFromDay n ≤ 9999) :
    ∃ year week : ℕ, isoYear n = year ∧ weekOfYear n = week ∧ year < 10 ^ 4 ∧ 1 ≤ week
      ∧ week ≤ 53 ∧ isoKey n = pad 4 year ++ '-' :: 'W' :: pad 2 week := by
  obtain ⟨hlow, hhigh⟩ := isoYear_bounds h
  obtain ⟨hone, hlast⟩ := weekOfYear_bounds n
  obtain ⟨year, hyear⟩ := Int.eq_ofNat_of_zero_le (by omega : 0 ≤ isoYear n)
  obtain ⟨week, hweek⟩ := Int.eq_ofNat_of_zero_le (by omega : 0 ≤ weekOfYear n)
  refine ⟨year, week, hyear, hweek, by omega, by omega, by omega, ?_⟩
  rw [isoKey, hyear, hweek, decimal_eq_pad (by omega) (by omega)]
  exact congrArg (fun cs => pad 4 year ++ '-' :: 'W' :: cs) (padStart_toDigits (w := 1) (by omega))

theorem isoKey_lt_iff {a b : ℤ} (ha : 1970 ≤ yearFromDay a ∧ yearFromDay a ≤ 9999)
    (hb : 1970 ≤ yearFromDay b ∧ yearFromDay b ≤ 9999) :
    isoKey a < isoKey b ↔ isoWeek a < isoWeek b := by
  obtain ⟨year, week, hyear, hweek, hdigits, -, hlast, hkey⟩ := isoKey_eq ha
  obtain ⟨year', week', hyear', hweek', hdigits', -, hlast', hkey'⟩ := isoKey_eq hb
  have hcons : 'W' :: pad 2 week < 'W' :: pad 2 week' ↔ pad 2 week < pad 2 week' := by simp
  rw [isoWeek_lt_iff, hyear, hyear', hweek, hweek', hkey, hkey', pad_cons_lt_iff hdigits hdigits',
    hcons, pad_lt_iff (by omega) (by omega)]
  omega

theorem isoKey_inj {a b : ℤ} (ha : 1970 ≤ yearFromDay a ∧ yearFromDay a ≤ 9999)
    (hb : 1970 ≤ yearFromDay b ∧ yearFromDay b ≤ 9999) :
    isoKey a = isoKey b ↔ isoWeek a = isoWeek b := by
  constructor
  · intro heq
    have hlt := isoKey_lt_iff ha hb
    have hgt := isoKey_lt_iff hb ha
    rw [heq] at hlt hgt
    -- equal texts are in neither order, so the weeks are in neither
    have hirrefl : ¬ isoKey b < isoKey b := List.lt_irrefl _
    have hnot := hlt.not.mp hirrefl
    have hnot' := hgt.not.mp hirrefl
    omega
  · intro heq
    rw [isoKey, isoKey, weekOfYear, weekOfYear, isoYear, isoYear, heq]

/-! ### Rounding -/

namespace Utc

/-- The milliseconds of a week are exact. -/
theorem msPerWeek_eq : msPerWeek = .fin (.ofInt 604800000 (by decide)) := by
  have hseven : JsNumber.ofNat 7 = .fin (.ofInt 7 (by decide)) := JsNumber.ofNat_eq _
  have hday : JsNumber.ofNat 86400000 = .fin (.ofInt 86400000 (by decide)) := JsNumber.ofNat_eq _
  rw [msPerWeek, hseven, hday]
  exact JsNumber.mul_ofInt _ _ _

/-- `Math.round` of a seventh. -/
theorem mathRound_div_seven {m : ℤ} (h : |m| < 2 ^ 52) : Reports.mathRound (.ofRat (m / (7 : ℕ)))
    = .ofRat (roundWeeks m : ℤ) := by
  have herror := JsNumber.abs_round_div_lt h (n := 7) (by decide) (by decide)
  have hfloor := JsNumber.floor_round_half h (n := 7) (by decide) (by decide)
  have hquotient : |(m / (7 : ℕ) : ℚ)| < 2 ^ 52 := by
    have hm : |(m : ℚ)| < 2 ^ 52 := by exact_mod_cast h
    rw [abs_div, Nat.abs_cast, div_lt_iff₀ (by norm_num)]
    calc |(m : ℚ)| < 2 ^ 52 := hm
      _ ≤ 2 ^ 52 * (7 : ℕ) := by norm_num
  have hfinite : |JsNumber.round (m / (7 : ℕ) : ℚ)| < 2 ^ 1024 := by
    have htriangle := abs_add_le (JsNumber.round (m / (7 : ℕ) : ℚ) - m / (7 : ℕ)) (m / (7 : ℕ))
    rw [sub_add_cancel] at htriangle
    have hsmall : (1 : ℚ) / (2 * (7 : ℕ)) ≤ 2 ^ 52 := by norm_num
    calc |JsNumber.round (m / (7 : ℕ) : ℚ)| < 2 ^ 52 + 2 ^ 52 := by linarith
      _ = 2 ^ 53 := by norm_num
      _ < 2 ^ 1024 := pow_lt_pow_right₀ one_lt_two (by decide)
  rw [JsNumber.ofRat, dif_pos hfinite, Reports.mathRound, hfloor]
  rfl

/-- The distance of two days from 1970 on is rounded to the closest number of weeks, although the
    quotient is rounded to a double before. -/
theorem weekNumber_eq {a b : ℤ} (ha : 0 ≤ a ∧ a ≤ 100000000) (hb : 0 ≤ b ∧ b ≤ 100000000) :
    weekNumber (a * 86400000) (b * 86400000) = .ofRat ((1 + roundWeeks (a - b) : ℤ) : ℚ) := by
  have hsub : JsNumber.sub (.ofRat ((a * 86400000 : ℤ) : ℚ)) (.ofRat ((b * 86400000 : ℤ) : ℚ))
      = .fin (.ofInt ((a - b) * 86400000) (abs_le.mpr ⟨by omega, by omega⟩)) := by
    rw [JsNumber.ofRat_intCast (abs_le.mpr ⟨by omega, by omega⟩),
      JsNumber.ofRat_intCast (abs_le.mpr ⟨by omega, by omega⟩), JsNumber.sub_fin,
      ← JsNumber.ofRat_intCast]
    simp only [Double.ofInt]
    push_cast
    ring_nf
  -- the milliseconds of a day cancel
  have hdiv : JsNumber.div (.fin (.ofInt ((a - b) * 86400000) (abs_le.mpr ⟨by omega, by omega⟩)))
      msPerWeek = .ofRat (((a - b : ℤ) : ℚ) / (7 : ℕ)) := by
    rw [msPerWeek_eq, JsNumber.div, if_neg (by norm_num [Double.ofInt])]
    simp only [Double.ofInt]
    congr 1
    push_cast
    ring
  have hone : JsNumber.ofNat 1 = .fin (.ofInt 1 (by decide)) := JsNumber.ofNat_eq _
  have hweeks : -100000000 ≤ roundWeeks (a - b) ∧ roundWeeks (a - b) ≤ 100000000 := by
    unfold roundWeeks
    omega
  rw [weekNumber, hsub, hdiv, mathRound_div_seven (abs_lt.mpr ⟨by omega, by omega⟩), hone,
    JsNumber.ofRat_intCast (abs_le.mpr ⟨by omega, by omega⟩),
    JsNumber.add_ofInt _ _ (abs_le.mpr ⟨by omega, by omega⟩), ← JsNumber.ofRat_intCast]

/-- A number of a week is printed as it is. -/
theorem toChars_week : ∀ n < 54, (JsNumber.ofNat n).toChars = Nat.toDigits 10 n := by
  decide +kernel

/-! ### Dates -/

/-- Midnight of a day. -/
theorem timeClip_midnight {n : ℤ} (h : 0 ≤ n ∧ n ≤ 100000000) :
    timeClip (utc.timeOf n 0) = some (n * 86400000) := by
  have htime : utc.timeOf n 0 = n * 86400000 := by
    simp [Zone.timeOf, utc, msPerDay]
  rw [htime, timeClip_of_le (by unfold maxTime; exact abs_le.mpr ⟨by omega, by omega⟩)]

theorem localDay_midnight (n : ℤ) : utc.localDay (n * 86400000) = n := by
  simp only [Zone.localDay, utc, msPerDay]
  omega

theorem localMillis_midnight (n : ℤ) : utc.localMillis (n * 86400000) = 0 := by
  simp only [Zone.localMillis, utc, msPerDay]
  omega

/-- `Date.UTC` for a year that is not taken for one of the twentieth century. -/
theorem ofCivil_utc {y d : ℤ} (m : Fin 12) (hy : 100 ≤ y)
    (h : 0 ≤ makeDay y m d ∧ makeDay y m d ≤ 100000000) :
    utc.ofCivil y m d = some (makeDay y m d * 86400000) := by
  have hnot : ¬ (0 ≤ y ∧ y ≤ 99) := by omega
  have hmonth : y + ((m : ℕ) : ℤ) / 12 = y := by
    have hlt := m.isLt
    omega
  have hfin : Fin.ofNat 12 (m : ℕ) = m := Fin.ext (Nat.mod_eq_of_lt m.isLt)
  rw [Zone.ofCivil, if_neg hnot, hmonth, hfin, timeClip_midnight h]

/-- The days of the range are dates, with a week before and after them. -/
theorem dayOf_bounds {d : ℤ} (h : InRange d) : 0 ≤ dayOf d ∧ dayOf d < 2932897 := by
  have hfirst : dayFromYear 1970 = 0 := by decide
  have hlast : dayFromYear 10000 = 2932897 := by decide
  obtain ⟨hlow, hhigh⟩ := yearFromDay_spec (dayOf d)
  have hmono := dayFromYear_mono h.1
  have hmono' := dayFromYear_mono (by have := h.2; omega : yearFromDay (dayOf d) + 1 ≤ 10000)
  omega

/-- `t.setUTCDate(t.getUTCDate() - day + 3)` is the Thursday of the week. -/
theorem setDate_thursday {n : ℤ} (h : 0 ≤ n ∧ n < 2932897) :
    utc.setDate (some (n * 86400000))
      ((utc.getDate (some (n * 86400000))).map (· - (weekDay n + 6) % 7 + 3))
      = some (7 * isoWeek n * 86400000) := by
  have hcivil := makeDay_civil n (-((weekDay n + 6) % 7) + 3)
  rw [← add_assoc, ← sub_eq_add_neg, ← add_assoc, ← sub_eq_add_neg, thursday_eq] at hcivil
  show timeClip (utc.timeOf (makeDay _ _ (dateFromDay (utc.localDay (n * 86400000)) - _ + 3)) _) = _
  rw [localDay_midnight, localMillis_midnight, hcivil, timeClip_midnight]
  unfold isoWeek
  omega

/-- Seen from 4 January, the Thursday is rounded to a number of weeks. -/
theorem roundWeeks_thursday (n : ℤ) :
    1 + roundWeeks (7 * isoWeek n - makeDay (isoYear n) 0 4) = weekOfYear n := by
  rw [weekOfYear]
  generalize makeDay (isoYear n) 0 4 = january
  unfold roundWeeks isoWeek
  omega

theorem weekKey_eq {d : ℤ} (h : InRange d) : weekKey d = some (isoKey (dayOf d)) := by
  obtain ⟨hlow, hhigh⟩ := dayOf_bounds h
  obtain ⟨hyear, hyear'⟩ := isoYear_bounds h
  obtain ⟨year, week, -, hweek, -, -, hlast, -⟩ := isoKey_eq h
  -- the copy of the date is midnight of the day
  have hday : utc.ofCivil (yearFromDay (dayOf d)) (monthFromDay (dayOf d)) (dateFromDay (dayOf d))
      = some (dayOf d * 86400000) := by
    have hself := makeDay_civil (dayOf d) 0
    rw [add_zero, add_zero] at hself
    rw [ofCivil_utc _ (by have := h.1; omega) (by rw [hself]; omega), hself]
  have hjanuary : 0 ≤ makeDay (isoYear (dayOf d)) 0 4
      ∧ makeDay (isoYear (dayOf d)) 0 4 ≤ 100000000 := by
    have hfirst : dayFromYear 1970 = 0 := by decide
    have hlast : dayFromYear 9999 = 2932532 := by decide
    have hmono := dayFromYear_mono hyear
    have hmono' := dayFromYear_mono hyear'
    rw [makeDay_january]
    omega
  have hthursday : 0 ≤ 7 * isoWeek (dayOf d) ∧ 7 * isoWeek (dayOf d) ≤ 100000000 := by
    unfold isoWeek
    omega
  -- the Thursday and 4 January are few enough days apart to be rounded well
  have hnumber : weekNumber (7 * isoWeek (dayOf d) * 86400000)
      (makeDay (isoYear (dayOf d)) 0 4 * 86400000) = .ofNat week := by
    rw [weekNumber_eq hthursday hjanuary, roundWeeks_thursday, hweek]
    rfl
  have hfirst : utc.ofCivil (isoYear (dayOf d)) 0 4
      = some (makeDay (isoYear (dayOf d)) 0 4 * 86400000) := ofCivil_utc 0 (by omega) hjanuary
  have hweekday : utc.getDay (some (dayOf d * 86400000)) = some (weekDay (dayOf d)) := by
    show some (weekDay (utc.localDay _)) = _
    rw [localDay_midnight]
  have hthursdayYear : utc.getFullYear (some (7 * isoWeek (dayOf d) * 86400000))
      = some (isoYear (dayOf d)) := by
    show some (yearFromDay (utc.localDay _)) = _
    rw [localDay_midnight, isoYear]
  show (utc.ofCivil (yearFromDay (dayOf d)) (monthFromDay (dayOf d)) (dateFromDay (dayOf d))).bind _
    = _
  simp only [hday, Option.bind_some, Option.bind_eq_bind, hweekday, setDate_thursday ⟨hlow, hhigh⟩,
    hthursdayYear, hfirst, hnumber, toChars_week week (by omega)]
  rw [isoKey, hweek]
  rfl

end Utc

/-- The model on stamps, for the years in which `Date.UTC` gives the day of the stamp. -/
theorem weekKey_eq_isoKey {s : Stamp} (h : 1970 ≤ s.date.year) : weekKey s = isoKey s.day := by
  have hdate := s.date.number_mem_year
  have hyear : yearFromDay s.day = s.date.year := yearFromDay_eq hdate.1 hdate.2
  have hlt := s.date.year_lt
  obtain ⟨hlow, -⟩ := isoYear_bounds (n := s.day) ⟨by omega, by omega⟩
  have hnot : ¬ (0 ≤ isoYear s.day ∧ isoYear s.day ≤ 99) := by omega
  have hjanuary : dateUTC (isoYear s.day) 0 4 = makeDay (isoYear s.day) 0 4 := by
    rw [dateUTC, if_neg hnot]
  have hday : dateUTC s.date.year s.date.month s.date.day = s.day := utcDay_eq (by omega)
  have hthursday : yearFromDay (7 * isoWeek s.day) = isoYear s.day := rfl
  simp only [weekKey, hday, thursday_eq, hthursday, hjanuary, Utc.roundWeeks_thursday]
  rfl

/-- Both models give one key. -/
theorem Utc.weekKey_time {s : Stamp} (h : 1970 ≤ s.date.year) :
    Utc.weekKey s.time = some (Argus.Backup.weekKey s) := by
  have hday : Utc.dayOf s.time = s.day := by
    have hmillis := s.millis_lt
    simp only [Utc.dayOf, Zone.localDay, Utc.utc, msPerDay, Stamp.time, Stamp.day]
    omega
  have hdate := s.date.number_mem_year
  have hyear : yearFromDay s.day = s.date.year := yearFromDay_eq hdate.1 hdate.2
  have hrange : Utc.InRange s.time := by
    have hlt := s.date.year_lt
    rw [Utc.InRange, hday, hyear]
    omega
  rw [Utc.weekKey_eq hrange, hday, weekKey_eq_isoKey h]

/-! ### The weeks of ISO 8601 -/

/-- Keys of two instants from 1970 to 9999: they are equal where the instants lie in one week from
    Monday to Sunday, they are the year and the number of the week, and later weeks have greater
    ones. -/
theorem Utc.weekKey_iso {s t : ℤ} (hs : Utc.InRange s) (ht : Utc.InRange t) :
    ∃ ks kt, Utc.weekKey s = some ks ∧ Utc.weekKey t = some kt
      ∧ (ks = kt ↔ ∃ monday, InWeek monday (Utc.dayOf s) ∧ InWeek monday (Utc.dayOf t))
      ∧ (∃ year week : ℕ, IsIsoWeek (Utc.dayOf s) year week ∧ 1 ≤ week ∧ week ≤ 53
        ∧ ks = pad 4 year ++ '-' :: 'W' :: pad 2 week)
      ∧ ∀ monday monday', InWeek monday (Utc.dayOf s) → InWeek monday' (Utc.dayOf t) →
        (ks < kt ↔ monday < monday') := by
  refine ⟨_, _, Utc.weekKey_eq hs, Utc.weekKey_eq ht, ?_, ?_, ?_⟩
  · rw [isoKey_inj hs ht, exists_inWeek_iff]
  · obtain ⟨year, week, hyear, hweek, -, hone, hlast, hkey⟩ := isoKey_eq hs
    exact ⟨year, week, isIsoWeek_iff.mpr ⟨hyear.symm, hweek.symm⟩, hone, hlast, hkey⟩
  · intro monday monday' hm hm'
    rw [inWeek_iff] at hm hm'
    rw [isoKey_lt_iff hs ht]
    omega

/-- 30 December 2024 lies in the first week of 2025, and 1 January 2027 in the last one of 2026. -/
theorem Utc.weekKey_iso_turn :
    ∃ ks kt, Utc.weekKey 1735516800000 = some ks ∧ Utc.weekKey 1798761600000 = some kt
      ∧ (ks = kt ↔ ∃ monday, InWeek monday (Utc.dayOf 1735516800000)
        ∧ InWeek monday (Utc.dayOf 1798761600000))
      ∧ (∃ year week : ℕ, IsIsoWeek (Utc.dayOf 1735516800000) year week ∧ 1 ≤ week ∧ week ≤ 53
        ∧ ks = pad 4 year ++ '-' :: 'W' :: pad 2 week)
      ∧ ∀ monday monday', InWeek monday (Utc.dayOf 1735516800000) →
        InWeek monday' (Utc.dayOf 1798761600000) → (ks < kt ↔ monday < monday') :=
  Utc.weekKey_iso (by unfold Utc.InRange; decide +kernel) (by unfold Utc.InRange; decide +kernel)

end Argus.Backup
