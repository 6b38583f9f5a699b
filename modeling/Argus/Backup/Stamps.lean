import Argus.Lib.Calendar
import Argus.Lib.Numerals

namespace Argus.Backup

open Calendar Numerals

/-!
# Backup — time stamps and the buckets they fall into

`createdAt` is what `toISOString` prints, `YYYY-MM-DDTHH:mm:ss.sssZ`, for the years `0000` to
`9999`.

* `Stamp` — such an instant, as a date and the milliseconds of the day.  Later instants have
  greater texts (`toISOString_lt_iff`), so sorting the texts sorts the backups.
* `dayKey`, `weekKey`, `monthKey` — the names of the buckets.  Days and months are the days
  and months of UTC (`dayKey_eq_iff`, `monthKey_eq_iff`).
* `weekKey_eq_iff` — weeks are the weeks, from Monday to Sunday, of the day that `Date.UTC`
  finds; for the years `0000` to `0099` this is a day of the years 1900 to 1999.
-/

/-- An instant that `toISOString` prints with four digits for the year. -/
structure Stamp where
  date : CivilDate
  /-- The milliseconds since midnight. -/
  millis : ℕ
  millis_lt : millis < 86400000
deriving DecidableEq

namespace Stamp

/-- The time value of `new Date(createdAt)`, in milliseconds. -/
def time (s : Stamp) : ℤ := s.date.number * 86400000 + s.millis

def dateText (c : CivilDate) : List Char :=
  pad 4 c.year ++ '-' :: (pad 2 (c.month + 1) ++ '-' :: pad 2 c.day)

def clockText (millis : ℕ) : List Char :=
  pad 2 (millis / 3600000) ++ ':' :: (pad 2 (millis / 60000 % 60) ++ ':' ::
    (pad 2 (millis / 1000 % 60) ++ '.' :: (pad 3 (millis % 1000) ++ ['Z'])))

/-- `toISOString`. -/
def toISOString (s : Stamp) : List Char := dateText s.date ++ 'T' :: clockText s.millis

/-- The day of UTC, by its number. -/
def day (s : Stamp) : ℤ := s.date.number

/-- The ISO week. -/
def week (s : Stamp) : ℤ := isoWeek s.date.number

/-- The month of UTC, by its number. -/
def month (s : Stamp) : ℤ := s.date.monthNumber

end Stamp

/-- `localeCompare`, for texts of one layout: digits compare by their value. -/
def localeCompare (s t : List Char) : Ordering :=
  if s < t then .lt else if t < s then .gt else .eq

/-- `Date.UTC`, in days: years up to 99 are years of the twentieth century. -/
def dateUTC (y : ℤ) (m : Fin 12) (d : ℤ) : ℤ :=
  makeDay (if 0 ≤ y ∧ y ≤ 99 then 1900 + y else y) m d

/-- `Math.round(days / 7)`.  A seventh is never half an integer. -/
def roundWeeks (days : ℤ) : ℤ := (2 * days + 7) / 14

/-- `dayKey`. -/
def dayKey (s : Stamp) : List Char := s.toISOString.take 10

/-- `weekKey`. -/
def weekKey (s : Stamp) : List Char :=
  let t := dateUTC s.date.year s.date.month s.date.day
  let day := (weekDay t + 6) % 7
  let thursday := t - day + 3
  let year := yearFromDay thursday
  let firstThursday := dateUTC year 0 4
  let week := 1 + roundWeeks (thursday - firstThursday)
  decimal year ++ '-' :: 'W' :: padStart 2 '0' (decimal week)

/-- `monthKey`. -/
def monthKey (s : Stamp) : List Char := s.toISOString.take 7

/-! ### The order of the texts -/

namespace Stamp

theorem clockText_lt_iff {m m' : ℕ} (hm : m < 86400000) (hm' : m' < 86400000) :
    clockText m < clockText m' ↔ m < m' := by
  unfold clockText
  rw [pad_cons_lt_iff (by omega) (by omega), pad_cons_lt_iff (by omega) (by omega),
    pad_cons_lt_iff (by omega) (by omega), pad_cons_lt_iff (by omega) (by omega)]
  simp only [List.not_lt_nil, and_false, or_false]
  omega

theorem day_lt (c : CivilDate) : c.day < 10 ^ 2 := by
  have hle := c.day_le
  have hbound : ∀ leap m, daysInMonth leap m < 10 ^ 2 := by decide
  exact Nat.lt_of_le_of_lt hle (hbound _ _)

theorem month_lt (c : CivilDate) : c.month.val + 1 < 10 ^ 2 := by
  have hlt := c.month.isLt
  omega

theorem toISOString_eq (s : Stamp) : s.toISOString = pad 4 s.date.year ++ '-' ::
    (pad 2 (s.date.month + 1) ++ '-' :: (pad 2 s.date.day ++ 'T' :: clockText s.millis)) := by
  simp [toISOString, dateText]

/-- Later instants have greater texts. -/
theorem toISOString_lt_iff (s t : Stamp) : s.toISOString < t.toISOString ↔ s.time < t.time := by
  have hs := s.millis_lt
  have ht := t.millis_lt
  have hblocks : s.toISOString < t.toISOString ↔
      s.date.Earlier t.date ∨ s.date = t.date ∧ s.millis < t.millis := by
    rw [toISOString_eq, toISOString_eq, pad_cons_lt_iff s.date.year_lt t.date.year_lt,
      pad_cons_lt_iff (month_lt s.date) (month_lt t.date),
      pad_cons_lt_iff (day_lt s.date) (day_lt t.date), clockText_lt_iff hs ht]
    simp only [CivilDate.Earlier, CivilDate.ext_iff, Fin.ext_iff, Fin.lt_def]
    omega
  rw [hblocks, ← CivilDate.number_lt_iff, ← CivilDate.number_inj]
  simp only [time]
  omega

end Stamp

/-- `localeCompare` puts the earlier instant first. -/
theorem localeCompare_eq_gt_iff (s t : Stamp) :
    localeCompare s.toISOString t.toISOString = .gt ↔ t.time < s.time := by
  have hlt := Stamp.toISOString_lt_iff s t
  have hgt := Stamp.toISOString_lt_iff t s
  rw [localeCompare]
  split
  · rename_i h
    have hless := hlt.mp h
    simp only [reduceCtorEq, false_iff]
    omega
  · split
    · rename_i h
      simpa using hgt.mp h
    · rename_i h
      simp only [reduceCtorEq, false_iff]
      exact fun hless => h (hgt.mpr hless)

/-! ### The buckets -/

theorem dayKey_eq (s : Stamp) : dayKey s = Stamp.dateText s.date := by
  have hlen : (Stamp.dateText s.date).length = 10 := by simp [Stamp.dateText]
  rw [dayKey, Stamp.toISOString, ← hlen, List.take_left]

/-- Two stamps have one day key if and only if they lie in one day. -/
theorem dayKey_eq_iff (s t : Stamp) : dayKey s = dayKey t ↔ s.day = t.day := by
  rw [dayKey_eq, dayKey_eq, Stamp.day, Stamp.day, CivilDate.number_inj, Stamp.dateText,
    Stamp.dateText, pad_cons_inj s.date.year_lt t.date.year_lt,
    pad_cons_inj (Stamp.month_lt s.date) (Stamp.month_lt t.date),
    pad_inj (Stamp.day_lt s.date) (Stamp.day_lt t.date), CivilDate.ext_iff, Fin.ext_iff]
  omega

theorem monthKey_eq (s : Stamp) :
    monthKey s = pad 4 s.date.year ++ '-' :: pad 2 (s.date.month + 1) := by
  have hlen : (pad 4 s.date.year ++ '-' :: pad 2 (s.date.month + 1)).length = 7 := by simp
  have hsplit : s.toISOString = (pad 4 s.date.year ++ '-' :: pad 2 (s.date.month + 1))
      ++ '-' :: (pad 2 s.date.day ++ 'T' :: Stamp.clockText s.millis) := by
    simp [Stamp.toISOString_eq]
  rw [monthKey, hsplit, ← hlen, List.take_left]

/-- Two stamps have one month key if and only if they lie in one month. -/
theorem monthKey_eq_iff (s t : Stamp) : monthKey s = monthKey t ↔ s.month = t.month := by
  have hs := s.date.month.isLt
  have ht := t.date.month.isLt
  rw [monthKey_eq, monthKey_eq, pad_cons_inj s.date.year_lt t.date.year_lt,
    pad_inj (Stamp.month_lt s.date) (Stamp.month_lt t.date)]
  simp only [Stamp.month, CivilDate.monthNumber]
  omega

/-- The day that `weekKey` takes a stamp to lie in. -/
def utcDay (s : Stamp) : ℤ := dateUTC s.date.year s.date.month s.date.day

/-- The Thursday of a week. -/
theorem thursday_eq (t : ℤ) : t - (weekDay t + 6) % 7 + 3 = 7 * isoWeek t := by
  unfold weekDay isoWeek
  omega

/-- Thursdays are told apart by the year and the number of the week in it, whatever day the
    weeks of a year are counted from. -/
theorem thursday_inj {a b : ℤ} (origin : ℤ → ℤ) :
    yearFromDay (7 * a) = yearFromDay (7 * b) ∧
      1 + roundWeeks (7 * a - origin (yearFromDay (7 * a)))
        = 1 + roundWeeks (7 * b - origin (yearFromDay (7 * b))) ↔ a = b := by
  refine ⟨fun ⟨hyear, hweek⟩ => ?_, fun h => by rw [h]; exact ⟨rfl, rfl⟩⟩
  rw [hyear] at hweek
  unfold roundWeeks at hweek
  omega

/-- Two stamps have one week key if and only if the days that `Date.UTC` gives lie in one
    week. -/
theorem weekKey_eq_iff (s t : Stamp) :
    weekKey s = weekKey t ↔ isoWeek (utcDay s) = isoWeek (utcDay t) := by
  have hkey : ∀ s : Stamp, weekKey s = (decimal (yearFromDay (7 * isoWeek (utcDay s))) ++ ['-'])
      ++ 'W' :: padStart 2 '0' (decimal (1 + roundWeeks (7 * isoWeek (utcDay s)
        - dateUTC (yearFromDay (7 * isoWeek (utcDay s))) 0 4))) := by
    intro s
    simp only [weekKey, thursday_eq, List.append_assoc, List.singleton_append]
    rfl
  have hcut : ∀ n : ℤ, 'W' ∉ decimal n ++ ['-'] := by
    intro n
    rw [List.mem_append, not_or]
    exact ⟨notMem_decimal (by decide) (by decide) n, by decide⟩
  rw [hkey, hkey, append_cons_inj (hcut _) (hcut _), List.append_left_inj, decimal_inj,
    padStart_decimal_inj]
  exact thursday_inj (fun y => dateUTC y 0 4)

/-- From the year `0100` on, `Date.UTC` gives the day of the stamp. -/
theorem utcDay_eq {s : Stamp} (h : 100 ≤ s.date.year) : utcDay s = s.day := by
  have hnot : ¬ (0 ≤ (s.date.year : ℤ) ∧ (s.date.year : ℤ) ≤ 99) := by omega
  rw [utcDay, dateUTC, if_neg hnot]
  rfl

/-! ### Buckets follow the time -/

theorem day_mono {s t : Stamp} (h : s.time ≤ t.time) : s.day ≤ t.day := by
  have hs := s.millis_lt
  have ht := t.millis_lt
  simp only [Stamp.time, Stamp.day] at h ⊢
  omega

theorem week_mono {s t : Stamp} (h : s.time ≤ t.time) : s.week ≤ t.week := by
  have hday := day_mono h
  simp only [Stamp.day, Stamp.week, isoWeek] at hday ⊢
  omega

theorem month_mono {s t : Stamp} (h : s.time ≤ t.time) : s.month ≤ t.month := by
  have hday := day_mono h
  have hs := s.date.month.isLt
  have ht := t.date.month.isLt
  by_contra hlt
  have hearlier : t.date.Earlier s.date := by
    simp only [Stamp.month, CivilDate.monthNumber] at hlt
    simp only [CivilDate.Earlier, Fin.lt_def]
    omega
  have hnumber := CivilDate.number_lt_of_earlier hearlier
  simp only [Stamp.day] at hday
  omega

end Argus.Backup
