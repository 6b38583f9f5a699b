import Argus.Lib.Calendar

/-!
# ISO 8601 weeks

* `InWeek` — a day and the Monday that its week begins with.
* `IsIsoWeek` — the year and the number of a week: the year is that of its Thursday, and the week
  of 4 January is the first.
* `isIsoWeek_iff`, `weekOfYear_bounds` — every day has one year and one number, from 1 to 53.
* `isoWeek_lt_iff` — later weeks have a later year, or a greater number in the same one.
-/

namespace Calendar

/-- A day lies in the week that begins with this Monday. -/
def InWeek (monday n : ℤ) : Prop := weekDay monday = 1 ∧ monday ≤ n ∧ n ≤ monday + 6

theorem inWeek_iff {monday n : ℤ} : InWeek monday n ↔ monday = 7 * isoWeek n - 3 := by
  unfold InWeek weekDay isoWeek
  omega

/-- Two days lie in one week. -/
theorem exists_inWeek_iff {a b : ℤ} :
    (∃ monday, InWeek monday a ∧ InWeek monday b) ↔ isoWeek a = isoWeek b := by
  simp only [inWeek_iff]
  constructor
  · rintro ⟨monday, ha, hb⟩
    omega
  · intro h
    exact ⟨7 * isoWeek a - 3, rfl, by omega⟩

/-- The week of a day has this number in this year. -/
def IsIsoWeek (n year week : ℤ) : Prop :=
  ∃ monday first, InWeek monday n ∧ yearFromDay (monday + 3) = year
    ∧ InWeek first (makeDay year 0 4) ∧ monday = first + 7 * (week - 1)

/-- The year of the Thursday. -/
def isoYear (n : ℤ) : ℤ := yearFromDay (7 * isoWeek n)

/-- The weeks from that of 4 January on. -/
def weekOfYear (n : ℤ) : ℤ := isoWeek n - isoWeek (makeDay (isoYear n) 0 4) + 1

theorem isIsoWeek_iff {n year week : ℤ} :
    IsIsoWeek n year week ↔ year = isoYear n ∧ week = weekOfYear n := by
  have hthursday : 7 * isoWeek n - 3 + 3 = 7 * isoWeek n := by omega
  simp only [IsIsoWeek, inWeek_iff, weekOfYear, isoYear]
  constructor
  · rintro ⟨monday, first, rfl, hyear, rfl, hweek⟩
    rw [hthursday] at hyear
    subst hyear
    exact ⟨rfl, by omega⟩
  · rintro ⟨rfl, rfl⟩
    exact ⟨_, _, rfl, by rw [hthursday], rfl, by omega⟩

/-- The fourth day of a year. -/
theorem makeDay_january (y : ℤ) : makeDay y 0 4 = dayFromYear y + 3 := by
  rw [makeDay, monthStart_january]
  omega

theorem weekOfYear_bounds (n : ℤ) : 1 ≤ weekOfYear n ∧ weekOfYear n ≤ 53 := by
  -- the Thursday lies in the year, and that of the first week is one of its first seven days
  obtain ⟨hlow, hhigh⟩ := yearFromDay_spec (7 * isoWeek n)
  rw [dayFromYear_succ] at hhigh
  have hleap : (if isLeap (yearFromDay (7 * isoWeek n)) then (1 : ℤ) else 0) ≤ 1 := by
    split <;> omega
  have hfirst : isoWeek (makeDay (isoYear n) 0 4) = (dayFromYear (isoYear n) + 6) / 7 := by
    rw [makeDay_january, isoWeek]
    omega
  rw [weekOfYear, hfirst]
  show 1 ≤ isoWeek n - (dayFromYear (yearFromDay (7 * isoWeek n)) + 6) / 7 + 1
    ∧ isoWeek n - (dayFromYear (yearFromDay (7 * isoWeek n)) + 6) / 7 + 1 ≤ 53
  omega

theorem yearFromDay_mono {a b : ℤ} (h : a ≤ b) : yearFromDay a ≤ yearFromDay b := by
  by_contra hlt
  have hmono := dayFromYear_mono (by omega : yearFromDay b + 1 ≤ yearFromDay a)
  have ha := (yearFromDay_spec a).1
  have hb := (yearFromDay_spec b).2
  omega

theorem isoYear_mono {a b : ℤ} (h : isoWeek a ≤ isoWeek b) : isoYear a ≤ isoYear b :=
  yearFromDay_mono (by omega)

theorem isoWeek_lt_iff {a b : ℤ} : isoWeek a < isoWeek b ↔
    isoYear a < isoYear b ∨ isoYear a = isoYear b ∧ weekOfYear a < weekOfYear b := by
  have hsame (heq : isoYear a = isoYear b) :
      weekOfYear a < weekOfYear b ↔ isoWeek a < isoWeek b := by
    rw [weekOfYear, weekOfYear, heq]
    omega
  have hmono := @isoYear_mono a b
  have hmono' := @isoYear_mono b a
  omega

end Calendar
