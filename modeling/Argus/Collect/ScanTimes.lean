import Argus.Lib.GoText

namespace Argus.Collect

/-!
# When a folder is walked again

A folder is walked again after so many minutes, or at fixed times of day.  Instants and durations
are nanoseconds.

* `Location`, `Zones` — what the agent knows of time zones.
* `scanTime` — a time of day in the configuration; every `HH:MM` is one (`scanTime_digits`).
* `dueAt` — whether the walk of an instant is due again.
* `Location.fixed` — a zone with a fixed offset.
* `Scheduled` — the instants at which it is scheduled; `dueAt` looks at those of the day only.
-/

/-- `time.Minute`. -/
def minute : ℤ := 60000000000

/-- A `*time.Location`. -/
structure Location where
  /-- The calendar day of an instant. -/
  day : ℤ → ℤ
  /-- `time.Date` for a day, an hour and a minute. -/
  date : ℤ → ℤ → ℤ → ℤ

structure Zones where
  /-- `time.Local`. -/
  localZone : Location
  loadLocation : String → Option Location

/-- The zone of a folder: that of the agent if none is given, or none that it knows. -/
def Zones.find (zones : Zones) (tz : String) : Location :=
  if tz = "" then zones.localZone else (zones.loadLocation tz).getD zones.localZone

/-- An hour and a minute, if the text begins with a time of day. -/
def scanTime (t : String) : Option (ℤ × ℤ) :=
  (GoText.scanClock (GoText.trimSpace t)).filter fun (hh, mm) =>
    0 ≤ hh ∧ hh ≤ 23 ∧ 0 ≤ mm ∧ mm ≤ 59

/-- `dueAt` with fixed times. -/
def dueToday (loc : Location) (now last : ℤ) (times : List String) : Bool :=
  times.any fun t => match scanTime t with
    | some (hh, mm) =>
      let runToday := loc.date (loc.day now) hh mm
      decide (runToday ≤ now) && decide (last < runToday)
    | none => false

def dueAt (zones : Zones) (now last ttl : ℤ) (times : List String) (tz : String) : Bool :=
  if 0 < times.length then dueToday (zones.find tz) now last times else decide (ttl ≤ now - last)

/-! ### Times of day -/

/-- Digits, a colon and digits are a time of day if the numbers are in range. -/
theorem scanTime_digits {hs ms : List Char} (hhs : ∀ c ∈ hs, c.isDigit = true)
    (hms : ∀ c ∈ ms, c.isDigit = true) (hne : hs ≠ []) (mne : ms ≠ [])
    (hlt : Nat.ofDigitChars 10 hs 0 < 24) (mlt : Nat.ofDigitChars 10 ms 0 < 60) :
    scanTime (String.ofList (hs ++ ':' :: ms))
      = some ((Nat.ofDigitChars 10 hs 0 : ℤ), (Nat.ofDigitChars 10 ms 0 : ℤ)) := by
  have htrim : GoText.trimSpace (String.ofList (hs ++ ':' :: ms))
      = String.ofList (hs ++ ':' :: ms) := by
    apply GoText.trimSpace_of_forall
    intro c hc
    rw [String.toList_ofList, List.mem_append, List.mem_cons] at hc
    rcases hc with hc | rfl | hc
    · exact GoText.not_isSpace_of_isDigit (hhs c hc)
    · rfl
    · exact GoText.not_isSpace_of_isDigit (hms c hc)
  rw [scanTime, htrim, GoText.scanClock_digits hhs hms hne mne (by omega) (by omega),
    Option.filter_some, if_pos]
  simp only [decide_eq_true_eq]
  omega

/-! ### Zones with a fixed offset -/

/-- `time.FixedZone`. -/
def Location.fixed (offset : ℤ) : Location where
  day t := (t + offset) / (1440 * minute)
  date day hh mm := (day * 1440 + hh * 60 + mm) * minute - offset

section

variable {offset : ℤ} {t : String} {time : ℤ × ℤ}

theorem scanTime_range (h : scanTime t = some time) :
    (0 ≤ time.1 ∧ time.1 ≤ 23) ∧ 0 ≤ time.2 ∧ time.2 ≤ 59 := by
  have hrange := (Option.filter_eq_some_iff.mp h).2
  simp only [decide_eq_true_eq] at hrange
  omega

/-- A time of a day is on that day. -/
theorem Location.day_fixed (h : scanTime t = some time) (day : ℤ) :
    (Location.fixed offset).day ((Location.fixed offset).date day time.1 time.2) = day := by
  obtain ⟨hhour, hminute⟩ := scanTime_range h
  show ((day * 1440 + time.1 * 60 + time.2) * minute - offset + offset) / (1440 * minute) = day
  rw [minute]
  omega

theorem Location.day_mono {a b : ℤ} (h : a ≤ b) :
    (Location.fixed offset).day a ≤ (Location.fixed offset).day b := by
  show (a + offset) / (1440 * minute) ≤ (b + offset) / (1440 * minute)
  rw [minute]
  omega

end

/-! ### The schedule -/

/-- An instant at which the folder is to be walked. -/
def Scheduled (loc : Location) (times : List String) (s : ℤ) : Prop :=
  ∃ day, ∃ t ∈ times, ∃ time, scanTime t = some time ∧ loc.date day time.1 time.2 = s

/-- A walk is due if the schedule has had an instant since the last one, on the day it is. -/
theorem dueToday_iff {loc : Location} {now last : ℤ} {times : List String} :
    dueToday loc now last times = true ↔
      ∃ t ∈ times, ∃ time, scanTime t = some time ∧
        loc.date (loc.day now) time.1 time.2 ≤ now ∧
          last < loc.date (loc.day now) time.1 time.2 := by
  rw [dueToday, List.any_eq_true]
  apply exists_congr
  intro t
  apply and_congr_right
  intro _
  cases scanTime t with
  | none => simp
  | some time => simp

theorem dueToday_scheduled {loc : Location} {now last : ℤ} {times : List String}
    (h : dueToday loc now last times = true) :
    ∃ s, Scheduled loc times s ∧ last < s ∧ s ≤ now := by
  obtain ⟨t, ht, time, htime, hpast, hsince⟩ := dueToday_iff.mp h
  exact ⟨_, ⟨loc.day now, t, ht, time, htime, rfl⟩, hsince, hpast⟩

theorem dueToday_of_scheduled {offset now last r : ℤ} {times : List String}
    (h : Scheduled (.fixed offset) times r)
    (hday : (Location.fixed offset).day r = (Location.fixed offset).day now) (hpast : r ≤ now)
    (hsince : last < r) : dueToday (.fixed offset) now last times = true := by
  obtain ⟨day, t, ht, time, htime, rfl⟩ := h
  rw [Location.day_fixed htime] at hday
  rw [hday] at hpast hsince
  exact dueToday_iff.mpr ⟨t, ht, time, htime, hpast, hsince⟩

end Argus.Collect
