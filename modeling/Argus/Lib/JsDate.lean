import Argus.Lib.Calendar
import Argus.Lib.JsNumber

/-!
# ECMAScript dates

`Date` in a time zone whose offset from UTC does not change.  A date is its time value, the
milliseconds since 1970-01-01 in UTC; `none` is an invalid date.

* `timeClip` — the time values reach a hundred million days in either direction.
* `Zone.getDay`, `Zone.getDate`, `Zone.setDate`, `Zone.setHours`, `Zone.ofCivil` — the methods
  and the constructor, in local time.
* `Zone.dayBefore` — `d.setDate(d.getDate() - 1)`; it takes away a day (`dayBefore_some`).
* `Zone.stepBack`, `Zone.stepBackAtMost` — loops that go back day by day, without a bound and
  with one; they end at the first day that is asked for (`stepBack_eq_some_iff`,
  `stepBackAtMost_eq`).
-/

namespace JsDate

open Calendar

def msPerDay : ℤ := 86400000

def maxTime : ℤ := 8640000000000000

/-- `TimeClip`. -/
def timeClip (t : ℤ) : Option ℤ := if |t| ≤ maxTime then some t else none

theorem timeClip_of_le {t : ℤ} (h : |t| ≤ maxTime) : timeClip t = some t := if_pos h

/-- A time zone: what local time is ahead of UTC, in milliseconds. -/
structure Zone where
  offset : ℤ
  offset_lt : |offset| < 86400000

/-- `MakeTime`, for hours and minutes. -/
def makeTime : JsNumber → JsNumber → JsNumber
  | .fin h, .fin m =>
    .add (.mul (.fin h.trunc) (.fin (.ofInt 3600000 (by decide))))
      (.mul (.fin m.trunc) (.fin (.ofInt 60000 (by decide))))
  | _, _ => .nan

/-- Hours and minutes of a day. -/
theorem makeTime_ofInt {h m : ℤ} (hh : 0 ≤ h ∧ h < 24) (hm : 0 ≤ m ∧ m < 60)
    (hb : |h| ≤ 2 ^ 53) (mb : |m| ≤ 2 ^ 53) :
    ∃ tb, makeTime (.fin (.ofInt h hb)) (.fin (.ofInt m mb))
      = .fin (.ofInt (h * 3600000 + m * 60000) tb) := by
  have hhours : |h * 3600000| ≤ 2 ^ 53 := abs_le.mpr ⟨by omega, by omega⟩
  have hminutes : |m * 60000| ≤ 2 ^ 53 := abs_le.mpr ⟨by omega, by omega⟩
  have hsum : |h * 3600000 + m * 60000| ≤ 2 ^ 53 := abs_le.mpr ⟨by omega, by omega⟩
  refine ⟨hsum, ?_⟩
  rw [makeTime, Double.trunc_ofInt, Double.trunc_ofInt, JsNumber.mul_ofInt _ _ hhours,
    JsNumber.mul_ofInt _ _ hminutes, JsNumber.add_ofInt _ _ hsum]

namespace Zone

variable (z : Zone)

/-- The day of local time. -/
def localDay (t : ℤ) : ℤ := (t + z.offset) / msPerDay

/-- The milliseconds since midnight, in local time. -/
def localMillis (t : ℤ) : ℤ := (t + z.offset) % msPerDay

/-- The time value of a day and the milliseconds on it, in local time. -/
def timeOf (day millis : ℤ) : ℤ := day * msPerDay + millis - z.offset

def getDay (d : Option ℤ) : Option ℤ := d.map (fun t => weekDay (z.localDay t))

def getDate (d : Option ℤ) : Option ℤ := d.map (fun t => dateFromDay (z.localDay t))

def getMonth (d : Option ℤ) : Option (Fin 12) := d.map (fun t => monthFromDay (z.localDay t))

def getFullYear (d : Option ℤ) : Option ℤ := d.map (fun t => yearFromDay (z.localDay t))

/-- `d.setDate(date)`; a date outside the month is one of another month. -/
def setDate (d date : Option ℤ) : Option ℤ :=
  d.bind fun t => date.bind fun date =>
    timeClip (z.timeOf (makeDay (yearFromDay (z.localDay t)) (monthFromDay (z.localDay t)) date)
      (z.localMillis t))

/-- `d.setHours(h, m, 0, 0)`.  The sum of the day and the time is exact where it is not too great
    for a date. -/
def setHours (d : Option ℤ) (h m : JsNumber) : Option ℤ :=
  d.bind fun t => match makeTime h m with
    | .fin millis => timeClip (z.timeOf (z.localDay t) ⌊millis.val⌋)
    | _ => none

/-- `new Date(y, m, d)`: years up to 99 are years of the twentieth century, and the month may be
    one of a later year. -/
def ofCivil (y : ℤ) (m : ℕ) (d : ℤ) : Option ℤ :=
  let year := if 0 ≤ y ∧ y ≤ 99 then 1900 + y else y
  timeClip (z.timeOf (makeDay (year + m / 12) (Fin.ofNat 12 m) d) 0)

/-- `d.setDate(d.getDate() - 1)`. -/
def dayBefore (d : Option ℤ) : Option ℤ := z.setDate d ((z.getDate d).map (· - 1))

/-- `while (!stop(d)) d.setDate(d.getDate() - 1)`, for as many steps as there is fuel. -/
def stepBack (stop : Option ℤ → Bool) : ℕ → Option ℤ → Option (Option ℤ)
  | 0, _ => none
  | fuel + 1, d => if stop d then some d else stepBack stop fuel (z.dayBefore d)

/-- The same as a `for` loop that is left at a date that is asked for. -/
def stepBackAtMost (stop : Option ℤ → Bool) : ℕ → Option ℤ → Option ℤ
  | 0, d => d
  | n + 1, d => if stop d then d else stepBackAtMost stop n (z.dayBefore d)

/-! ### Local time -/

theorem timeOf_local (t : ℤ) : z.timeOf (z.localDay t) (z.localMillis t) = t := by
  unfold timeOf localDay localMillis msPerDay
  omega

theorem localDay_timeOf (day : ℤ) {millis : ℤ} (h : 0 ≤ millis ∧ millis < msPerDay) :
    z.localDay (z.timeOf day millis) = day := by
  unfold localDay timeOf msPerDay at *
  omega

theorem localMillis_timeOf (day : ℤ) {millis : ℤ} (h : 0 ≤ millis ∧ millis < msPerDay) :
    z.localMillis (z.timeOf day millis) = millis := by
  unfold localMillis timeOf msPerDay at *
  omega

theorem localMillis_bounds (t : ℤ) : 0 ≤ z.localMillis t ∧ z.localMillis t < msPerDay := by
  unfold localMillis msPerDay
  omega

theorem localDay_sub (t k : ℤ) : z.localDay (t - k * msPerDay) = z.localDay t - k := by
  unfold localDay msPerDay
  omega

theorem localMillis_sub (t k : ℤ) : z.localMillis (t - k * msPerDay) = z.localMillis t := by
  unfold localMillis msPerDay
  omega

/-! ### Days back -/

theorem dayBefore_none : z.dayBefore none = none := rfl

theorem dayBefore_some (t : ℤ) : z.dayBefore (some t) = timeClip (t - msPerDay) := by
  have hday := makeDay_civil (z.localDay t) (-1)
  show timeClip (z.timeOf (makeDay _ _ (dateFromDay (z.localDay t) + -1)) _) = _
  rw [hday]
  congr 1
  unfold timeOf localDay localMillis msPerDay
  omega

/-- Several days back; what has left the range of dates does not come back. -/
theorem iterate_dayBefore {t : ℤ} (h : |t| ≤ maxTime) (k : ℕ) :
    z.dayBefore^[k] (some t) = timeClip (t - k * msPerDay) := by
  induction k with
  | zero => simpa using (timeClip_of_le h).symm
  | succ k ih =>
    rw [Function.iterate_succ_apply', ih]
    by_cases hk : |t - k * msPerDay| ≤ maxTime
    · rw [timeClip_of_le hk, dayBefore_some]
      congr 1
      push_cast
      ring
    · have hsucc : ¬ |t - (k + 1 : ℕ) * msPerDay| ≤ maxTime := by
        rw [abs_le] at h hk ⊢
        unfold msPerDay at hk ⊢
        push_cast
        omega
      rw [timeClip, if_neg hk, dayBefore_none, timeClip, if_neg hsucc]

/-- **The loop.**  It ends where the first date that is asked for is met. -/
theorem stepBack_eq_some_iff (stop : Option ℤ → Bool) (fuel : ℕ) (d d' : Option ℤ) :
    z.stepBack stop fuel d = some d' ↔ ∃ k < fuel, z.dayBefore^[k] d = d' ∧ stop d' = true ∧
      ∀ j < k, stop (z.dayBefore^[j] d) = false := by
  induction fuel generalizing d with
  | zero => simp [stepBack]
  | succ fuel ih =>
    rw [stepBack]
    cases hstop : stop d with
    | true =>
      rw [if_pos rfl]
      constructor
      · intro h
        obtain rfl := Option.some.inj h
        exact ⟨0, by omega, rfl, hstop, fun j hj => absurd hj (Nat.not_lt_zero j)⟩
      · rintro ⟨k, -, rfl, -, hfirst⟩
        rcases Nat.eq_zero_or_pos k with rfl | hpos
        · rfl
        · have hnot := hfirst 0 hpos
          rw [Function.iterate_zero_apply, hstop] at hnot
          cases hnot
    | false =>
      rw [if_neg Bool.false_ne_true, ih]
      constructor
      · rintro ⟨k, hk, hd', hstop', hfirst⟩
        refine ⟨k + 1, by omega, hd', hstop', fun j hj => ?_⟩
        cases j with
        | zero => exact hstop
        | succ j => exact hfirst j (by omega)
      · rintro ⟨k, hk, hd', hstop', hfirst⟩
        cases k with
        | zero =>
          obtain rfl : d = d' := hd'
          rw [hstop] at hstop'
          cases hstop'
        | succ k => exact ⟨k, by omega, hd', hstop', fun j hj => hfirst (j + 1) (by omega)⟩

/-- A date that is asked for ends the loop. -/
theorem stepBack_ends {stop : Option ℤ → Bool} {d : Option ℤ} {k fuel : ℕ}
    (h : stop (z.dayBefore^[k] d) = true) (hk : k < fuel) :
    ∃ d', z.stepBack stop fuel d = some d' := by
  have hex : ∃ k, stop (z.dayBefore^[k] d) = true := ⟨k, h⟩
  have hle : Nat.find hex ≤ k := Nat.find_min' hex h
  refine ⟨z.dayBefore^[Nat.find hex] d, (z.stepBack_eq_some_iff stop fuel d _).mpr
    ⟨Nat.find hex, by omega, rfl, Nat.find_spec hex, fun j hj => ?_⟩⟩
  exact Bool.eq_false_iff.mpr (Nat.find_min hex hj)

/-- More fuel makes no difference. -/
theorem stepBack_mono {stop : Option ℤ → Bool} {d d' : Option ℤ} {fuel fuel' : ℕ}
    (h : z.stepBack stop fuel d = some d') (hle : fuel ≤ fuel') :
    z.stepBack stop fuel' d = some d' := by
  rw [stepBack_eq_some_iff] at h ⊢
  obtain ⟨k, hk, hrest⟩ := h
  exact ⟨k, by omega, hrest⟩

/-- A bound that is not reached makes no difference. -/
theorem stepBackAtMost_eq {stop : Option ℤ → Bool} {fuel : ℕ} {d d' : Option ℤ}
    (h : z.stepBack stop fuel d = some d') : z.stepBackAtMost stop fuel d = d' := by
  induction fuel generalizing d with
  | zero => cases h
  | succ fuel ih =>
    rw [stepBack] at h
    rw [stepBackAtMost]
    split at h
    · next hstop =>
      rw [if_pos hstop]
      exact Option.some.inj h
    · next hstop =>
      rw [if_neg hstop]
      exact ih h

/-- The loop from a valid date, for a condition that is one on the day: it ends at the last day
    that meets it, if there is one within reach. -/
theorem stepBack_finds {stop : Option ℤ → Bool} {D : ℤ → Prop} {t : ℤ} (reach : ℕ)
    (hvalid : ∀ k ≤ reach, |t - k * msPerDay| ≤ maxTime)
    (hstop : ∀ k ≤ reach, stop (some (t - k * msPerDay)) = true ↔ D (z.localDay t - k))
    (hday : ∃ k ≤ reach, D (z.localDay t - k)) :
    ∃ k ≤ reach, D (z.localDay t - k) ∧ (∀ j < k, ¬ D (z.localDay t - j)) ∧
      ∀ fuel, reach < fuel →
        z.stepBack stop fuel (some t) = some (some (t - k * msPerDay)) := by
  classical
  have hiterate : ∀ k ≤ reach, z.dayBefore^[k] (some t) = some (t - k * msPerDay) := by
    intro k hk
    have ht : |t| ≤ maxTime := by simpa using hvalid 0 (Nat.zero_le _)
    rw [iterate_dayBefore z ht, timeClip_of_le (hvalid k hk)]
  have hex : ∃ k, k ≤ reach ∧ D (z.localDay t - k) := hday
  obtain ⟨hle, hD⟩ := Nat.find_spec hex
  have hfirst : ∀ j < Nat.find hex, ¬ D (z.localDay t - j) := by
    intro j hj hDj
    exact Nat.find_min hex hj ⟨by omega, hDj⟩
  refine ⟨Nat.find hex, hle, hD, hfirst, fun fuel hfuel => ?_⟩
  rw [stepBack_eq_some_iff]
  refine ⟨Nat.find hex, by omega, hiterate _ hle, (hstop _ hle).mpr hD, fun j hj => ?_⟩
  rw [hiterate j (by omega), Bool.eq_false_iff, Ne, hstop j (by omega)]
  exact hfirst j hj

/-! ### Months -/

/-- The years that `new Date` moves to the twentieth century have their leap years in common with
    it, except for the first. -/
theorem isLeap_moved {y : ℤ} (h : y ≠ 0) :
    isLeap (if 0 ≤ y ∧ y ≤ 99 then 1900 + y else y) = isLeap y := by
  split
  · have hcentury : (1900 + y) % 100 = y % 100 := by omega
    have hfour : (1900 + y) % 4 = y % 4 := by omega
    have hmoved : ((1900 + y) % 400 == 0) = false := beq_eq_false_iff_ne.mpr (by omega)
    have hself : (y % 400 == 0) = false := beq_eq_false_iff_ne.mpr (by omega)
    rw [isLeap, isLeap, hcentury, hfour, hmoved, hself]
  · rfl

/-- `new Date(y, m + 1, 0).getDate()`: the length of the month. -/
theorem getDate_ofCivil {y : ℤ} {m : Fin 12} (hyear : y ≠ 0 ∨ m.val ≠ 1)
    (hvalid : ∀ y', y' = y ∨ 0 ≤ y' ∧ y' < 2000 →
      |z.timeOf (makeDay y' m (daysInMonth (isLeap y') m)) 0| ≤ maxTime) :
    z.getDate (z.ofCivil y (m.val + 1) 0) = some (daysInMonth (isLeap y) m : ℤ) := by
  unfold ofCivil
  dsimp only
  rw [makeDay_zero]
  have hmoved : daysInMonth (isLeap (if 0 ≤ y ∧ y ≤ 99 then 1900 + y else y)) m
      = daysInMonth (isLeap y) m := by
    by_cases hy : y = 0
    · have hm : m.val ≠ 1 := hyear.resolve_left (fun hne => hne hy)
      simp [daysInMonth, hm]
    · rw [isLeap_moved hy]
  rw [timeClip_of_le, getDate, Option.map_some, localDay_timeOf]
  · have hbounds := daysInMonth_bounds (isLeap (if 0 ≤ y ∧ y ≤ 99 then 1900 + y else y)) m
    rw [(civil_makeDay (by omega) (Int.le_refl _)).2.2, hmoved]
  · unfold msPerDay
    omega
  · apply hvalid
    split
    · right
      omega
    · exact .inl rfl

end Zone

end JsDate
