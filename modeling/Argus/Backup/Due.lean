import Argus.Auth.Requests
import Argus.Backup.Policy
import Argus.Lib.JsDate

namespace Argus.Backup

open Calendar JsDate

/-!
# Backup — schedules that are due

The worker looks for the last instant of a schedule: it sets the time of today, takes a day
away when this is still to come, and goes back day by day to the weekday or the day of the
month.

* `isDue` — on a schedule as it is stored.  It may throw, and its weekly loop has no bound, so
  it is run with fuel; for the schedules of the route seven steps are enough.
* `scheduleSchema` — what the route accepts.
* `Matches` — the instants of a schedule, in the words of the calendar.
* `isDue_iff` — a schedule with a backup is due if and only if one of its instants has passed
  since then.
-/

/-! ### The worker -/

/-- `time.split(":").map((n) => Number(n))`, one of the pieces; a missing one is `0`. -/
def clockPiece (time : String) (i : ℕ) : JsNumber :=
  match (time.toList.splitOn ':')[i]? with
  | some piece => .ofChars (JsText.trimChars piece)
  | none => .ofRat 0

/-- `a.getTime() > b`. -/
def isAfter : Option ℤ → ℤ → Bool
  | some t, now => decide (now < t)
  | none, _ => false

/-- The last time of day at or before now. -/
def anchor (z : Zone) (time : String) (now : ℤ) : Option ℤ :=
  let target := z.setHours (some now) (clockPiece time 0) (clockPiece time 1)
  if isAfter target now then z.dayBefore target else target

/-- `target.getDay() === sched.weekday`. -/
def onWeekday (z : Zone) (weekday : Option JsValue) (target : Option ℤ) : Bool :=
  match z.getDay target, weekday with
  | some day, some (.num x) => decide (x.val = day)
  | _, _ => false

/-- A number of a date; `NaN` for an invalid one. -/
def dateNumber : Option ℤ → JsNumber
  | some n => .ofRat n
  | none => .nan

/-- The days in the month of a date. -/
def daysInMonthOf (z : Zone) (target : Option ℤ) : Option ℤ :=
  (z.getFullYear target).bind fun year => (z.getMonth target).bind fun month =>
    z.getDate (z.ofCivil year (month.val + 1) 0)

/-- `target.getDate() === Math.min(sched.dayOfMonth, dim)`. -/
def onDayOfMonth (z : Zone) (dayOfMonth : JsNumber) (target : Option ℤ) : Bool :=
  JsNumber.strictEq (dateNumber (z.getDate target))
    (JsNumber.min dayOfMonth (dateNumber (daysInMonthOf z target)))

/-- What a call of `isDue` comes to. -/
inductive Due
  | throws
  | answer (due : Bool)
deriving DecidableEq

/-- `isDue`, with fuel for the loop of a weekly schedule.  A time that is no text has no method
    `split`. -/
def isDue (z : Zone) (fuel : ℕ) (sched : JsValue) (lastMs now : ℤ) : Option Due :=
  if lastMs = 0 then some (.answer true)
  else if frequencyOf sched = .interval then
    match JsValue.fieldNumber (storedField (some sched) "intervalHours") with
    | none => some .throws
    | some hours =>
      let wait := JsNumber.mul (.mul (.mul hours (.ofNat 60)) (.ofNat 60)) (.ofNat 1000)
      some (.answer (JsNumber.le (.add (.ofRat lastMs) wait) (.ofRat now)))
  else match textField sched "time" with
    | none => some .throws
    | some time =>
      let target := anchor z time now
      match frequencyOf sched with
      | .weekly =>
        (z.stepBack (onWeekday z (storedField (some sched) "weekday")) fuel target).map
          (fun target => .answer (isAfter target lastMs))
      | .monthly =>
        match JsValue.fieldNumber (storedField (some sched) "dayOfMonth") with
        | none => some .throws
        | some dayOfMonth =>
          some (.answer (isAfter (z.stepBackAtMost (onDayOfMonth z dayOfMonth) 40 target) lastMs))
      | _ => some (.answer (isAfter target lastMs))

/-! ### The route -/

/-- An integer that is stored as a number. -/
def intField (raw : JsValue) (key : String) : Option ℤ :=
  match storedField (some raw) key with
  | some (.num x) => if (⌊x.val⌋ : ℚ) = x.val then some ⌊x.val⌋ else none
  | _ => none

/-- `z.number().int()` with bounds. -/
def intBetween (raw : JsValue) (key : String) (low : ℤ) (high : Option ℤ) : Bool :=
  (intField raw key).any (fun n => decide (low ≤ n) && high.all (fun h => decide (n ≤ h)))

/-- `z.string()` with a test. -/
def textThat (raw : JsValue) (key : String) (test : String → Bool) : Bool :=
  (textField raw key).any test

/-- `scheduleSchema`. -/
def scheduleSchema (raw : JsValue) : Bool :=
  textThat raw "id" (fun s => s != "") &&
  textThat raw "name" (fun s => s != "" && decide (Auth.utf16Length s ≤ 80)) &&
  (match storedField (some raw) "enabled" with | some (.bool _) => true | _ => false) &&
  textThat raw "scope" (fun s => ["all", "config", "data"].contains s) &&
  textThat raw "frequency" (fun s => ["interval", "daily", "weekly", "monthly"].contains s) &&
  intBetween raw "intervalHours" 1 none &&
  textThat raw "time" isTime &&
  intBetween raw "weekday" 0 (some 6) &&
  intBetween raw "dayOfMonth" 1 (some 31)

/-! ### The instants of a schedule -/

/-- The milliseconds of a day at a time of the form `HH:MM`. -/
def clockMillis (time : String) : ℤ :=
  match time.toList with
  | [a, b, _, d, e] =>
    (Nat.ofDigitChars 10 [a, b] 0 : ℤ) * 3600000 + (Nat.ofDigitChars 10 [d, e] 0 : ℤ) * 60000
  | _ => 0

/-- The days of a schedule; a day behind the end of a month is its last one. -/
def OnDay (sched : JsValue) (day : ℤ) : Prop :=
  match frequencyOf sched with
  | .weekly => intField sched "weekday" = some (weekDay day)
  | .monthly =>
    ∃ d, intField sched "dayOfMonth" = some d ∧ dateFromDay day = min d (monthLength day)
  | _ => True

/-- An instant of a schedule. -/
def Matches (z : Zone) (sched : JsValue) (s : ℤ) : Prop :=
  (∃ time, textField sched "time" = some time ∧ z.localMillis s = clockMillis time) ∧
    OnDay sched (z.localDay s)

/-! ### Times of day -/

private theorem isDigit_iff_toNat {c : Char} : c.isDigit = true ↔ 48 ≤ c.toNat ∧ c.toNat ≤ 57 := by
  rw [Char.isDigit, Bool.and_eq_true, decide_eq_true_eq, decide_eq_true_eq]
  exact Iff.rfl

private theorem ofDigitChars_two (a b : Char) :
    Nat.ofDigitChars 10 [a, b] 0 = 10 * (a.toNat - 48) + (b.toNat - 48) := by
  simp [Nat.ofDigitChars]

theorem clockPiece_digits {time : String} {i : ℕ} {a b : Char}
    (hpiece : (time.toList.splitOn ':')[i]? = some [a, b]) (ha : a.isDigit = true)
    (hb : b.isDigit = true) (hn : |(Nat.ofDigitChars 10 [a, b] 0 : ℤ)| ≤ 2 ^ 53) :
    clockPiece time i = .fin (.ofInt (Nat.ofDigitChars 10 [a, b] 0) hn) := by
  rw [clockPiece, hpiece]
  dsimp only
  rw [JsNumber.ofChars_digits (by simp [ha, hb]) (by simp), ← JsNumber.ofRat_intCast hn]
  rfl

/-- The digits of a time that the route accepts. -/
theorem digits_of_isTime {time : String} (h : isTime time = true) :
    ∃ a b d e, time.toList = [a, b, ':', d, e] ∧ a.isDigit = true ∧ b.isDigit = true ∧
      d.isDigit = true ∧ e.isDigit = true ∧ Nat.ofDigitChars 10 [a, b] 0 < 24 ∧
      Nat.ofDigitChars 10 [d, e] 0 < 60 := by
  unfold isTime at h
  split at h
  · next a b c d e heq =>
    simp only [Bool.and_eq_true, Bool.or_eq_true, beq_iff_eq, decide_eq_true_eq] at h
    obtain ⟨⟨⟨hhours, rfl⟩, hd⟩, he⟩ := h
    have hd' : 48 ≤ d.toNat ∧ d.toNat ≤ 53 := hd
    have he' := isDigit_iff_toNat.mp he
    refine ⟨a, b, d, e, heq, ?_⟩
    rw [isDigit_iff_toNat, isDigit_iff_toNat, isDigit_iff_toNat, isDigit_iff_toNat, ofDigitChars_two,
      ofDigitChars_two]
    rcases hhours with ⟨rfl | rfl, hb⟩ | ⟨rfl, hb⟩
    · have hb' := isDigit_iff_toNat.mp hb
      have ha : '0'.toNat = 48 := rfl
      omega
    · have hb' := isDigit_iff_toNat.mp hb
      have ha : '1'.toNat = 49 := rfl
      omega
    · have hb' : 48 ≤ b.toNat ∧ b.toNat ≤ 51 := hb
      have ha : '2'.toNat = 50 := rfl
      omega
  · exact absurd h Bool.false_ne_true

/-- The pieces of such a time are its hours and its minutes. -/
theorem clock_of_isTime {time : String} (h : isTime time = true) :
    ∃ (hours minutes : ℤ) (hb : |hours| ≤ 2 ^ 53) (mb : |minutes| ≤ 2 ^ 53),
      clockPiece time 0 = .fin (.ofInt hours hb) ∧ clockPiece time 1 = .fin (.ofInt minutes mb) ∧
      (0 ≤ hours ∧ hours < 24) ∧ (0 ≤ minutes ∧ minutes < 60) ∧
      clockMillis time = hours * 3600000 + minutes * 60000 := by
  obtain ⟨a, b, d, e, heq, ha, hb, hd, he, hhours, hminutes⟩ := digits_of_isTime h
  have hcolon : ∀ c : Char, c.isDigit = true → c ≠ ':' := by
    rintro c hc rfl
    cases hc
  have hsplit : time.toList.splitOn ':' = [[a, b], [d, e]] := by
    rw [heq]
    simp [List.splitOn, List.splitOnP_cons_eq_if_modifyHead, hcolon a ha, hcolon b hb, hcolon d hd,
      hcolon e he]
  have hbound : ∀ n : ℕ, n < 60 → |(n : ℤ)| ≤ 2 ^ 53 := fun n hn => abs_le.mpr ⟨by omega, by omega⟩
  refine ⟨Nat.ofDigitChars 10 [a, b] 0, Nat.ofDigitChars 10 [d, e] 0, hbound _ (by omega),
    hbound _ hminutes, clockPiece_digits (by rw [hsplit]; rfl) ha hb _,
    clockPiece_digits (by rw [hsplit]; rfl) hd he _, by omega, by omega, ?_⟩
  rw [clockMillis, heq]

theorem clockMillis_bounds {time : String} (h : isTime time = true) :
    0 ≤ clockMillis time ∧ clockMillis time < msPerDay := by
  obtain ⟨hours, minutes, _, _, -, -, hh, hm, hclock⟩ := clock_of_isTime h
  rw [hclock, msPerDay]
  omega

/-! ### The anchor -/

/-- Far enough from the ends of the range of dates, and in no year that `new Date` takes for one
    with other months. -/
def WithinReach (z : Zone) (now : ℤ) : Prop :=
  |now| ≤ maxTime - 32 * msPerDay ∧ yearFromDay (z.localDay now) ≠ 0

instance (z : Zone) (now : ℤ) : Decidable (WithinReach z now) :=
  inferInstanceAs (Decidable (_ ∧ _))

/-- The anchor is the last instant at the time of day. -/
theorem anchor_spec {z : Zone} {time : String} {now : ℤ} (htime : isTime time = true)
    (hnow : |now| ≤ maxTime - 32 * msPerDay) :
    ∃ t, anchor z time now = some t ∧ t ≤ now ∧ now < t + msPerDay ∧
      z.localMillis t = clockMillis time := by
  obtain ⟨hours, minutes, hb, mb, hhours, hminutes, hh, hm, hclock⟩ := clock_of_isTime htime
  have hmillis := clockMillis_bounds htime
  obtain ⟨tb, hmake⟩ := makeTime_ofInt hh hm hb mb
  have hlocal := z.localMillis_bounds now
  have hself := z.timeOf_local now
  have hset : z.setHours (some now) (clockPiece time 0) (clockPiece time 1)
      = timeClip (z.timeOf (z.localDay now) (clockMillis time)) := by
    rw [Zone.setHours, Option.bind_some, hhours, hminutes, hmake, hclock]
    dsimp only
    rw [Double.ofInt, Int.floor_intCast]
  have hnow' := abs_le.mp hnow
  have hvalid : |z.timeOf (z.localDay now) (clockMillis time)| ≤ maxTime := by
    rw [abs_le]
    unfold Zone.timeOf maxTime msPerDay at *
    omega
  have hclockDay := z.localMillis_timeOf (z.localDay now) hmillis
  rw [timeClip_of_le hvalid] at hset
  unfold anchor
  dsimp only
  rw [hset]
  by_cases hafter : now < z.timeOf (z.localDay now) (clockMillis time)
  · -- the time of today is still to come
    have hback := z.localMillis_sub (z.timeOf (z.localDay now) (clockMillis time)) 1
    rw [one_mul] at hback
    have hvalid' : |z.timeOf (z.localDay now) (clockMillis time) - msPerDay| ≤ maxTime := by
      rw [abs_le] at hvalid ⊢
      unfold Zone.timeOf maxTime msPerDay at *
      omega
    rw [isAfter, decide_eq_true hafter, if_pos rfl, Zone.dayBefore_some, timeClip_of_le hvalid']
    refine ⟨_, rfl, ?_, by omega, hback.trans hclockDay⟩
    unfold Zone.timeOf msPerDay at *
    omega
  · rw [isAfter, decide_eq_false hafter, if_neg Bool.false_ne_true]
    refine ⟨_, rfl, by omega, ?_, hclockDay⟩
    unfold Zone.timeOf msPerDay at *
    omega

/-! ### The last instant -/

/-- The last day of a schedule gives its last instant: it decides whether there is one after the
    last backup. -/
theorem latest_iff {z : Zone} {D : ℤ → Prop} {clock t now last : ℤ} {k : ℕ} (hle : t ≤ now)
    (hlt : now < t + msPerDay) (hclock : z.localMillis t = clock) (hday : D (z.localDay t - k))
    (hfirst : ∀ j < k, ¬ D (z.localDay t - j)) :
    last < t - k * msPerDay ↔
      ∃ s, last < s ∧ s ≤ now ∧ z.localMillis s = clock ∧ D (z.localDay s) := by
  constructor
  · intro h
    refine ⟨t - k * msPerDay, h, ?_, ?_, ?_⟩
    · unfold msPerDay at *
      omega
    · rw [Zone.localMillis_sub, hclock]
    · rw [Zone.localDay_sub]
      exact hday
  · rintro ⟨s, hlast, hnow, hs, hD⟩
    have hself := z.timeOf_local s
    have ht := z.timeOf_local t
    rw [hs] at hself
    rw [hclock] at ht
    unfold Zone.timeOf at hself ht
    -- the instants of the time of day are whole days apart
    obtain ⟨j, hj⟩ := Int.eq_ofNat_of_zero_le (a := z.localDay t - z.localDay s) (by
      unfold msPerDay at *
      omega)
    have hback : z.localDay t - j = z.localDay s := by omega
    have hjk : k ≤ j := by
      by_contra hlt
      exact hfirst j (by omega) (hback ▸ hD)
    unfold msPerDay at *
    omega

/-- The fields of an accepted schedule that `isDue` reads. -/
structure Accepted (sched : JsValue) : Prop where
  time : ∃ time, textField sched "time" = some time ∧ isTime time = true
  weekday : ∃ w, intField sched "weekday" = some w ∧ 0 ≤ w ∧ w ≤ 6
  dayOfMonth : ∃ d, intField sched "dayOfMonth" = some d ∧ 1 ≤ d ∧ d ≤ 31

theorem Accepted.of_schema {sched : JsValue} (h : scheduleSchema sched = true) :
    Accepted sched := by
  simp only [scheduleSchema, Bool.and_eq_true] at h
  obtain ⟨⟨⟨-, htime⟩, hweekday⟩, hday⟩ := h
  rw [textThat, Option.any_eq_true] at htime
  rw [intBetween, Option.any_eq_true] at hweekday hday
  refine ⟨htime, ?_, ?_⟩
  · simpa using hweekday
  · simpa using hday

/-- A stored integer is the number it is compared as. -/
theorem intField_eq_some_iff {sched : JsValue} {key : String} {n : ℤ} :
    intField sched key = some n ↔
      ∃ x : Double, storedField (some sched) key = some (.num x) ∧ x.val = n := by
  unfold intField
  constructor
  · intro h
    split at h
    · next x heq =>
      split at h
      · next hint =>
        refine ⟨x, heq, ?_⟩
        rw [← Option.some.inj h, hint]
      · cases h
    · cases h
  · rintro ⟨x, heq, hx⟩
    rw [heq]
    dsimp only
    rw [hx, Int.floor_intCast, if_pos rfl]

theorem onWeekday_iff {z : Zone} {sched : JsValue} {t : ℤ} :
    onWeekday z (storedField (some sched) "weekday") (some t) = true ↔
      intField sched "weekday" = some (weekDay (z.localDay t)) := by
  rw [intField_eq_some_iff]
  unfold onWeekday
  split
  · next day x hday hx =>
    obtain rfl := Option.some.inj hday
    rw [decide_eq_true_eq, hx]
    simp
  · next hnone =>
    refine iff_of_false Bool.false_ne_true ?_
    rintro ⟨x, hx, -⟩
    exact hnone _ x rfl hx

theorem onDayOfMonth_iff {z : Zone} {t d : ℤ} (hd : |d| ≤ 2 ^ 53)
    (hlength : daysInMonthOf z (some t) = some (monthLength (z.localDay t) : ℤ)) :
    onDayOfMonth z (.fin (.ofInt d hd)) (some t) = true ↔
      dateFromDay (z.localDay t) = min d (monthLength (z.localDay t)) := by
  obtain ⟨hpos, hle⟩ := dateFromDay_bounds (z.localDay t)
  have hbounds := monthLength_bounds (z.localDay t)
  have hdate : |dateFromDay (z.localDay t)| ≤ 2 ^ 53 := abs_le.mpr ⟨by omega, by omega⟩
  have hdays : |(monthLength (z.localDay t) : ℤ)| ≤ 2 ^ 53 := abs_le.mpr ⟨by omega, by omega⟩
  rw [onDayOfMonth, hlength]
  show JsNumber.strictEq (.ofRat (dateFromDay (z.localDay t) : ℤ))
    (JsNumber.min _ (.ofRat (monthLength (z.localDay t) : ℤ))) = true ↔ _
  rw [JsNumber.ofRat_intCast hdate, JsNumber.ofRat_intCast hdays, JsNumber.min_ofInt,
    JsNumber.strictEq_ofInt, decide_eq_true_eq]

/-- Away from the ends of the range and from the February of the year `0`, the days of a month
    are those of the calendar. -/
theorem daysInMonthOf_eq {z : Zone} {t : ℤ} (hlow : -maxTime + msPerDay ≤ t)
    (hhigh : t ≤ maxTime - 31 * msPerDay)
    (hyear : yearFromDay (z.localDay t) ≠ 0 ∨ (monthFromDay (z.localDay t)).val ≠ 1) :
    daysInMonthOf z (some t) = some (monthLength (z.localDay t) : ℤ) := by
  have hself := makeDay_civil (z.localDay t)
    (monthLength (z.localDay t) - dateFromDay (z.localDay t))
  have hbounds := monthLength_bounds (z.localDay t)
  have hdate := dateFromDay_bounds (z.localDay t)
  have hlocal := z.localMillis_bounds t
  have htime := z.timeOf_local t
  have hoffset := abs_lt.mp z.offset_lt
  rw [add_sub_cancel] at hself
  apply z.getDate_ofCivil hyear
  rintro y' (rfl | hcentury)
  · rw [← monthLength, hself, abs_le]
    unfold Zone.timeOf maxTime msPerDay at *
    omega
  · have hstart := monthStart_nonneg (isLeap y') (monthFromDay (z.localDay t))
    have hend := monthStart_le (isLeap y') (monthFromDay (z.localDay t))
    rw [abs_le]
    unfold Zone.timeOf makeDay dayFromYear maxTime msPerDay at *
    split at hend <;> omega

/-- The February of the year `0` is not met on the way back from another year. -/
theorem february_not_met {now n : ℤ} (hnow : yearFromDay now ≠ 0) (hle : n ≤ now)
    (hlt : now ≤ n + 31) : yearFromDay n ≠ 0 ∨ (monthFromDay n).val ≠ 1 := by
  by_contra h
  rw [not_or, not_not, not_not] at h
  obtain ⟨hyear, hmonth⟩ := h
  have hself := makeDay_civil n 0
  have hdate := dateFromDay_bounds n
  have hbounds := monthLength_bounds n
  have hfebruary : monthFromDay n = 1 := Fin.ext hmonth
  have hstart : monthStart (isLeap 0) 1 = 31 := by decide
  rw [hyear, hfebruary, makeDay, hstart] at hself
  apply hnow
  apply yearFromDay_eq
  · unfold dayFromYear at *
    omega
  · unfold dayFromYear at *
    omega

/-! ### Due schedules -/

section Schedule

variable {z : Zone} {sched : JsValue} {now t : ℤ}

theorem matches_iff {time : String} (htime : textField sched "time" = some time) {s : ℤ} :
    Matches z sched s ↔ z.localMillis s = clockMillis time ∧ OnDay sched (z.localDay s) := by
  rw [Matches, htime]
  simp

/-- The dates that are met on the way back are valid. -/
theorem valid_back (hnow : |now| ≤ maxTime - 32 * msPerDay) (hle : t ≤ now)
    (hlt : now < t + msPerDay) {k : ℕ} (hk : k ≤ 30) :
    -maxTime + msPerDay ≤ t - k * msPerDay ∧ t - k * msPerDay ≤ maxTime - 31 * msPerDay := by
  rw [abs_le] at hnow
  unfold maxTime msPerDay at *
  omega

theorem abs_back (hnow : |now| ≤ maxTime - 32 * msPerDay) (hle : t ≤ now)
    (hlt : now < t + msPerDay) {k : ℕ} (hk : k ≤ 30) : |t - k * msPerDay| ≤ maxTime := by
  obtain ⟨hlow, hhigh⟩ := valid_back hnow hle hlt hk
  rw [abs_le]
  unfold maxTime msPerDay at *
  omega

/-- The weekly loop ends at the last day of the schedule. -/
theorem weekly_finds (hsched : Accepted sched) (hfrequency : frequencyOf sched = .weekly)
    (hnow : |now| ≤ maxTime - 32 * msPerDay) (hle : t ≤ now) (hlt : now < t + msPerDay) :
    ∃ k : ℕ, OnDay sched (z.localDay t - k) ∧ (∀ j < k, ¬ OnDay sched (z.localDay t - j)) ∧
      ∀ fuel, 7 ≤ fuel → z.stepBack (onWeekday z (storedField (some sched) "weekday")) fuel (some t)
        = some (some (t - k * msPerDay)) := by
  have hdays : ∀ day, OnDay sched day ↔ intField sched "weekday" = some (weekDay day) := by
    intro day
    rw [OnDay, hfrequency]
  obtain ⟨w, hw, hpos, hle'⟩ := hsched.weekday
  obtain ⟨k, hk, hday⟩ := exists_weekDay_back (z.localDay t) hpos hle'
  have hstop : ∀ k : ℕ, k ≤ 6 → (onWeekday z (storedField (some sched) "weekday")
      (some (t - k * msPerDay)) = true ↔ OnDay sched (z.localDay t - k)) := by
    intro k _
    rw [onWeekday_iff, hdays, Zone.localDay_sub]
  obtain ⟨k, -, hD, hfirst, hloop⟩ := z.stepBack_finds 6
    (fun k hk => abs_back hnow hle hlt (by omega)) hstop ⟨k, hk, by rw [hdays, hday, hw]⟩
  exact ⟨k, hD, hfirst, fun fuel hfuel => hloop fuel hfuel⟩

/-- So does the monthly one. -/
theorem monthly_finds (hsched : Accepted sched) (hfrequency : frequencyOf sched = .monthly)
    (hnow : WithinReach z now) (hle : t ≤ now) (hlt : now < t + msPerDay) :
    ∃ (k : ℕ) (dayOfMonth : JsNumber), OnDay sched (z.localDay t - k) ∧
      (∀ j < k, ¬ OnDay sched (z.localDay t - j)) ∧
      JsValue.fieldNumber (storedField (some sched) "dayOfMonth") = some dayOfMonth ∧
      z.stepBackAtMost (onDayOfMonth z dayOfMonth) 40 (some t) = some (t - k * msPerDay) := by
  obtain ⟨d, hd, hpos, hle'⟩ := hsched.dayOfMonth
  have hdays : ∀ day, OnDay sched day ↔ dateFromDay day = min d (monthLength day) := by
    intro day
    rw [OnDay, hfrequency]
    simp [hd]
  have hbound : |d| ≤ 2 ^ 53 := abs_le.mpr ⟨by omega, by omega⟩
  obtain ⟨x, hx, hval⟩ := intField_eq_some_iff.mp hd
  have hdouble : x = .ofInt d hbound := Double.ext hval
  obtain ⟨k, hk, hday⟩ := exists_date_back (z.localDay t) hpos hle'
  have hdaysBack : z.localDay t ≤ z.localDay now ∧ z.localDay now ≤ z.localDay t + 1 := by
    unfold Zone.localDay msPerDay at *
    omega
  have hstop : ∀ k : ℕ, k ≤ 30 → (onDayOfMonth z (.fin (.ofInt d hbound))
      (some (t - k * msPerDay)) = true ↔ OnDay sched (z.localDay t - k)) := by
    intro k hk
    obtain ⟨hlow, hhigh⟩ := valid_back hnow.1 hle hlt hk
    have hmet := february_not_met (n := z.localDay (t - k * msPerDay)) hnow.2
      (by rw [Zone.localDay_sub]; omega) (by rw [Zone.localDay_sub]; omega)
    rw [onDayOfMonth_iff hbound (daysInMonthOf_eq hlow hhigh hmet), hdays, Zone.localDay_sub]
  obtain ⟨k, -, hD, hfirst, hloop⟩ := z.stepBack_finds 30
    (fun k hk => abs_back hnow.1 hle hlt hk) hstop ⟨k, hk, by rw [hdays, hday]⟩
  refine ⟨k, .fin (.ofInt d hbound), hD, hfirst, ?_, z.stepBackAtMost_eq (hloop 40 (by decide))⟩
  rw [hx, JsValue.fieldNumber_some, hdouble]
  rfl

end Schedule

/-- **Due schedules.**  A schedule that the route accepts is due if and only if there is no backup
    yet, which the time `0` stands for, or one of its instants has passed since the last one. -/
theorem isDue_iff (z : Zone) {sched : JsValue} (hsched : scheduleSchema sched = true)
    (hanchored : frequencyOf sched ≠ .interval) {fuel : ℕ} (hfuel : 7 ≤ fuel) {now : ℤ}
    (hnow : WithinReach z now) (last : ℤ) :
    ∃ due, isDue z fuel sched last now = some (.answer due) ∧
      (due = true ↔ last = 0 ∨ ∃ s, last < s ∧ s ≤ now ∧ Matches z sched s) := by
  have haccepted := Accepted.of_schema hsched
  obtain ⟨time, htime, hclock⟩ := haccepted.time
  obtain ⟨t, hanchor, hle, hlt, hmillis⟩ := anchor_spec hclock hnow.1
  by_cases hlast : last = 0
  · exact ⟨true, if_pos hlast, by simp [hlast]⟩
  -- in each case the loop has found the last day of the schedule
  have hfound : ∀ k : ℕ, OnDay sched (z.localDay t - k) →
      (∀ j < k, ¬ OnDay sched (z.localDay t - j)) →
      (isAfter (some (t - k * msPerDay)) last = true ↔
        last = 0 ∨ ∃ s, last < s ∧ s ≤ now ∧ Matches z sched s) := by
    intro k hday hfirst
    simp only [isAfter, decide_eq_true_eq, hlast, false_or, matches_iff htime]
    exact latest_iff hle hlt hmillis hday hfirst
  unfold isDue
  rw [if_neg hlast, if_neg hanchored, htime]
  dsimp only
  rw [hanchor]
  cases hfrequency : frequencyOf sched with
  | interval => exact absurd hfrequency hanchored
  | daily =>
    have hday : ∀ day, OnDay sched day := fun day => by
      rw [OnDay, hfrequency]
      trivial
    have hdue := hfound 0 (hday _) (fun j hj => absurd hj (Nat.not_lt_zero j))
    rw [Nat.cast_zero, zero_mul, sub_zero] at hdue
    exact ⟨_, rfl, hdue⟩
  | weekly =>
    obtain ⟨k, hday, hfirst, hloop⟩ := weekly_finds haccepted hfrequency hnow.1 hle hlt
    rw [hloop fuel hfuel, Option.map_some]
    exact ⟨_, rfl, hfound k hday hfirst⟩
  | monthly =>
    obtain ⟨k, dayOfMonth, hday, hfirst, hnumber, hloop⟩ :=
      monthly_finds haccepted hfrequency hnow hle hlt
    rw [hnumber]
    dsimp only
    rw [hloop]
    exact ⟨_, rfl, hfound k hday hfirst⟩

namespace Sample

def utc : Zone := ⟨0, by decide⟩

theorem hours_exact : |(24 : ℤ)| ≤ 2 ^ 53 := by decide

theorem weekday_exact : |(1 : ℤ)| ≤ 2 ^ 53 := by decide

theorem dayOfMonth_exact : |(31 : ℤ)| ≤ 2 ^ 53 := by decide

/-- A schedule as the route stores it. -/
def schedule (frequency time : String) : JsValue :=
  .obj [("id", .str "s1"), ("name", .str "Nightly"), ("enabled", .bool true), ("scope", .str "all"),
    ("frequency", .str frequency), ("intervalHours", .num (.ofInt 24 hours_exact)),
    ("time", .str time), ("weekday", .num (.ofInt 1 weekday_exact)),
    ("dayOfMonth", .num (.ofInt 31 dayOfMonth_exact))]

end Sample

open Sample in
/-- The last day of February, on the first of March. -/
theorem isDue_iff_february :
    ∃ due, isDue utc 7 (schedule "monthly" "02:30") 1740641400000 1740787200000
        = some (.answer due) ∧
      (due = true ↔ (1740641400000 : ℤ) = 0 ∨ ∃ s, 1740641400000 < s ∧ s ≤ 1740787200000 ∧
        Matches utc (schedule "monthly" "02:30") s) :=
  isDue_iff utc (by decide +kernel) (by decide +kernel) (by decide) (by decide +kernel) _

open Sample in
example : isDue utc 7 (schedule "monthly" "02:30") 1740641400000 1740787200000
    = some (.answer true) := by
  decide +kernel

open Sample in
/-- Where the answer and the instants of the schedule differ: the time `0` means that there is no
    backup; the time of today may lie behind the last date there is; and the year `0` is taken for
    1900, whose February is shorter. -/
theorem isDue_differs :
    scheduleSchema (schedule "daily" "12:00") = true ∧
    scheduleSchema (schedule "monthly" "00:00") = true ∧
    (isDue utc 7 (schedule "daily" "12:00") 0 1 = some (.answer true) ∧
      ¬ ∃ s, 0 < s ∧ s ≤ 1 ∧ Matches utc (schedule "daily" "12:00") s) ∧
    (isDue utc 7 (schedule "daily" "12:00") (maxTime - msPerDay) maxTime = some (.answer false) ∧
      ∃ s, maxTime - msPerDay < s ∧ s ≤ maxTime ∧ Matches utc (schedule "daily" "12:00") s) ∧
    (isDue utc 7 (schedule "monthly" "00:00") (makeDay 0 1 28 * msPerDay)
        (makeDay 0 1 29 * msPerDay) = some (.answer false) ∧
      ∃ s, makeDay 0 1 28 * msPerDay < s ∧ s ≤ makeDay 0 1 29 * msPerDay ∧
        Matches utc (schedule "monthly" "00:00") s) := by
  refine ⟨by decide +kernel, by decide +kernel, ⟨by decide +kernel, ?_⟩,
    ⟨by decide +kernel, maxTime - msPerDay / 2, by decide, by decide,
      ⟨"12:00", by decide +kernel, by decide +kernel⟩, ?_⟩,
    ⟨by decide +kernel, makeDay 0 1 29 * msPerDay, by decide +kernel, le_rfl,
      ⟨"00:00", by decide +kernel, by decide +kernel⟩, ?_⟩⟩
  · rintro ⟨s, hpos, hle, ⟨time, htime, hmillis⟩, -⟩
    obtain rfl : s = 1 := by omega
    obtain rfl : "12:00" = time := Option.some.inj htime
    exact absurd hmillis (by decide +kernel)
  · trivial
  · exact ⟨31, by decide +kernel, by decide +kernel⟩

end Argus.Backup
