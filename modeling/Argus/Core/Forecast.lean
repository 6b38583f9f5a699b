import Argus.Lib.JsDate
import Argus.Lib.LeastSquares
import Mathlib.Algebra.Order.Floor.Ring
import Mathlib.Data.List.Sort

namespace Argus.Core

/-!
# Storage forecasts

`forecastStorage` of `packages/core/src/storage.ts` fits a line to the used bytes of a share and asks
when it is full.  Numbers are exact here.

* `forecastStorage` — `none` if it throws, as `toISOString` does for a date that is none.
* `slope_eq` — the growth is the slope of the line of least squares.
* `Projectable` — the date at which the share is full is in the range of dates.
* `neverFails_iff` — when a forecast is made, and makes sense.
-/

open JsDate LeastSquares

/-! ### The forecast -/

/-- `Date.parse`: the time value of a text, if it is a date at all. -/
structure DateParse where
  parse : String → Option ℤ
  range : ∀ {s : String} {t : ℤ}, parse s = some t → |t| ≤ maxTime

/-- `new Date(v).toISOString()`, as its time value; it throws for a date that is none. -/
def toISODate (v : ℚ) : Option ℤ :=
  if |v| ≤ maxTime then some (if 0 ≤ v then ⌊v⌋ else ⌈v⌉) else none

structure StoragePoint where
  ts : String
  usedBytes : Option ℕ
  totalBytes : Option ℕ
deriving DecidableEq, Repr

structure StorageForecast where
  growthBytesPerDay : ℚ
  daysToFull : Option ℚ
  /-- The time value of the date. -/
  projectedFullDate : Option ℤ
  spanDays : ℚ
  samples : ℕ
deriving DecidableEq

/-- A point that can be used. -/
structure UsagePoint where
  t : ℤ
  used : ℕ
  total : Option ℕ
deriving DecidableEq, Repr

/-- `MS_PER_DAY`. -/
def MS_PER_DAY : ℚ := 86400000

def sum (xs : List ℚ) : ℚ := xs.foldl (fun a b => a + b) 0

def dot (xs ys : List ℚ) : ℚ := xs.zipIdx.foldl (fun a x => a + x.1 * ys.getD x.2 0) 0

/-- The points with used bytes and a date, in the order of time. -/
def pts (dates : DateParse) (points : List StoragePoint) : List UsagePoint :=
  (points.filterMap fun p => p.usedBytes.bind fun used =>
    (dates.parse p.ts).map fun t => ⟨t, used, p.totalBytes⟩).mergeSort fun a b => a.t ≤ b.t

/-- The days since the first sample. -/
def xs (first : UsagePoint) (pts : List UsagePoint) : List ℚ :=
  pts.map fun p => ((p.t - first.t : ℤ) : ℚ) / MS_PER_DAY

def ys (pts : List UsagePoint) : List ℚ := pts.map fun p => (p.used : ℚ)

def denom (xs : List ℚ) : ℚ := xs.length * dot xs xs - sum xs * sum xs

/-- `slope`, in bytes a day. -/
def growth (xs ys : List ℚ) : ℚ :=
  if denom xs = 0 then 0 else (xs.length * dot xs ys - sum xs * sum ys) / denom xs

/-- How long it takes until the share is full, if it fills up and its size is known. -/
def daysToFull (last : UsagePoint) (slope : ℚ) : Option ℚ :=
  match last.total with
  | none => none
  | some total =>
    if total ≠ 0 ∧ 0 < slope then
      let remaining : ℚ := total - last.used
      some (if 0 < remaining then remaining / slope else 0)
    else none

/-- The date of that, which may throw. -/
def projectedFullDate (last : UsagePoint) : Option ℚ → Option (Option ℤ)
  | none => some none
  | some days => (toISODate (last.t + days * MS_PER_DAY)).map some

/-- The forecast from at least two samples. -/
def forecastOf (first second : UsagePoint) (rest : List UsagePoint) : Option StorageForecast :=
  let pts := first :: second :: rest
  let slope := growth (xs first pts) (ys pts)
  let last := (second :: rest).getLast (List.cons_ne_nil _ _)
  (projectedFullDate last (daysToFull last slope)).map fun date =>
    { growthBytesPerDay := slope
      daysToFull := daysToFull last slope
      projectedFullDate := date
      spanDays := ((last.t - first.t : ℤ) : ℚ) / MS_PER_DAY
      samples := pts.length }

/-- `none` if it throws, and `some none` for `null`. -/
def forecastStorage (dates : DateParse) (points : List StoragePoint) :
    Option (Option StorageForecast) :=
  match pts dates points with
  | first :: second :: rest => (forecastOf first second rest).map some
  | _ => some none

/-! ### Sums -/

theorem sum_eq (xs : List ℚ) : sum xs = xs.sum := List.sum_eq_foldl.symm

theorem dot_map {α : Type} (l : List α) (f g : α → ℚ) :
    dot (l.map f) (l.map g) = (l.map fun a => f a * g a).sum := by
  have hgeneral : ∀ (done todo : List α) (start : ℚ),
      ((todo.map f).zipIdx done.length).foldl
        (fun a x => a + x.1 * ((done ++ todo).map g).getD x.2 0) start
        = start + (todo.map fun a => f a * g a).sum := by
    intro done todo start
    induction todo generalizing done start with
    | nil => simp
    | cons a todo ih =>
      have hsplit : done ++ a :: todo = (done ++ [a]) ++ todo := by simp
      have hnext := ih (done ++ [a]) (start + f a * g a)
      rw [List.length_append, List.length_singleton, ← hsplit] at hnext
      rw [List.map_cons, List.zipIdx_cons, List.foldl_cons, List.map_cons, List.sum_cons]
      have hhead : ((done ++ a :: todo).map g).getD done.length 0 = g a := by simp
      rw [hhead, hnext]
      ring
  have hall := hgeneral [] l 0
  rw [zero_add] at hall
  exact hall

/-- The samples as points, over the time in days. -/
def dayPoints (first : UsagePoint) (pts : List UsagePoint) : List (ℚ × ℚ) :=
  pts.map fun p => (((p.t - first.t : ℤ) : ℚ) / MS_PER_DAY, (p.used : ℚ))

/-- The same over the time in milliseconds. -/
def timePoints (pts : List UsagePoint) : List (ℚ × ℚ) := pts.map fun p => ((p.t : ℚ), (p.used : ℚ))

variable (first : UsagePoint) (pts : List UsagePoint)

theorem denom_eq : denom (xs first pts) = spread (dayPoints first pts) := by
  rw [denom, xs, dot_map, sum_eq, spread, sumXX, sumX, dayPoints, List.map_map, List.map_map,
    List.length_map, List.length_map]
  rfl

theorem growth_eq : growth (xs first pts) (ys pts) = slope (dayPoints first pts) := by
  rw [growth, denom_eq, LeastSquares.slope]
  split
  · rename_i hzero
    rw [hzero, div_zero]
  · rw [xs, ys, dot_map, sum_eq, sum_eq, cross, sumXY, sumX, sumY, dayPoints, List.map_map,
      List.map_map, List.map_map, List.length_map, List.length_map]
    rfl

theorem dayPoints_eq :
    dayPoints first pts
      = (timePoints pts).map fun p => ((p.1 - (first.t : ℚ)) / MS_PER_DAY, p.2) := by
  rw [dayPoints, timePoints, List.map_map]
  refine List.map_congr_left (fun p _ => ?_)
  show _ = (((p.t : ℚ) - first.t) / MS_PER_DAY, (p.used : ℚ))
  rw [Int.cast_sub]

/-- The growth in a day, from the points over the time in milliseconds. -/
theorem slope_dayPoints :
    slope (dayPoints first pts)
      = cross (timePoints pts) / spread (timePoints pts) * MS_PER_DAY := by
  have hday : MS_PER_DAY ≠ 0 := by decide
  rw [LeastSquares.slope, dayPoints_eq, cross_affine, spread_affine, div_div_div_eq,
    mul_left_comm (cross (timePoints pts)), mul_div_mul_left _ _ hday, div_mul_eq_mul_div]

/-! ### The date -/

theorem toISODate_of_le {v : ℚ} (h : |v| ≤ maxTime) :
    ∃ date, toISODate v = some date ∧ |date| ≤ maxTime ∧ ∀ t : ℤ, (t : ℚ) ≤ v → t ≤ date := by
  obtain ⟨hlow, hhigh⟩ := abs_le.mp h
  rw [toISODate, if_pos h]
  refine ⟨_, rfl, abs_le.mpr ?_, ?_⟩
  · split
    · rename_i hpos
      exact ⟨(by decide : -maxTime ≤ 0).trans (Int.floor_nonneg.mpr hpos),
        Int.floor_le_iff.mpr (hhigh.trans_lt (by exact_mod_cast lt_add_one _))⟩
    · rename_i hneg
      refine ⟨?_, Int.ceil_le.mpr hhigh⟩
      have hcast : ((-maxTime : ℤ) : ℚ) ≤ ⌈v⌉ := by
        push_cast
        exact hlow.trans (Int.le_ceil v)
      exact_mod_cast hcast
  · intro t ht
    split
    · exact Int.le_floor.mpr ht
    · exact_mod_cast ht.trans (Int.le_ceil v)

/-- The share is full within the range of dates: the line of least squares, moved to the last sample,
    reaches its size by then. -/
def Projectable (pts : List UsagePoint) : Prop :=
  ∀ last ∈ pts.getLast?, ∀ total ∈ last.total, last.used < total → 0 < cross (timePoints pts) →
    ((total : ℚ) - last.used) * spread (timePoints pts)
      ≤ (maxTime - last.t) * cross (timePoints pts)

instance (pts : List UsagePoint) : Decidable (Projectable pts) :=
  inferInstanceAs (Decidable (∀ last ∈ pts.getLast?, ∀ total ∈ last.total, last.used < total →
    0 < cross (timePoints pts) → _ ≤ _))

variable {first pts} {last : UsagePoint}

theorem slope_pos_iff : 0 < slope (dayPoints first pts) ↔ 0 < cross (timePoints pts) := by
  have hday : 0 < MS_PER_DAY := by decide
  rw [slope_dayPoints, mul_pos_iff_of_pos_right hday]
  have hspread := spread_nonneg (timePoints pts)
  constructor
  · intro h
    rcases div_pos_iff.mp h with ⟨hcross, -⟩ | ⟨-, hneg⟩
    · exact hcross
    · exact absurd hneg hspread.not_gt
  · intro h
    refine div_pos h (hspread.lt_of_ne' (fun hzero => ?_))
    rw [cross_of_spread_eq_zero hzero] at h
    exact lt_irrefl _ h

/-- A forecast that says how long it takes is about a share of a known size that fills up. -/
theorem daysToFull_eq_some {days slope : ℚ} (h : daysToFull last slope = some days) :
    ∃ total, last.total = some total ∧ 0 < slope ∧
      days = if (0 : ℚ) < total - last.used then ((total : ℚ) - last.used) / slope else 0 := by
  rw [daysToFull] at h
  split at h
  · cases h
  · rename_i total htotal
    split at h
    · rename_i hcond
      exact ⟨total, htotal, hcond.2, (Option.some.inj h).symm⟩
    · cases h

theorem daysToFull_nonneg {days slope : ℚ} (h : daysToFull last slope = some days) : 0 ≤ days := by
  obtain ⟨total, -, hslope, rfl⟩ := daysToFull_eq_some h
  split
  · rename_i hpos
    exact (div_pos hpos hslope).le
  · exact le_rfl

/-- How long it takes, in milliseconds. -/
theorem remaining_div_slope (r : ℚ) :
    r / slope (dayPoints first pts) * MS_PER_DAY
      = r * spread (timePoints pts) / cross (timePoints pts) := by
  have hday : MS_PER_DAY ≠ 0 := by decide
  rw [slope_dayPoints, div_mul_eq_div_div, div_mul_cancel₀ _ hday, div_div_eq_mul_div]

/-- The date that is projected is in the range of dates exactly if the share is full by then. -/
theorem projected_le_iff (first : UsagePoint) (hlast : pts.getLast? = some last)
    (hrange : |last.t| ≤ maxTime) :
    (∀ days, daysToFull last (slope (dayPoints first pts)) = some days →
        |last.t + days * MS_PER_DAY| ≤ (maxTime : ℚ)) ↔ Projectable pts := by
  have hlow : (-maxTime : ℚ) ≤ last.t := by exact_mod_cast (abs_le.mp hrange).1
  have hhigh : (last.t : ℚ) ≤ maxTime := by exact_mod_cast (abs_le.mp hrange).2
  have hbound : ∀ d : ℚ, 0 ≤ d → (|last.t + d| ≤ (maxTime : ℚ) ↔ d ≤ maxTime - last.t) := by
    intro d hd
    rw [abs_le, le_sub_iff_add_le']
    exact and_iff_right (hlow.trans (le_add_of_nonneg_right hd))
  constructor
  · intro h last' hlast' total htotal hused hcross
    obtain rfl := Option.some.inj (hlast.symm.trans hlast')
    have hslope : 0 < slope (dayPoints first pts) := slope_pos_iff.mpr hcross
    have hremaining : (0 : ℚ) < total - last.used := sub_pos.mpr (by exact_mod_cast hused)
    have hdays : daysToFull last (slope (dayPoints first pts))
        = some (((total : ℚ) - last.used) / slope (dayPoints first pts)) := by
      rw [daysToFull, htotal]
      show (if total ≠ 0 ∧ _ then some (if _ then _ else _) else none) = _
      rw [if_pos ⟨(Nat.zero_le _).trans_lt hused |>.ne', hslope⟩, if_pos hremaining]
    have hdate := h _ hdays
    rw [remaining_div_slope, hbound _ (div_nonneg
      (mul_nonneg hremaining.le (spread_nonneg _)) hcross.le), div_le_iff₀ hcross] at hdate
    exact hdate
  · intro h days hdays
    obtain ⟨total, htotal, hslope, rfl⟩ := daysToFull_eq_some hdays
    have hcross := slope_pos_iff.mp hslope
    split
    · rename_i hremaining
      have hused : last.used < total := by exact_mod_cast sub_pos.mp hremaining
      rw [remaining_div_slope, hbound _ (div_nonneg
        (mul_nonneg hremaining.le (spread_nonneg _)) hcross.le), div_le_iff₀ hcross]
      exact h last hlast total htotal hused hcross
    · rw [zero_mul, hbound 0 le_rfl]
      exact sub_nonneg.mpr hhigh

/-! ### Forecasts that do not fail -/

/-- A forecast is made, and if it says when the share is full, this is not in the past. -/
def NeverFails (dates : DateParse) (points : List StoragePoint) : Prop :=
  ∃ answer, forecastStorage dates points = some answer ∧
    ∀ f days, answer = some f → f.daysToFull = some days →
      0 ≤ days ∧ ∃ date, f.projectedFullDate = some date ∧ |date| ≤ maxTime ∧
        ∀ last ∈ (Core.pts dates points).getLast?, last.t ≤ date

theorem range_of_mem_pts {dates : DateParse} {points : List StoragePoint} {p : UsagePoint}
    (h : p ∈ Core.pts dates points) : |p.t| ≤ maxTime := by
  obtain ⟨point, -, hpoint⟩ := List.mem_filterMap.mp ((List.mergeSort_perm _ _).mem_iff.mp h)
  obtain ⟨used, -, hused⟩ := Option.bind_eq_some_iff.mp hpoint
  obtain ⟨t, ht, rfl⟩ := Option.map_eq_some_iff.mp hused
  exact dates.range ht

theorem projectedFullDate_isSome_iff {days : Option ℚ} :
    (projectedFullDate last days).isSome = true ↔
      ∀ d, days = some d → |last.t + d * MS_PER_DAY| ≤ (maxTime : ℚ) := by
  cases days with
  | none => exact iff_of_true rfl (fun d hd => by cases hd)
  | some d =>
    rw [projectedFullDate, toISODate, Option.isSome_map]
    constructor
    · intro h d' hd'
      obtain rfl := Option.some.inj hd'
      by_contra hnot
      rw [if_neg hnot] at h
      cases h
    · intro h
      rw [if_pos (h d rfl)]
      rfl

/-- The last one of at least two samples. -/
theorem getLast?_samples (first second : UsagePoint) (rest : List UsagePoint) :
    (first :: second :: rest).getLast?
      = some ((second :: rest).getLast (List.cons_ne_nil _ _)) := by
  rw [List.getLast?_cons_cons, List.getLast?_eq_some_getLast]

/-- What a forecast says, if it is made. -/
theorem forecastOf_eq_some {second : UsagePoint} {rest : List UsagePoint} {f : StorageForecast}
    (h : forecastOf first second rest = some f) :
    let pts := first :: second :: rest
    let last := (second :: rest).getLast (List.cons_ne_nil _ _)
    f.growthBytesPerDay = slope (dayPoints first pts) ∧
      f.daysToFull = daysToFull last (slope (dayPoints first pts)) ∧
      projectedFullDate last f.daysToFull = some f.projectedFullDate ∧
      f.spanDays = ((last.t - first.t : ℤ) : ℚ) / MS_PER_DAY ∧ f.samples = pts.length := by
  obtain ⟨date, hdate, rfl⟩ := Option.map_eq_some_iff.mp h
  rw [growth_eq] at hdate ⊢
  exact ⟨rfl, rfl, hdate, rfl, rfl⟩

/-- A forecast from at least two samples is made exactly if its date is one. -/
theorem forecastOf_isSome_iff {first second : UsagePoint} {rest : List UsagePoint}
    (hrange : ∀ p ∈ first :: second :: rest, |p.t| ≤ maxTime) :
    (forecastOf first second rest).isSome = true ↔ Projectable (first :: second :: rest) := by
  have hlast := getLast?_samples first second rest
  rw [forecastOf, Option.isSome_map, projectedFullDate_isSome_iff, growth_eq]
  exact projected_le_iff first hlast (hrange _ (List.mem_of_getLast? hlast))

theorem projectable_of_length_lt (h : pts.length < 2) : Projectable pts := by
  intro last hlast total _ _ hcross
  cases pts with
  | nil => cases hlast
  | cons p pts =>
    obtain rfl : pts = [] := List.eq_nil_of_length_eq_zero (by
      rw [List.length_cons] at h
      omega)
    have hone : cross (timePoints [p]) = 0 := by
      rw [timePoints, List.map_singleton]
      simp [cross, sumX, sumY, sumXY]
    rw [hone] at hcross
    exact absurd hcross (lt_irrefl _)

/-- What the date of a forecast is. -/
theorem projectedFullDate_eq_some {d : ℚ} {date : Option ℤ} (hd : 0 ≤ d)
    (h : projectedFullDate last (some d) = some date) :
    ∃ t, date = some t ∧ |t| ≤ maxTime ∧ last.t ≤ t := by
  have hle := projectedFullDate_isSome_iff.mp (Option.isSome_of_eq_some h) d rfl
  obtain ⟨t, ht, hrange, hlate⟩ := toISODate_of_le hle
  rw [projectedFullDate, ht] at h
  refine ⟨t, (Option.some.inj h).symm, hrange, hlate last.t ?_⟩
  have hday : 0 ≤ MS_PER_DAY := by decide
  exact le_add_of_nonneg_right (mul_nonneg hd hday)

theorem exists_samples (h : 2 ≤ pts.length) :
    ∃ first second rest, pts = first :: second :: rest := by
  match pts, h with
  | first :: second :: rest, _ => exact ⟨first, second, rest, rfl⟩

theorem forecastStorage_of_samples {dates : DateParse} {points : List StoragePoint}
    {second : UsagePoint} {rest : List UsagePoint}
    (h : Core.pts dates points = first :: second :: rest) :
    forecastStorage dates points = (forecastOf first second rest).map some := by
  rw [forecastStorage, h]

/-- With less than two samples, the answer is `null`. -/
theorem forecastStorage_of_length_lt {dates : DateParse} {points : List StoragePoint}
    (h : (Core.pts dates points).length < 2) : forecastStorage dates points = some none := by
  rw [forecastStorage]
  split
  · rename_i heq
    rw [heq, List.length_cons, List.length_cons] at h
    omega
  · rfl

/-- A forecast never fails exactly if the share is full within the range of dates. -/
theorem neverFails_iff (dates : DateParse) (points : List StoragePoint) :
    NeverFails dates points ↔ Projectable (Core.pts dates points) := by
  have hrange : ∀ p ∈ Core.pts dates points, |p.t| ≤ maxTime := fun p => range_of_mem_pts
  rcases Nat.lt_or_ge (Core.pts dates points).length 2 with hfew | hmany
  · refine iff_of_true ⟨none, forecastStorage_of_length_lt hfew, fun f days hf => ?_⟩
      (projectable_of_length_lt hfew)
    cases hf
  · obtain ⟨first, second, rest, hpts⟩ := exists_samples hmany
    rw [hpts] at hrange
    rw [NeverFails, forecastStorage_of_samples hpts, hpts, ← forecastOf_isSome_iff hrange]
    constructor
    · rintro ⟨answer, hanswer, -⟩
      have hsome := Option.isSome_of_eq_some hanswer
      rw [Option.isSome_map] at hsome
      exact hsome
    · intro hsome
      obtain ⟨f, hf⟩ := Option.isSome_iff_exists.mp hsome
      rw [hf]
      refine ⟨some f, rfl, fun f' days hf' hdays => ?_⟩
      obtain rfl := Option.some.inj hf'
      obtain ⟨-, hfull, hdate, -⟩ := forecastOf_eq_some hf
      have hnonneg := daysToFull_nonneg (hfull.symm.trans hdays)
      rw [hdays] at hdate
      obtain ⟨t, ht, hvalid, hlate⟩ := projectedFullDate_eq_some hnonneg hdate
      refine ⟨hnonneg, t, ht, hvalid, fun last hlast => ?_⟩
      rw [getLast?_samples] at hlast
      obtain rfl := Option.some.inj hlast
      exact hlate

namespace Sample

/-- The midnights of the first three days of 1970, and no other text, are dates. -/
def midnights : DateParse where
  parse s :=
    if s = "1970-01-01T00:00:00.000Z" then some 0
    else if s = "1970-01-02T00:00:00.000Z" then some 86400000
    else if s = "1970-01-03T00:00:00.000Z" then some 172800000
    else none
  range := by
    intro s t h
    split at h
    · obtain rfl := Option.some.inj h
      decide
    · split at h
      · obtain rfl := Option.some.inj h
        decide
      · split at h
        · obtain rfl := Option.some.inj h
          decide
        · cases h

/-- A share of a terabyte to which a kilobyte is added in a day. -/
def slowShare : List StoragePoint :=
  [⟨"1970-01-01T00:00:00.000Z", some 0, some 1000000000000⟩,
    ⟨"1970-01-02T00:00:00.000Z", some 1000, some 1000000000000⟩]

theorem pts_slowShare : Core.pts midnights slowShare
    = [⟨0, 0, some 1000000000000⟩, ⟨86400000, 1000, some 1000000000000⟩] :=
  List.mergeSort_of_pairwise (by decide)

/-- It is full long after the last date there is. -/
theorem forecastStorage_slowShare : forecastStorage midnights slowShare = none := by
  rw [forecastStorage_of_samples pts_slowShare]
  decide +kernel

end Sample

open Sample in
theorem not_neverFails_slowShare :
    ¬ ∀ (dates : DateParse) (points : List StoragePoint),
      (∀ p ∈ points, (∀ n ∈ p.usedBytes, n ≤ 2 ^ 53) ∧ ∀ n ∈ p.totalBytes, n ≤ 2 ^ 53) →
      NeverFails dates points := by
  intro h
  obtain ⟨answer, hanswer, -⟩ := h midnights slowShare (by decide)
  rw [forecastStorage_slowShare] at hanswer
  cases hanswer

end Argus.Core
