import Argus.Core.Forecast

namespace Argus.Core

/-!
# The growth of a share

The growth in a forecast is the slope of the line of least squares.  If no two samples are of one
instant, it depends neither on the order of the points nor on the origin of time, and the same holds
of the rest of the forecast, but for the date.

* `pts_perm`, `pts_shift` — the samples of points in another order, and at other times.
* `LeastSquaresForecast` — what is said of a forecast.
* `leastSquaresForecast_iff` — when this holds.
-/

open JsDate LeastSquares

/-! ### Other points -/

/-- The same points, all of them later by `c`. -/
def Shifted (dates : DateParse) (c : ℤ) : List StoragePoint → List StoragePoint → Prop :=
  List.Forall₂ fun p q => dates.parse q.ts = (dates.parse p.ts).map (· + c) ∧
    q.usedBytes = p.usedBytes ∧ q.totalBytes = p.totalBytes

def UsagePoint.shift (c : ℤ) (p : UsagePoint) : UsagePoint := { p with t := p.t + c }

variable {dates : DateParse} {points points' : List StoragePoint}

theorem pts_perm (h : points.Perm points')
    (hdistinct : ((pts dates points).map UsagePoint.t).Nodup) :
    pts dates points' = pts dates points := by
  have hsorted : ∀ l : List UsagePoint,
      (l.mergeSort fun a b => a.t ≤ b.t).Pairwise fun a b => a.t ≤ b.t := by
    intro l
    have hle : (l.mergeSort fun a b => a.t ≤ b.t).Pairwise
        fun a b => decide (a.t ≤ b.t) = true := by
      apply List.pairwise_mergeSort
      · intro a b c hab hbc
        simp only [decide_eq_true_eq] at hab hbc ⊢
        omega
      · intro a b
        simp only [Bool.or_eq_true, decide_eq_true_eq]
        omega
    exact hle.imp of_decide_eq_true
  have hperm : (pts dates points').Perm (pts dates points) :=
    (List.mergeSort_perm _ _).trans ((h.symm.filterMap _).trans (List.mergeSort_perm _ _).symm)
  refine hperm.eq_of_pairwise (fun a b ha hb hab hba => ?_) (hsorted _) (hsorted _)
  exact List.inj_on_of_nodup_map hdistinct (hperm.subset ha) hb (le_antisymm hab hba)

theorem pts_shift {c : ℤ} (h : Shifted dates c points points') :
    pts dates points' = (pts dates points).map (UsagePoint.shift c) := by
  have hused : points'.filterMap (fun p => p.usedBytes.bind fun used =>
      (dates.parse p.ts).map fun t => (⟨t, used, p.totalBytes⟩ : UsagePoint))
      = (points.filterMap fun p => p.usedBytes.bind fun used =>
          (dates.parse p.ts).map fun t => (⟨t, used, p.totalBytes⟩ : UsagePoint)).map
        (UsagePoint.shift c) := by
    induction h with
    | nil => rfl
    | @cons p q points points' hpq _ ih =>
      obtain ⟨hts, hbytes, htotal⟩ := hpq
      rw [List.filterMap_cons, List.filterMap_cons, ih, hts, hbytes, htotal]
      cases p.usedBytes with
      | none => rfl
      | some used =>
        cases dates.parse p.ts with
        | none => rfl
        | some t => rfl
  rw [pts, pts, hused]
  refine (List.map_mergeSort (fun a _ b _ => ?_)).symm
  show decide (a.t ≤ b.t) = decide (a.t + c ≤ b.t + c)
  exact decide_eq_decide.mpr (by omega)

variable {first second : UsagePoint} {rest : List UsagePoint}

theorem dayPoints_shift (c : ℤ) (pts : List UsagePoint) :
    dayPoints (first.shift c) (pts.map (UsagePoint.shift c)) = dayPoints first pts := by
  rw [dayPoints, dayPoints, List.map_map]
  refine List.map_congr_left (fun p _ => ?_)
  show (((p.t + c - (first.t + c) : ℤ) : ℚ) / MS_PER_DAY, (p.used : ℚ)) = _
  rw [add_sub_add_right_eq_sub]

/-- The same forecast, but for the date. -/
structure StorageForecast.Agrees (f g : StorageForecast) : Prop where
  growthBytesPerDay : f.growthBytesPerDay = g.growthBytesPerDay
  daysToFull : f.daysToFull = g.daysToFull
  spanDays : f.spanDays = g.spanDays
  samples : f.samples = g.samples

theorem agrees_of_shift {c : ℤ} {f g : StorageForecast}
    (hf : forecastOf first second rest = some f)
    (hg : forecastOf (first.shift c) (second.shift c) (rest.map (UsagePoint.shift c)) = some g) :
    g.Agrees f := by
  obtain ⟨fgrowth, fdays, -, fspan, fsamples⟩ := forecastOf_eq_some hf
  obtain ⟨ggrowth, gdays, -, gspan, gsamples⟩ := forecastOf_eq_some hg
  have hpoints := @dayPoints_shift first c (first :: second :: rest)
  have hlast : (second.shift c :: rest.map (UsagePoint.shift c)).getLast (List.cons_ne_nil _ _)
      = ((second :: rest).getLast (List.cons_ne_nil _ _)).shift c :=
    List.getLast_map (f := UsagePoint.shift c) (l := second :: rest) (by simp)
  rw [List.map_cons, List.map_cons] at hpoints
  rw [hpoints] at ggrowth gdays
  rw [hlast] at gdays gspan
  refine ⟨ggrowth.trans fgrowth.symm, gdays.trans fdays.symm, ?_, ?_⟩
  · rw [gspan, fspan]
    show (((_ + c - (first.t + c) : ℤ) : ℚ) / MS_PER_DAY) = _
    rw [add_sub_add_right_eq_sub]
  · rw [gsamples, fsamples, List.length_cons, List.length_cons, List.length_map]
    rfl

/-! ### The line of least squares -/

/-- What a forecast is to be, for points in another order and for points at other times as well. -/
structure LeastSquaresForecast (dates : DateParse) (points ordered later : List StoragePoint)
    (first second : UsagePoint) (rest : List UsagePoint) : Prop where
  denom_nonneg : 0 ≤ denom (xs first (first :: second :: rest))
  denom_eq_zero : denom (xs first (first :: second :: rest)) = 0 ↔
    ∀ p ∈ first :: second :: rest, ∀ q ∈ first :: second :: rest, p.t = q.t
  made : ∃ f, forecastStorage dates points = some (some f) ∧
    (denom (xs first (first :: second :: rest)) ≠ 0 →
      ∀ a, (∃ b, Minimises (dayPoints first (first :: second :: rest)) a b) ↔
        a = f.growthBytesPerDay) ∧
    (((first :: second :: rest).map UsagePoint.t).Nodup →
      (∃ g, forecastStorage dates ordered = some (some g) ∧ g.Agrees f) ∧
        ∃ g, forecastStorage dates later = some (some g) ∧ g.Agrees f)

theorem denom_eq_zero_iff (first : UsagePoint) (pts : List UsagePoint) :
    denom (xs first pts) = 0 ↔ ∀ p ∈ pts, ∀ q ∈ pts, p.t = q.t := by
  have hday : MS_PER_DAY ≠ 0 := by decide
  have hsame : ∀ p q : UsagePoint, ((p.t - first.t : ℤ) : ℚ) / MS_PER_DAY
      = ((q.t - first.t : ℤ) : ℚ) / MS_PER_DAY ↔ p.t = q.t := by
    intro p q
    rw [div_left_inj' hday, Int.cast_inj, sub_left_inj]
  rw [denom_eq, spread_eq_zero_iff, dayPoints, List.forall_mem_map]
  refine forall₂_congr (fun p _ => ?_)
  rw [List.forall_mem_map]
  exact forall₂_congr (fun q _ => hsame p q)

theorem forecast_made_iff (hpts : pts dates points = first :: second :: rest) :
    (∃ f, forecastStorage dates points = some (some f)) ↔
      Projectable (first :: second :: rest) := by
  rw [forecastStorage_of_samples hpts, ← forecastOf_isSome_iff (fun p hp =>
    range_of_mem_pts (hpts ▸ hp)), Option.isSome_iff_exists]
  refine exists_congr (fun f => ?_)
  rw [Option.map_eq_some_iff]
  constructor
  · rintro ⟨g, hg, heq⟩
    rw [hg, Option.some.inj heq]
  · intro hf
    exact ⟨f, hf, rfl⟩

/-- The forecast is that of the line of least squares exactly if the dates that are projected are in
    the range of dates. -/
theorem leastSquaresForecast_iff {ordered later : List StoragePoint} {c : ℤ}
    (hpts : pts dates points = first :: second :: rest) (hordered : points.Perm ordered)
    (hlater : Shifted dates c points later) :
    LeastSquaresForecast dates points ordered later first second rest ↔
      Projectable (first :: second :: rest) ∧
        (((first :: second :: rest).map UsagePoint.t).Nodup →
          Projectable ((first :: second :: rest).map (UsagePoint.shift c))) := by
  have hshift : pts dates later
      = first.shift c :: second.shift c :: rest.map (UsagePoint.shift c) := by
    rw [pts_shift hlater, hpts]
    rfl
  constructor
  · intro h
    obtain ⟨f, hf, -, hsame⟩ := h.made
    refine ⟨(forecast_made_iff hpts).mp ⟨f, hf⟩, fun hdistinct => ?_⟩
    obtain ⟨-, g, hg, -⟩ := hsame hdistinct
    exact (forecast_made_iff hshift).mp ⟨g, hg⟩
  · rintro ⟨hmade, hmadeLater⟩
    refine ⟨?_, denom_eq_zero_iff first _, ?_⟩
    · rw [denom_eq]
      exact spread_nonneg _
    · obtain ⟨f, hf⟩ := (forecast_made_iff hpts).mpr hmade
      have hforecast : forecastOf first second rest = some f := by
        rw [forecastStorage_of_samples hpts, Option.map_eq_some_iff] at hf
        obtain ⟨g, hg, heq⟩ := hf
        rw [hg, Option.some.inj heq]
      refine ⟨f, hf, fun hdenom a => ?_, fun hdistinct => ⟨?_, ?_⟩⟩
      · rw [denom_eq] at hdenom
        rw [exists_minimises_iff hdenom, (forecastOf_eq_some hforecast).1]
      · have hsame := pts_perm hordered (by rw [hpts]; exact hdistinct)
        rw [hpts] at hsame
        refine ⟨f, ?_, rfl, rfl, rfl, rfl⟩
        rw [forecastStorage_of_samples hsame, hforecast]
        rfl
      · obtain ⟨g, hg⟩ := (forecast_made_iff hshift).mpr (hmadeLater hdistinct)
        refine ⟨g, hg, ?_⟩
        rw [forecastStorage_of_samples hshift, Option.map_eq_some_iff] at hg
        obtain ⟨g', hg', heq⟩ := hg
        rw [← Option.some.inj heq]
        exact agrees_of_shift hforecast hg'

namespace Sample

/-- A share that is full after a day. -/
def fullShare : List StoragePoint :=
  [⟨"1970-01-01T00:00:00.000Z", some 5, some 9⟩, ⟨"1970-01-02T00:00:00.000Z", some 9, some 9⟩]

/-- The same a day later. -/
def fullLater : List StoragePoint :=
  [⟨"1970-01-02T00:00:00.000Z", some 5, some 9⟩, ⟨"1970-01-03T00:00:00.000Z", some 9, some 9⟩]

def slowLater : List StoragePoint :=
  [⟨"1970-01-02T00:00:00.000Z", some 0, some 1000000000000⟩,
    ⟨"1970-01-03T00:00:00.000Z", some 1000, some 1000000000000⟩]

end Sample

open Sample in
theorem leastSquaresForecast_iff_full :
    LeastSquaresForecast midnights fullShare fullShare.reverse fullLater ⟨0, 5, some 9⟩
      ⟨86400000, 9, some 9⟩ [] := by
  have hpts : pts midnights fullShare = [⟨0, 5, some 9⟩, ⟨86400000, 9, some 9⟩] :=
    List.mergeSort_of_pairwise (by decide)
  have hshift : Shifted midnights 86400000 fullShare fullLater :=
    List.Forall₂.cons (by decide) (List.Forall₂.cons (by decide) List.Forall₂.nil)
  exact (leastSquaresForecast_iff hpts (List.reverse_perm fullShare).symm hshift).mpr
    ⟨by decide +kernel, fun _ => by decide +kernel⟩

open Sample in
/-- Of a share that is not full within the range of dates, there is no forecast. -/
theorem not_leastSquaresForecast_slow :
    ¬ ∀ (dates : DateParse) (points ordered later : List StoragePoint) (c : ℤ)
      (first second : UsagePoint) (rest : List UsagePoint),
      pts dates points = first :: second :: rest → points.Perm ordered →
      Shifted dates c points later →
      LeastSquaresForecast dates points ordered later first second rest := by
  intro h
  have hshift : Shifted midnights 86400000 slowShare slowLater :=
    List.Forall₂.cons (by decide) (List.Forall₂.cons (by decide) List.Forall₂.nil)
  obtain ⟨f, hf, -⟩ := (h midnights slowShare slowShare slowLater 86400000 _ _ _ pts_slowShare
    (List.Perm.refl _) hshift).made
  rw [forecastStorage_slowShare] at hf
  cases hf

end Argus.Core
