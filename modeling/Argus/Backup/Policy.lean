import Argus.Backup.Retention
import Argus.Lib.JsValue

namespace Argus.Backup

/-!
# Backup — the policy in the settings, read twice

The backend (`backup.ts`) and the worker (`apps/workers`) read the same settings: the retention
policy, the list of schedules and the single schedule of older versions.  The backend
normalises every field; the worker spreads what is stored over the defaults and uses it as it
is.

* `Tier` — the numbers of a retention policy; `backupsToPruneNum` — the shared selection, on
  whatever numbers it is given; on natural numbers it is `backupsToPrune`
  (`backupsToPruneNum_natural`).
* `Backend.pruneByPolicy`, `Worker.pruneByPolicy` — what either of them deletes.
* `normalizeSchedule` and `Backend.readSchedules`; `asUsed` — a stored schedule as the worker
  computes with it.
* `RetentionOk`, `ScheduleOk` — what both read alike.
* `same_policy` — under the first the same files are deleted, and the schedules are the same
  if and only if the second holds of every one.
-/

/-! ### Retention policies -/

/-- The numbers of a retention policy. -/
inductive Tier
  | keepAll | keepConfig | keepData | daily | weekly | monthly
deriving DecidableEq, Repr

namespace Tier

/-- The field of the policy. -/
def key : Tier → String
  | .keepAll => "keepAll"
  | .keepConfig => "keepConfig"
  | .keepData => "keepData"
  | .daily => "daily"
  | .weekly => "weekly"
  | .monthly => "monthly"

/-- `DEFAULT_BACKUP_RETENTION`. -/
def default : Tier → ℕ
  | .keepAll => 3
  | .keepConfig => 3
  | .keepData => 3
  | .daily => 10
  | .weekly => 5
  | .monthly => 3

def all : List Tier := [.keepAll, .keepConfig, .keepData, .daily, .weekly, .monthly]

theorem mem_all (t : Tier) : t ∈ all := by
  cases t <;> decide

/-- The numbers that count buckets; the others count backups. -/
def isBucket : Tier → Bool
  | .daily | .weekly | .monthly => true
  | _ => false

/-- `keepLatest`. -/
def latest : BackupScope → Tier
  | .all => .keepAll
  | .config => .keepConfig
  | .data => .keepData

end Tier

/-! ### The selection on any numbers -/

/-- `list.slice(0, Math.max(0, count))`: the end is cut to an integer, and `NaN` is none. -/
def sliceLatest {α : Type*} (count : JsNumber) (list : List α) : List α :=
  match count with
  | .nan => []
  | .inf true => []
  | .inf false => list
  | .fin x => list.take ⌊max 0 x.val⌋.toNat

/-- `count <= i`. -/
def atMost (count : JsNumber) (i : ℕ) : Bool :=
  match count with
  | .nan => false
  | .inf negative => negative
  | .fin x => decide (x.val ≤ i)

/-- The second loop of `protectBuckets`: `if (i++ >= count) break; keep.add(name)`. -/
def keepBuckets (count : JsNumber) : ℕ → List String → List String
  | _, [] => []
  | i, name :: names => if atMost count i then [] else name :: keepBuckets count (i + 1) names

/-- `protectBuckets`. -/
def protectBucketsNum (sorted : List BackupMeta) (count : JsNumber) (keyOf : Stamp → List Char) :
    List String :=
  if atMost count 0 then []
  else keepBuckets count 0 ((newestPerBucket keyOf sorted).map Prod.snd)

/-- The names that are kept for one scope. -/
def keepOfNum (backups : List BackupMeta) (policy : Tier → JsNumber) (scope : BackupScope) :
    List String :=
  let list := sortedDesc backups scope
  (sliceLatest (policy (.latest scope)) list).map BackupMeta.name
    ++ protectBucketsNum list (policy .daily) dayKey
    ++ protectBucketsNum list (policy .weekly) weekKey
    ++ protectBucketsNum list (policy .monthly) monthKey

/-- `backupsToPrune`. -/
def backupsToPruneNum (backups : List BackupMeta) (policy : Tier → JsNumber) : List String :=
  let keep := backupScopes.flatMap (keepOfNum backups policy)
  (backups.filter (fun b => !keep.contains b.name)).map BackupMeta.name

/-- The loop keeps as many as there are places left. -/
theorem keepBuckets_natural {x : Double} {n : ℕ} (hx : x.val = n) (names : List String) (i : ℕ) :
    keepBuckets (.fin x) i names = names.take (n - i) := by
  induction names generalizing i with
  | nil => simp [keepBuckets]
  | cons name names ih =>
    have hle : atMost (.fin x) i = decide (n ≤ i) := by
      simp only [atMost, hx, Nat.cast_le]
    rw [keepBuckets, hle, ih]
    by_cases h : n ≤ i
    · simp [h, Nat.sub_eq_zero_of_le h]
    · have hsucc : n - i = (n - (i + 1)) + 1 := by omega
      simp [h, hsucc]

theorem protectBucketsNum_natural {x : Double} {n : ℕ} (hx : x.val = n) (sorted : List BackupMeta)
    (keyOf : Stamp → List Char) :
    protectBucketsNum sorted (.fin x) keyOf = protectBuckets sorted n keyOf := by
  have hzero : atMost (.fin x) 0 = decide (n ≤ 0) := by
    simp [atMost, hx]
  rw [protectBucketsNum, protectBuckets, hzero, keepBuckets_natural hx, List.map_take]
  simp

theorem sliceLatest_natural {α : Type*} {x : Double} {n : ℕ} (hx : x.val = n) (list : List α) :
    sliceLatest (.fin x) list = list.take n := by
  have hfloor : ⌊max 0 x.val⌋.toNat = n := by
    rw [hx, max_eq_right (Nat.cast_nonneg n), Int.floor_natCast, Int.toNat_natCast]
  rw [sliceLatest, hfloor]

/-- On natural numbers the selection is `backupsToPrune`. -/
theorem backupsToPruneNum_natural {x : Tier → Double} {n : Tier → ℕ}
    (hx : ∀ t, (x t).val = n t) (backups : List BackupMeta) :
    backupsToPruneNum backups (fun t => .fin (x t)) = backupsToPrune backups
      ⟨n .keepAll, n .keepConfig, n .keepData, n .daily, n .weekly, n .monthly⟩ := by
  have hkeep : ∀ scope, keepOfNum backups (fun t => .fin (x t)) scope = keepOf backups
      ⟨n .keepAll, n .keepConfig, n .keepData, n .daily, n .weekly, n .monthly⟩ scope := by
    intro scope
    rw [keepOfNum, keepOf, sliceLatest_natural (hx _), protectBucketsNum_natural (hx _),
      protectBucketsNum_natural (hx _), protectBucketsNum_natural (hx _)]
    cases scope <;> simp [Tier.latest, BackupRetention.keepLatest]
  rw [backupsToPruneNum, backupsToPrune, funext hkeep]

/-! ### Reading the policy -/

/-- `raw?.key`, for what is stored under a key of the settings. -/
def storedField (raw : Option JsValue) (key : String) : Option JsValue :=
  match raw with
  | some (.obj fields) => Fields.get fields key
  | _ => none

/-- The numbers a policy is used with, unless a conversion throws. -/
def numbers (policy : Tier → Option JsNumber) : Option (Tier → JsNumber) :=
  if ∀ t ∈ Tier.all, (policy t).isSome then some (fun t => (policy t).getD .nan) else none

namespace Worker

/-- `readRetention`: what is stored, spread over the defaults. -/
def readRetention (raw : Option JsValue) (t : Tier) : Option JsNumber :=
  match storedField raw t.key with
  | some v => v.toNumber
  | none => some (.ofNat t.default)

/-- `pruneByPolicy`: the names of the deleted files; every number of the policy is converted
    on the way, and `none` is an exception. -/
def pruneByPolicy (raw : Option JsValue) (backups : List BackupMeta) : Option (List String) :=
  (numbers (readRetention raw)).map (backupsToPruneNum backups)

end Worker

namespace Backend

/-- The function `n` of `readRetention`: whole numbers from zero on, and else the default. -/
def wholeOr (d : ℕ) : JsNumber → JsNumber
  | .fin x => if 0 ≤ x.val then .fin x.floor else .ofNat d
  | _ => .ofNat d

theorem wholeOr_of_nonneg (d : ℕ) {x : Double} (h : 0 ≤ x.val) :
    wholeOr d (.fin x) = .fin x.floor := if_pos h

/-- `readRetention`. -/
def readRetention (raw : Option JsValue) (t : Tier) : Option JsNumber :=
  (JsValue.fieldNumber (storedField raw t.key)).map (wholeOr t.default)

/-- `pruneByPolicy`. -/
def pruneByPolicy (raw : Option JsValue) (backups : List BackupMeta) : Option (List String) :=
  (numbers (readRetention raw)).map (backupsToPruneNum backups)

end Backend

/-! ### When both prune alike -/

/-- A number of the policy that both read alike: from zero on, and whole where it counts
    buckets. -/
def CountOk (t : Tier) : Option JsValue → Prop
  | none => True
  | some v => ∃ x, v.toNumber = some (.fin x) ∧ 0 ≤ x.val ∧
      (t.isBucket = true → (⌊x.val⌋ : ℚ) = x.val)

/-- Every number of the policy is read alike, or the conversion of one throws, for both. -/
def RetentionOk (raw : Option JsValue) : Prop :=
  (∀ t : Tier, CountOk t (storedField raw t.key)) ∨
    ∃ (t : Tier) (v : JsValue), storedField raw t.key = some v ∧ v.toNumber = none

/-- The selection uses a number of backups by its slice only. -/
theorem backupsToPruneNum_congr {p q : Tier → JsNumber} (backups : List BackupMeta)
    (hlatest : ∀ t, t.isBucket = false → ∀ list : List BackupMeta,
      sliceLatest (p t) list = sliceLatest (q t) list)
    (hbucket : ∀ t, t.isBucket = true → p t = q t) :
    backupsToPruneNum backups p = backupsToPruneNum backups q := by
  have hkeep : keepOfNum backups p = keepOfNum backups q := by
    funext scope
    have hscope : (Tier.latest scope).isBucket = false := by cases scope <;> rfl
    rw [keepOfNum, keepOfNum, hlatest _ hscope, hbucket .daily rfl, hbucket .weekly rfl,
      hbucket .monthly rfl]
  rw [backupsToPruneNum, backupsToPruneNum, hkeep]

theorem sliceLatest_floor {α : Type*} {x : Double} (hx : 0 ≤ x.val) (list : List α) :
    sliceLatest (.fin x.floor) list = sliceLatest (.fin x) list := by
  have hfloor : (0 : ℚ) ≤ ⌊x.val⌋ := by exact_mod_cast Int.floor_nonneg.mpr hx
  simp only [sliceLatest, Double.floor, max_eq_right hx, max_eq_right hfloor, Int.floor_intCast]

/-- A stored number is converted by both. -/
theorem readRetention_isSome (raw : Option JsValue) (t : Tier) :
    (Worker.readRetention raw t).isSome = (Backend.readRetention raw t).isSome := by
  unfold Worker.readRetention Backend.readRetention
  rw [Option.isSome_map]
  cases storedField raw t.key <;> rfl

theorem Double.floor_eq_self {x : Double} (h : (⌊x.val⌋ : ℚ) = x.val) : x.floor = x :=
  Double.ext h

/-- Numbers that are read alike. -/
theorem readRetention_of_countOk {raw : Option JsValue} {t : Tier}
    (h : CountOk t (storedField raw t.key)) :
    ∃ x y, Worker.readRetention raw t = some x ∧ Backend.readRetention raw t = some y ∧
      (t.isBucket = true → x = y) ∧
      ∀ list : List BackupMeta, sliceLatest x list = sliceLatest y list := by
  unfold Worker.readRetention Backend.readRetention
  cases hstored : storedField raw t.key with
  | none => exact ⟨.ofNat t.default, .ofNat t.default, rfl, rfl, fun _ => rfl, fun _ => rfl⟩
  | some v =>
    rw [hstored] at h
    obtain ⟨x, hx, hnonneg, hwhole⟩ := h
    refine ⟨.fin x, .fin x.floor, hx, ?_, fun hbucket => ?_, fun list => ?_⟩
    · rw [JsValue.fieldNumber_some, hx, Option.map_some, Backend.wholeOr_of_nonneg _ hnonneg]
    · rw [Double.floor_eq_self (hwhole hbucket)]
    · rw [sliceLatest_floor hnonneg list]

/-- **Same deletions.** A policy that is read alike deletes the same files, whatever they are. -/
theorem pruneByPolicy_eq {raw : Option JsValue} (h : RetentionOk raw)
    (backups : List BackupMeta) :
    Worker.pruneByPolicy raw backups = Backend.pruneByPolicy raw backups := by
  unfold Worker.pruneByPolicy Backend.pruneByPolicy numbers
  have hsome : (∀ t ∈ Tier.all, (Worker.readRetention raw t).isSome) ↔
      ∀ t ∈ Tier.all, (Backend.readRetention raw t).isSome := by
    simp only [readRetention_isSome]
  rcases h with hok | ⟨t, v, hstored, hthrows⟩
  · have hworker : ∀ t ∈ Tier.all, (Worker.readRetention raw t).isSome := by
      intro t _
      obtain ⟨x, y, hx, -⟩ := readRetention_of_countOk (hok t)
      rw [hx]
      rfl
    rw [if_pos hworker, if_pos (hsome.mp hworker), Option.map_some, Option.map_some]
    refine congrArg some (backupsToPruneNum_congr backups (fun t _ list => ?_) (fun t ht => ?_))
    · obtain ⟨x, y, hx, hy, -, hslice⟩ := readRetention_of_countOk (hok t)
      rw [hx, hy]
      exact hslice list
    · obtain ⟨x, y, hx, hy, hsame, -⟩ := readRetention_of_countOk (hok t)
      rw [hx, hy, hsame ht]
  · have hworker : ¬ ∀ t ∈ Tier.all, (Worker.readRetention raw t).isSome := by
      intro hall
      have hthis := hall t (Tier.mem_all t)
      rw [Worker.readRetention, hstored] at hthis
      simp only [hthrows] at hthis
      exact absurd hthis Bool.false_ne_true
    rw [if_neg hworker, if_neg (fun h => hworker (hsome.mpr h))]

/-! ### Schedules -/

/-- `BACKUP_FREQUENCIES`. -/
inductive BackupFrequency
  | interval | daily | weekly | monthly
deriving DecidableEq, Repr

/-- A text, of a field that may be missing. -/
def textField (raw : JsValue) (key : String) : Option String :=
  match storedField (some raw) key with
  | some (.str s) => some s
  | _ => none

/-- The frequency of a schedule: the worker takes every other value for a daily one too. -/
def frequencyOf (raw : JsValue) : BackupFrequency :=
  match textField raw "frequency" with
  | some "interval" => .interval
  | some "weekly" => .weekly
  | some "monthly" => .monthly
  | _ => .daily

/-- `/^([01]\d|2[0-3]):[0-5]\d$/`. -/
def isTime (s : String) : Bool :=
  match s.toList with
  | [a, b, c, d, e] =>
    ((a == '0' || a == '1') && b.isDigit || a == '2' && ('0' ≤ b && b ≤ '3')) && c == ':'
      && ('0' ≤ d && d ≤ '5') && e.isDigit
  | _ => false

/-- `v ?? d`. -/
def orDefault (v : Option JsValue) (d : JsValue) : JsValue :=
  match v with
  | none | some .null => d
  | some v => v

def int (n : ℤ) (h : |n| ≤ 2 ^ 53) : JsNumber := .fin (.ofInt n h)

/-- A schedule as `normalizeSchedule` gives it. -/
structure BackupSchedule where
  id : String
  name : String
  enabled : Bool
  scope : BackupScope
  frequency : BackupFrequency
  intervalHours : JsNumber
  time : String
  weekday : JsNumber
  dayOfMonth : JsNumber

namespace Backend

/-- A text that is not empty, or the replacement. -/
def nonEmptyOr (d : String) : Option String → String
  | some s => if s = "" then d else s
  | none => d

/-- The scope of a schedule; everything else is the whole. -/
def scopeOf (raw : JsValue) : BackupScope :=
  match textField raw "scope" with
  | some "config" => .config
  | some "data" => .data
  | _ => .all

def timeOf (raw : JsValue) : String :=
  match textField raw "time" with
  | some t => if isTime t then t else "02:00"
  | none => "02:00"

/-- `Number(raw[key] ?? d)`. -/
def numberOr (raw : JsValue) (key : String) (d : Double) : Option JsNumber :=
  (orDefault (storedField (some raw) key) (.num d)).toNumber

/-- The normalised schedule, once its numbers are converted. -/
def normalized (now : String) (raw : JsValue) (idx : ℕ) (hours weekday day : JsNumber) :
    BackupSchedule where
  id := nonEmptyOr ("sched-" ++ toString idx ++ "-" ++ now) (textField raw "id")
  name := nonEmptyOr "Backup schedule" (textField raw "name")
  enabled := JsValue.truthy (storedField (some raw) "enabled")
  scope := scopeOf raw
  frequency := frequencyOf raw
  intervalHours := .max (int 1 (by decide)) hours
  time := timeOf raw
  weekday := .min (int 6 (by decide)) (.max (int 0 (by decide)) weekday)
  dayOfMonth := .min (int 31 (by decide)) (.max (int 1 (by decide)) day)

/-- `normalizeSchedule`; `null` has no fields to read, and a conversion may throw. -/
def normalizeSchedule (now : String) (raw : JsValue) (idx : ℕ) : Option BackupSchedule :=
  if raw.isNull then none
  else (numberOr raw "intervalHours" (.ofInt 24 (by decide))).bind fun hours =>
    (numberOr raw "weekday" (.ofInt 0 (by decide))).bind fun weekday =>
    (numberOr raw "dayOfMonth" (.ofInt 1 (by decide))).map fun day =>
      normalized now raw idx hours weekday day

/-- `raw.map((r, i) => normalizeSchedule(r, i))`. -/
def normalizeAll (now : String) : ℕ → List JsValue → Option (List BackupSchedule)
  | _, [] => some []
  | i, raw :: rest => (normalizeSchedule now raw i).bind fun s =>
      (normalizeAll now (i + 1) rest).map (s :: ·)

/-- `{ ...legacy, name: "Migrated schedule" }`; the elements of a list have no name the schedule
    reads. -/
def migrated : JsValue → JsValue
  | .obj fields => .obj (Fields.set fields "name" (.str "Migrated schedule"))
  | _ => .obj [("name", .str "Migrated schedule")]

/-- `readSchedules`, for the values of the two keys. -/
def readSchedules (now : String) (schedules legacy : Option JsValue) :
    Option (List BackupSchedule) :=
  match schedules with
  | some (.arr xs) => normalizeAll now 0 xs
  | _ => match legacy with
    | some (.obj fields) => normalizeAll now 0 [migrated (.obj fields)]
    | some (.arr xs) => normalizeAll now 0 [migrated (.arr xs)]
    | _ => some []

end Backend

/-- `readSchedules` of the worker. -/
def Worker.readSchedules (schedules legacy : Option JsValue) : List JsValue :=
  match schedules with
  | some (.arr xs) => xs
  | _ => match legacy with
    | some (.obj fields) => [.obj fields]
    | some (.arr xs) => [.arr xs]
    | _ => []

/-! ### Effective schedules -/

/-- What a schedule is used with.  Scope and time are texts and the weekday a number, compared
    without a conversion: any other value is none of them.  The two other numbers are
    converted. -/
structure Effective where
  enabled : Bool
  scope : Option String
  frequency : BackupFrequency
  intervalHours : JsNumber
  time : Option String
  weekday : Option JsNumber
  dayOfMonth : JsNumber

/-- The schedule that the backend shows. -/
def BackupSchedule.effective (s : BackupSchedule) : Effective where
  enabled := s.enabled
  scope := some s.scope.name
  frequency := s.frequency
  intervalHours := s.intervalHours
  time := some s.time
  weekday := some s.weekday
  dayOfMonth := s.dayOfMonth

/-- A number that is not converted. -/
def strictNumber : Option JsValue → Option JsNumber
  | some (.num x) => some (.fin x)
  | _ => none

namespace Worker

/-- The schedule once its numbers are converted. -/
def used (raw : JsValue) (hours day : JsNumber) : Effective where
  enabled := JsValue.truthy (storedField (some raw) "enabled")
  scope := textField raw "scope"
  frequency := frequencyOf raw
  intervalHours := hours
  time := textField raw "time"
  weekday := strictNumber (storedField (some raw) "weekday")
  dayOfMonth := day

/-- The schedule as `tick` and `isDue` compute with it. -/
def asUsed (raw : JsValue) : Option Effective :=
  if raw.isNull then none
  else (JsValue.fieldNumber (storedField (some raw) "intervalHours")).bind fun hours =>
    (JsValue.fieldNumber (storedField (some raw) "dayOfMonth")).map fun day => used raw hours day

end Worker

/-- The worker runs the schedules that the backend shows. -/
def SameSchedules (now : String) (schedules legacy : Option JsValue) : Prop :=
  ∃ shown, Backend.readSchedules now schedules legacy = some shown ∧
    (Worker.readSchedules schedules legacy).mapM Worker.asUsed
      = some (shown.map BackupSchedule.effective)

/-! ### When the schedules are the same -/

/-- A stored schedule that the backend leaves as it is. -/
structure ScheduleOk (raw : JsValue) : Prop where
  present : raw ≠ .null
  scope : ∃ scope : BackupScope, textField raw "scope" = some scope.name
  time : ∃ t, textField raw "time" = some t ∧ isTime t = true
  weekday : ∃ x : Double, storedField (some raw) "weekday" = some (.num x) ∧
    0 ≤ x.val ∧ x.val ≤ 6
  intervalHours : ∃ w x, storedField (some raw) "intervalHours" = some w ∧ w ≠ .null ∧
    w.toNumber = some x ∧ (x = .nan ∨ JsNumber.le (int 1 (by decide)) x = true)
  dayOfMonth : ∃ w x, storedField (some raw) "dayOfMonth" = some w ∧ w ≠ .null ∧
    w.toNumber = some x ∧ (x = .nan ∨ JsNumber.le (int 1 (by decide)) x = true ∧
      JsNumber.le x (int 31 (by decide)) = true)

theorem scope_agrees (raw : JsValue) :
    textField raw "scope" = some (Backend.scopeOf raw).name ↔
      ∃ scope : BackupScope, textField raw "scope" = some scope.name := by
  refine ⟨fun h => ⟨_, h⟩, ?_⟩
  rintro ⟨scope, h⟩
  rw [Backend.scopeOf, h]
  cases scope <;> rfl

theorem time_agrees (raw : JsValue) :
    textField raw "time" = some (Backend.timeOf raw) ↔
      ∃ t, textField raw "time" = some t ∧ isTime t = true := by
  unfold Backend.timeOf
  cases htime : textField raw "time" with
  | none => simp
  | some t =>
    by_cases ht : isTime t = true
    · simp [ht]
    · have hdefault : isTime "02:00" = true := by decide
      simp only [ht, Option.some.injEq, exists_eq_left', iff_false, if_false, Bool.false_eq_true]
      rintro rfl
      exact ht hdefault

/-- A converted number: it is the same for both when it is there and the cut leaves it. -/
theorem number_agrees (cut : JsNumber → JsNumber) {d e : Double} (hcut : cut (.fin d) = .fin e)
    (hzero : e.val ≠ 0) {v : Option JsValue} {x : JsNumber}
    (hx : (orDefault v (.num d)).toNumber = some x) :
    JsValue.fieldNumber v = some (cut x) ↔
      ∃ w y, v = some w ∧ w ≠ .null ∧ w.toNumber = some y ∧ cut y = y := by
  have hself : (JsValue.num d).toNumber = some (.fin d) := rfl
  rcases v with _ | w
  · obtain rfl : JsNumber.fin d = x := Option.some.inj (hself.symm.trans hx)
    refine iff_of_false (fun h => ?_) ?_
    · rw [hcut] at h
      exact JsNumber.noConfusion (Option.some.inj h)
    rintro ⟨w, y, hw, -⟩
    cases hw
  · by_cases hnull : w = .null
    · subst hnull
      obtain rfl : JsNumber.fin d = x := Option.some.inj (hself.symm.trans hx)
      refine iff_of_false (fun h => ?_) ?_
      · have hnull : JsNumber.ofRat 0 = .fin e := Option.some.inj (h.trans (congrArg some hcut))
        rw [JsNumber.ofRat_zero] at hnull
        rw [← JsNumber.fin.inj hnull] at hzero
        exact hzero (by simp [Double.ofInt])
      rintro ⟨w, y, hw, hne, -⟩
      exact hne (Option.some.inj hw).symm
    · have horiginal : orDefault (some w) (.num d) = w := by
        cases w <;> first | rfl | exact absurd rfl hnull
      rw [horiginal] at hx
      rw [JsValue.fieldNumber_some, hx]
      constructor
      · intro h
        exact ⟨w, x, rfl, hnull, hx, (Option.some.inj h).symm⟩
      · rintro ⟨w', y, hw', -, hy, hcut⟩
        obtain rfl := Option.some.inj hw'
        obtain rfl := Option.some.inj (hx.symm.trans hy)
        rw [hcut]

/-- The weekday is compared without a conversion. -/
theorem weekday_agrees {v : Option JsValue} {x : JsNumber}
    (hx : (orDefault v (.num (.ofInt 0 (by decide)))).toNumber = some x) :
    strictNumber v = some (JsNumber.min (int 6 (by decide)) (.max (int 0 (by decide)) x)) ↔
      ∃ y : Double, v = some (.num y) ∧ 0 ≤ y.val ∧ y.val ≤ 6 := by
  by_cases hnum : ∃ y, v = some (.num y)
  · obtain ⟨y, rfl⟩ := hnum
    obtain rfl : JsNumber.fin y = x := Option.some.inj hx
    have hclamp := JsNumber.clamp_eq_self_iff
      (a := .ofInt 0 (by decide)) (b := .ofInt 6 (by decide))
      (by simp [Double.ofInt]) (y := .fin y)
    rw [strictNumber, Option.some.injEq, eq_comm, int, int, hclamp]
    simp [JsNumber.le, Double.ofInt]
  · refine iff_of_false (fun h => ?_) ?_
    · unfold strictNumber at h
      split at h
      · exact hnum ⟨_, rfl⟩
      · cases h
    · rintro ⟨y, hy, -⟩
      exact hnum ⟨y, hy⟩

/-- The hours of a schedule. -/
theorem intervalHours_agrees {v : Option JsValue} {x : JsNumber}
    (hx : (orDefault v (.num (.ofInt 24 (by decide)))).toNumber = some x) :
    JsValue.fieldNumber v = some (JsNumber.max (int 1 (by decide)) x) ↔
      ∃ w y, v = some w ∧ w ≠ .null ∧ w.toNumber = some y ∧
        (y = .nan ∨ JsNumber.le (int 1 (by decide)) y = true) := by
  have hcut : JsNumber.max (int 1 (by decide)) (.fin (.ofInt 24 (by decide)))
      = .fin (.ofInt 24 (by decide)) := by
    rw [int, JsNumber.max_fin, if_pos (by norm_num [Double.ofInt])]
  rw [number_agrees (JsNumber.max (int 1 (by decide))) hcut (by simp [Double.ofInt]) hx]
  simp only [int, JsNumber.max_eq_right_iff]

/-- The day of the month. -/
theorem dayOfMonth_agrees {v : Option JsValue} {x : JsNumber}
    (hx : (orDefault v (.num (.ofInt 1 (by decide)))).toNumber = some x) :
    JsValue.fieldNumber v
        = some (JsNumber.min (int 31 (by decide)) (.max (int 1 (by decide)) x)) ↔
      ∃ w y, v = some w ∧ w ≠ .null ∧ w.toNumber = some y ∧
        (y = .nan ∨ JsNumber.le (int 1 (by decide)) y = true ∧
          JsNumber.le y (int 31 (by decide)) = true) := by
  have hbounds : (Double.ofInt 1 (by decide)).val ≤ (Double.ofInt 31 (by decide)).val := by
    norm_num [Double.ofInt]
  have hcut : JsNumber.min (int 31 (by decide)) (.max (int 1 (by decide))
      (.fin (.ofInt 1 (by decide)))) = .fin (.ofInt 1 (by decide)) := by
    rw [int, int, JsNumber.clamp_eq_self_iff hbounds]
    exact .inr ⟨JsNumber.le_fin le_rfl, JsNumber.le_fin hbounds⟩
  rw [number_agrees (fun x => JsNumber.min (int 31 (by decide)) (.max (int 1 (by decide)) x)) hcut
    (by simp [Double.ofInt]) hx]
  simp only [int, JsNumber.clamp_eq_self_iff hbounds]

/-- What is stored and is not `null` is converted as it is. -/
theorem numberOr_of_stored {raw : JsValue} {key : String} (d : Double)
    {P : JsNumber → Prop} (h : ∃ w x, storedField (some raw) key = some w ∧ w ≠ .null ∧
      w.toNumber = some x ∧ P x) : ∃ x, Backend.numberOr raw key d = some x := by
  obtain ⟨w, x, hw, hnull, hx, -⟩ := h
  refine ⟨x, ?_⟩
  rw [Backend.numberOr, hw]
  cases w <;> first | exact hx | exact absurd rfl hnull

/-- **One schedule.** The worker uses it as the backend shows it, if and only if it is stored in
    the form that the backend leaves as it is. -/
theorem schedule_agrees (now : String) (raw : JsValue) (i : ℕ) :
    (∃ s, Backend.normalizeSchedule now raw i = some s ∧
      Worker.asUsed raw = some s.effective) ↔ ScheduleOk raw := by
  by_cases hnull : raw.isNull = true
  · refine iff_of_false ?_ (fun h => h.present (JsValue.isNull_eq_true.mp hnull))
    rintro ⟨s, hs, -⟩
    rw [Backend.normalizeSchedule, if_pos hnull] at hs
    cases hs
  have hpresent : raw ≠ .null := fun h => hnull (JsValue.isNull_eq_true.mpr h)
  rw [Backend.normalizeSchedule, Worker.asUsed, if_neg hnull, if_neg hnull]
  constructor
  · rintro ⟨s, hs, hused⟩
    obtain ⟨hours, hhours, hs⟩ := Option.bind_eq_some_iff.mp hs
    obtain ⟨weekday, hweekday, hs⟩ := Option.bind_eq_some_iff.mp hs
    obtain ⟨day, hday, rfl⟩ := Option.map_eq_some_iff.mp hs
    obtain ⟨hours', hhours', hused⟩ := Option.bind_eq_some_iff.mp hused
    obtain ⟨day', hday', hused⟩ := Option.map_eq_some_iff.mp hused
    rw [Worker.used, BackupSchedule.effective, Backend.normalized, Effective.mk.injEq] at hused
    obtain ⟨-, hscope, -, rfl, htime, hwd, rfl⟩ := hused
    exact ⟨hpresent, (scope_agrees raw).mp hscope, (time_agrees raw).mp htime,
      (weekday_agrees hweekday).mp hwd, (intervalHours_agrees hhours).mp hhours',
      (dayOfMonth_agrees hday).mp hday'⟩
  · intro h
    obtain ⟨y, hy, -⟩ := h.weekday
    have hweekday : Backend.numberOr raw "weekday" (.ofInt 0 (by decide)) = some (.fin y) := by
      rw [Backend.numberOr, hy]
      rfl
    obtain ⟨hours, hhours⟩ := numberOr_of_stored (.ofInt 24 (by decide)) h.intervalHours
    obtain ⟨day, hday⟩ := numberOr_of_stored (.ofInt 1 (by decide)) h.dayOfMonth
    rw [(intervalHours_agrees hhours).mpr h.intervalHours, (dayOfMonth_agrees hday).mpr h.dayOfMonth,
      hhours, hweekday, hday]
    refine ⟨Backend.normalized now raw i hours (.fin y) day, rfl, congrArg some ?_⟩
    refine Effective.mk.injEq .. |>.mpr ?_
    exact ⟨rfl, (scope_agrees raw).mpr h.scope, rfl, rfl, (time_agrees raw).mpr h.time,
      (weekday_agrees hweekday).mpr h.weekday, rfl⟩

/-- All the schedules, one after another. -/
theorem schedules_agree (now : String) (list : List JsValue) (i : ℕ) :
    (∃ shown, Backend.normalizeAll now i list = some shown ∧
      list.mapM Worker.asUsed = some (shown.map BackupSchedule.effective)) ↔
      ∀ raw ∈ list, ScheduleOk raw := by
  induction list generalizing i with
  | nil => simp [Backend.normalizeAll]
  | cons raw rest ih =>
    rw [List.forall_mem_cons, ← schedule_agrees now raw i, ← ih (i + 1), Backend.normalizeAll,
      List.mapM_cons]
    constructor
    · rintro ⟨shown, hshown, hused⟩
      obtain ⟨s, hs, hshown⟩ := Option.bind_eq_some_iff.mp hshown
      obtain ⟨shown, hrest, rfl⟩ := Option.map_eq_some_iff.mp hshown
      obtain ⟨u, hu, hused⟩ := Option.bind_eq_some_iff.mp hused
      obtain ⟨us, hus, hused⟩ := Option.bind_eq_some_iff.mp hused
      obtain ⟨rfl, rfl⟩ := List.cons_eq_cons.mp (Option.some.inj hused)
      exact ⟨⟨s, hs, hu⟩, shown, hrest, hus⟩
    · rintro ⟨⟨s, hs, hu⟩, shown, hrest, hus⟩
      refine ⟨s :: shown, ?_, ?_⟩
      · rw [hs, Option.bind_some, hrest, Option.map_some]
      · rw [hu, hus]
        rfl

/-! ### The schedule of older versions -/

/-- The name that the backend gives it is not one of the fields that are used. -/
theorem storedField_migrated (raw : JsValue) {k : String} (h : k ≠ "name") :
    storedField (some (Backend.migrated raw)) k = storedField (some raw) k := by
  cases raw with
  | obj fields =>
    rw [Backend.migrated, storedField, storedField, Fields.get_set, if_neg h]
  | _ => exact (Fields.get_cons ..).trans (if_neg h)

theorem textField_migrated (raw : JsValue) {k : String} (h : k ≠ "name") :
    textField (Backend.migrated raw) k = textField raw k := by
  rw [textField, textField, storedField_migrated raw h]

theorem migrated_ne_null (raw : JsValue) : Backend.migrated raw ≠ .null := by
  cases raw <;> exact JsValue.noConfusion

theorem scheduleOk_migrated {raw : JsValue} (h : raw ≠ .null) :
    ScheduleOk (Backend.migrated raw) ↔ ScheduleOk raw := by
  have hscope := textField_migrated raw (k := "scope") (by decide)
  have htime := textField_migrated raw (k := "time") (by decide)
  have hweekday := storedField_migrated raw (k := "weekday") (by decide)
  have hhours := storedField_migrated raw (k := "intervalHours") (by decide)
  have hday := storedField_migrated raw (k := "dayOfMonth") (by decide)
  constructor
  · rintro ⟨-, h1, h2, h3, h4, h5⟩
    rw [hscope] at h1
    rw [htime] at h2
    rw [hweekday] at h3
    rw [hhours] at h4
    rw [hday] at h5
    exact ⟨h, h1, h2, h3, h4, h5⟩
  · rintro ⟨-, h1, h2, h3, h4, h5⟩
    rw [← hscope] at h1
    rw [← htime] at h2
    rw [← hweekday] at h3
    rw [← hhours] at h4
    rw [← hday] at h5
    exact ⟨migrated_ne_null raw, h1, h2, h3, h4, h5⟩

/-- The worker uses it alike with the name and without. -/
theorem asUsed_migrated {raw : JsValue} (h : raw ≠ .null) :
    Worker.asUsed (Backend.migrated raw) = Worker.asUsed raw := by
  have hnull : raw.isNull = false := by
    rw [← Bool.not_eq_true, JsValue.isNull_eq_true]
    exact h
  have hnull' : (Backend.migrated raw).isNull = false := by
    rw [← Bool.not_eq_true, JsValue.isNull_eq_true]
    exact migrated_ne_null raw
  unfold Worker.asUsed Worker.used frequencyOf
  rw [hnull, hnull', storedField_migrated raw (k := "intervalHours") (by decide),
    storedField_migrated raw (k := "dayOfMonth") (by decide),
    storedField_migrated raw (k := "enabled") (by decide),
    storedField_migrated raw (k := "weekday") (by decide),
    textField_migrated raw (k := "scope") (by decide),
    textField_migrated raw (k := "time") (by decide),
    textField_migrated raw (k := "frequency") (by decide)]

theorem migrated_agrees (now : String) {raw : JsValue} (h : raw ≠ .null) :
    (∃ shown, Backend.normalizeAll now 0 [Backend.migrated raw] = some shown ∧
      [raw].mapM Worker.asUsed = some (shown.map BackupSchedule.effective)) ↔
      ∀ r ∈ [raw], ScheduleOk r := by
  have hmap : [raw].mapM Worker.asUsed = [Backend.migrated raw].mapM Worker.asUsed := by
    simp only [List.mapM_cons, List.mapM_nil, asUsed_migrated h]
  rw [hmap, schedules_agree, List.forall_mem_singleton, List.forall_mem_singleton,
    scheduleOk_migrated h]

/-- **Same schedules.** The worker runs the schedules that the backend shows, if and only if
    every stored one is in the form that the backend leaves as it is. -/
theorem sameSchedules_iff (now : String) (schedules legacy : Option JsValue) :
    SameSchedules now schedules legacy ↔
      ∀ raw ∈ Worker.readSchedules schedules legacy, ScheduleOk raw := by
  unfold SameSchedules Worker.readSchedules Backend.readSchedules
  split
  · exact schedules_agree now _ 0
  · split
    · exact migrated_agrees now JsValue.noConfusion
    · exact migrated_agrees now JsValue.noConfusion
    · simp

/-! ### The policy as a whole -/

/-- **Same policy.** The worker deletes the files that the backend deletes, whatever files there
    are, when every number of the stored retention policy is read alike; and it runs the
    schedules that the backend shows, if and only if every stored schedule is in the form that
    the backend leaves as it is. -/
theorem same_policy (now : String) (retention schedules legacy : Option JsValue) :
    (RetentionOk retention → ∀ backups : List BackupMeta,
      Worker.pruneByPolicy retention backups = Backend.pruneByPolicy retention backups) ∧
    (SameSchedules now schedules legacy ↔
      ∀ raw ∈ Worker.readSchedules schedules legacy, ScheduleOk raw) :=
  ⟨fun h backups => pruneByPolicy_eq h backups, sameSchedules_iff now schedules legacy⟩

namespace Sample

/-- `{ keepAll: 2 }`. -/
def keepTwo : JsValue := .obj [("keepAll", .num (.ofInt 2 (by decide)))]

/-- `{ keepAll: -1, daily: 0 }`, as the settings route stores it. -/
def keepMinusOne : JsValue := .obj
  [("keepAll", .num (.ofInt (-1) (by decide))), ("daily", .num (.ofInt 0 (by decide)))]

/-- A schedule as the backend writes it. -/
def nightly : JsValue := .obj
  [("id", .str "s1"), ("name", .str "Nightly"), ("enabled", .bool true), ("scope", .str "all"),
    ("frequency", .str "daily"), ("intervalHours", .num (.ofInt 24 (by decide))),
    ("time", .str "02:00"), ("weekday", .num (.ofInt 0 (by decide))),
    ("dayOfMonth", .num (.ofInt 1 (by decide)))]

/-- The same without a time, and with the weekday `9`. -/
def unreadable : JsValue := .obj
  [("id", .str "s1"), ("name", .str "Nightly"), ("enabled", .bool true), ("scope", .str "all"),
    ("frequency", .str "weekly"), ("intervalHours", .num (.ofInt 24 (by decide))),
    ("weekday", .num (.ofInt 9 (by decide))), ("dayOfMonth", .num (.ofInt 1 (by decide)))]

end Sample

open Sample

theorem Sample.nightly_ok : ScheduleOk nightly where
  present := JsValue.noConfusion
  scope := ⟨.all, by decide⟩
  time := ⟨"02:00", by decide, by decide⟩
  weekday := ⟨.ofInt 0 (by decide), rfl, by simp [Double.ofInt], by simp [Double.ofInt]⟩
  intervalHours := ⟨_, .fin (.ofInt 24 (by decide)), rfl, JsValue.noConfusion, rfl,
    .inr (JsNumber.le_fin (by norm_num [Double.ofInt]))⟩
  dayOfMonth := ⟨_, .fin (.ofInt 1 (by decide)), rfl, JsValue.noConfusion, rfl,
    .inr ⟨JsNumber.le_fin le_rfl, JsNumber.le_fin (by norm_num [Double.ofInt])⟩⟩

theorem Sample.keepTwo_ok : RetentionOk (some keepTwo) := by
  refine .inl fun t => ?_
  cases t with
  | keepAll => exact ⟨.ofInt 2 (by decide), rfl, by norm_num [Double.ofInt], nofun⟩
  | _ => trivial

/-- A retention policy and a schedule as the backend writes them. -/
theorem same_policy_nightly :
    Worker.pruneByPolicy (some keepTwo) [firstOf2026, secondOf2026]
      = Backend.pruneByPolicy (some keepTwo) [firstOf2026, secondOf2026] ∧
    SameSchedules "2026" (some (.arr [nightly])) none := by
  obtain ⟨hprune, hschedules⟩ := same_policy "2026" (some keepTwo) (some (.arr [nightly])) none
  refine ⟨hprune keepTwo_ok _, hschedules.mpr fun raw hraw => ?_⟩
  rw [List.mem_singleton.mp hraw]
  exact nightly_ok

/-- `keepAll: -1` is no backup for the worker and the default for the backend, and a schedule
    without a time is shown at 02:00 while the worker fails on it. -/
theorem policies_differ :
    Worker.pruneByPolicy (some keepMinusOne) [firstOf2026, secondOf2026]
        ≠ Backend.pruneByPolicy (some keepMinusOne) [firstOf2026, secondOf2026] ∧
      ¬ SameSchedules "2026" (some (.arr [unreadable])) none := by
  refine ⟨by decide +kernel, ?_⟩
  rw [sameSchedules_iff]
  intro h
  obtain ⟨t, ht, -⟩ := (h unreadable List.mem_cons_self).time
  cases ht

end Argus.Backup
