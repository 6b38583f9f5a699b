import Argus.Lib.JsValue
import Argus.Lib.Quotients
import Mathlib.Data.List.Sort

namespace Argus.Reports

/-!
# The capacity report

`buildStorageData` of `reports.ts`: for every storage monitor in scope its last reading and a
summary of each day.

* `MonitorRow`, `StorageMetric` — rows of the tables the report reads.
* `storageMonitor` — what the report says of one monitor, from its readings alone.
* `buildStorageData` — the report.
-/

/-! ### Tables -/

/-- A row of `monitors`. -/
structure MonitorRow where
  id : String
  agentId : String
  type : String
  name : String
deriving DecidableEq, Repr

/-- A row of `storage_metrics`; times are in microseconds, as the database keeps them. -/
structure StorageMetric where
  storageId : String
  usedPct : Option JsNumber
  usedBytes : Option ℤ
  totalBytes : Option ℤ
  ts : ℤ

inductive ScopeKind
  | all | agent | monitor
deriving DecidableEq, Repr

structure ReportScope where
  kind : ScopeKind
  refId : Option String
deriving DecidableEq, Repr

/-- `Window`, its two times. -/
structure TimeWindow where
  fromTime : ℤ
  untilTime : ℤ

/-- `resolveStorageMonitors`; an empty `refId` counts as none. -/
def resolveStorageMonitors (monitors : List MonitorRow) (scope : ReportScope) : List MonitorRow :=
  let rows : List MonitorRow := match scope.kind, scope.refId.filter (fun r => r != "") with
    | .monitor, some refId => monitors.filter (fun m => m.id == refId)
    | .agent, some refId => monitors.filter (fun m => m.agentId == refId)
    | _, _ => monitors
  rows.filter (fun m => m.type == "storage")

/-! ### Days -/

structure StorageCurrent where
  usedPct : Option JsNumber
  usedBytes : Option ℤ
  totalBytes : Option ℤ

structure StorageDay where
  date : String
  usedPct : Option JsNumber
  usedBytes : Option ℤ
  totalBytes : Option ℤ

structure StorageMonitor where
  name : String
  current : StorageCurrent
  days : List StorageDay

/-- The sum of a day so far, and the last bytes. -/
structure DaySum where
  sum : JsNumber
  n : ℕ
  usedBytes : Option ℤ
  totalBytes : Option ℤ

def DaySum.empty : DaySum := ⟨.ofNat 0, 0, none, none⟩

def DaySum.add (a : DaySum) (p : StorageMetric) : DaySum where
  sum := match p.usedPct with
    | some pct => a.sum.add pct
    | none => a.sum
  n := if p.usedPct.isSome then a.n + 1 else a.n
  usedBytes := p.usedBytes.or a.usedBytes
  totalBytes := p.totalBytes.or a.totalBytes

/-- `Math.round(x)`, which takes halves up. -/
def mathRound : JsNumber → JsNumber
  | .fin x => .ofRat ⌊x.val + 1 / 2⌋
  | x => x

/-- `a.n ? Math.round((a.sum / a.n) * 10) / 10 : null`. -/
def DaySum.usedPct (a : DaySum) : Option JsNumber :=
  if a.n = 0 then none
  else some ((mathRound ((a.sum.div (.ofNat a.n)).mul (.ofNat 10))).div (.ofNat 10))

section

/- `p.ts.slice(0, 10)`, by the time of a row; and `ORDER BY ts`, rows of one time in any order. -/
variable (dateOf : ℤ → String) (byTime : List StorageMetric → List StorageMetric)

def addPoint (byDay : Fields DaySum) (p : StorageMetric) : Fields DaySum :=
  byDay.set (dateOf p.ts) (((byDay.get (dateOf p.ts)).getD .empty).add p)

def storageDays (points : List StorageMetric) : List StorageDay :=
  ((points.foldl (addPoint dateOf) []).insertionSort (fun a b => a.1 ≤ b.1)).map fun e =>
    ⟨e.1, e.2.usedPct, e.2.usedBytes, e.2.totalBytes⟩

def storagePoints (metrics : List StorageMetric) (id : String) (win : TimeWindow) :
    List StorageMetric :=
  byTime (metrics.filter fun p =>
    p.storageId == id && decide (win.fromTime ≤ p.ts) && decide (p.ts ≤ win.untilTime))

def storageMonitor (metrics : List StorageMetric) (win : TimeWindow) (m : MonitorRow) :
    StorageMonitor :=
  let points := storagePoints byTime metrics m.id win
  let last := points.getLast?
  { name := m.name
    current := ⟨last.bind (·.usedPct), last.bind (·.usedBytes), last.bind (·.totalBytes)⟩
    days := storageDays dateOf points }

def buildStorageData (monitors : List MonitorRow) (metrics : List StorageMetric)
    (scope : ReportScope) (win : TimeWindow) : List StorageMonitor :=
  (resolveStorageMonitors monitors scope).map (storageMonitor dateOf byTime metrics win)

end

end Argus.Reports
