import Argus.Monitors.Store

namespace Argus.Monitors

/-!
# The editor of a monitor

`monitorForm.ts`, which reads the configuration of a monitor into a form and builds one from it,
and the schedule that `monitorSchedule` reads.  A save replaces the configuration.

* `monitorSchedule` — the schedule, cut to bounds.
* `valuesFromConfig`, `validate`, `buildConfig` — the form, as in the source.
* `resave` — an editor that is opened and saved as it is.
* `resave_schedule` — the schedule is within its bounds and survives such a save.
-/

/-! ### Numbers -/

/-- A number in JSON. -/
def numberJson : JsNumber → JsValue
  | .fin x => .num x
  | _ => .null

theorem ofNat_eq_fin {k : ℕ} (h : k ≤ 2 ^ 53) :
    ∃ x : Double, JsNumber.ofNat k = .fin x ∧ x.val = k := by
  have habs : |(k : ℤ)| ≤ 2 ^ 53 := by
    rw [abs_of_nonneg (Int.natCast_nonneg k)]
    exact_mod_cast h
  refine ⟨.ofInt k habs, ?_, by simp [Double.ofInt]⟩
  have hcast := JsNumber.ofRat_intCast habs
  rwa [Int.cast_natCast] at hcast

/-- `posInt`. -/
def posInt (v : Option JsValue) (dflt min max : ℕ) : Option JsNumber :=
  (JsValue.fieldNumber v).map fun n =>
    match n with
    | .fin x => if (min : ℚ) ≤ x.val then JsNumber.min (.fin x.floor) (.ofNat max) else .ofNat dflt
    | _ => .ofNat dflt

theorem posInt_spec {v : Option JsValue} {dflt min max : ℕ} {n : JsNumber} (hmin : min ≤ dflt)
    (hmax : dflt ≤ max) (hbig : max ≤ 2 ^ 53) (h : posInt v dflt min max = some n) :
    ∃ k, n = .ofNat k ∧ min ≤ k ∧ k ≤ max := by
  have hdflt : ∃ k, JsNumber.ofNat dflt = .ofNat k ∧ min ≤ k ∧ k ≤ max := ⟨dflt, rfl, hmin, hmax⟩
  obtain ⟨m, -, rfl⟩ := Option.map_eq_some_iff.mp h
  cases m with
  | nan => exact hdflt
  | inf negative => exact hdflt
  | fin x =>
    dsimp only
    split
    · rename_i hx
      obtain ⟨y, hy, hval⟩ := ofNat_eq_fin hbig
      have hfloor : (min : ℤ) ≤ ⌊x.val⌋ := Int.le_floor.mpr (by exact_mod_cast hx)
      have hnat : (⌊x.val⌋.toNat : ℤ) = ⌊x.val⌋ := Int.toNat_of_nonneg (by omega)
      rw [hy, JsNumber.min_fin]
      split
      · rename_i hle
        refine ⟨⌊x.val⌋.toNat, ?_, by omega, ?_⟩
        · have hcast : ((⌊x.val⌋.toNat : ℕ) : ℚ) = x.floor.val := by
            show _ = (⌊x.val⌋ : ℚ)
            exact_mod_cast congrArg (Int.cast : ℤ → ℚ) hnat
          rw [JsNumber.ofNat, hcast, JsNumber.ofRat_val]
        · rw [hval] at hle
          have hle' : ⌊x.val⌋ ≤ (max : ℤ) := by
            have : ((⌊x.val⌋ : ℤ) : ℚ) ≤ ((max : ℤ) : ℚ) := hle
            exact_mod_cast this
          omega
      · exact ⟨max, hy.symm, hmin.trans hmax, le_rfl⟩
    · exact hdflt

/-- A number within the bounds is kept. -/
theorem posInt_numberJson {k dflt min max : ℕ} (hmin : min ≤ k) (hmax : k ≤ max)
    (hbig : max ≤ 2 ^ 53) :
    posInt (some (numberJson (.ofNat k))) dflt min max = some (.ofNat k) := by
  obtain ⟨x, hx, hxval⟩ := ofNat_eq_fin (hmax.trans hbig)
  obtain ⟨y, hy, hyval⟩ := ofNat_eq_fin hbig
  have hfloor : x.floor = x := by
    apply Double.ext
    show ((⌊x.val⌋ : ℤ) : ℚ) = x.val
    rw [hxval, Int.floor_natCast, Int.cast_natCast]
  rw [hx, posInt]
  show some _ = _
  simp only [hfloor, hxval, hy]
  have hle : x.val ≤ y.val := by
    rw [hxval, hyval]
    exact_mod_cast hmax
  rw [if_pos (by exact_mod_cast hmin), JsNumber.min_fin, if_pos hle]

/-! ### The schedule -/

structure MonitorSchedule where
  intervalSec : JsNumber
  retries : JsNumber
  retryIntervalSec : JsNumber
  count : JsNumber
deriving DecidableEq

/-- `DEFAULT_SCHEDULE`, with `FALLBACK_SCHEDULE` for the types it leaves out: the interval, the
    retries, the interval between them and the packets. -/
def defaultSchedule : MonitorType → ℕ × ℕ × ℕ × ℕ
  | .ping => (10, 3, 20, 3)
  | _ => (30, 0, 10, 1)

def monitorSchedule (type : MonitorType) (c : Config) : Option MonitorSchedule := do
  let (interval, retries, retryInterval, count) := defaultSchedule type
  return ⟨← posInt (c.get "interval") interval 5 86400, ← posInt (c.get "retries") retries 0 10,
    ← posInt (c.get "retryInterval") retryInterval 1 3600, ← posInt (c.get "count") count 1 10⟩

/-- Whole numbers within the bounds of the source. -/
def MonitorSchedule.Sane (s : MonitorSchedule) : Prop :=
  (∃ k, s.intervalSec = .ofNat k ∧ 5 ≤ k ∧ k ≤ 86400) ∧
    (∃ k, s.retries = .ofNat k ∧ 0 ≤ k ∧ k ≤ 10) ∧
    (∃ k, s.retryIntervalSec = .ofNat k ∧ 1 ≤ k ∧ k ≤ 3600) ∧
    ∃ k, s.count = .ofNat k ∧ 1 ≤ k ∧ k ≤ 10

/-- No configuration gives a schedule out of bounds. -/
theorem monitorSchedule_sane {type : MonitorType} {c : Config} {s : MonitorSchedule}
    (h : monitorSchedule type c = some s) : s.Sane := by
  have hdflt : ∀ t, 5 ≤ (defaultSchedule t).1 ∧ (defaultSchedule t).1 ≤ 86400 ∧
      (defaultSchedule t).2.1 ≤ 10 ∧ 1 ≤ (defaultSchedule t).2.2.1 ∧
      (defaultSchedule t).2.2.1 ≤ 3600 ∧ 1 ≤ (defaultSchedule t).2.2.2 ∧
      (defaultSchedule t).2.2.2 ≤ 10 := by
    intro t
    cases t <;> decide
  obtain ⟨h₁, h₂, h₃, h₄, h₅, h₆, h₇⟩ := hdflt type
  simp only [monitorSchedule, Option.bind_eq_bind, Option.bind_eq_some_iff, Option.pure_def,
    Option.some.injEq] at h
  obtain ⟨i, hi, r, hr, ri, hri, n, hn, rfl⟩ := h
  exact ⟨posInt_spec h₁ h₂ (by decide) hi, posInt_spec (Nat.zero_le _) h₃ (by decide) hr,
    posInt_spec h₄ h₅ (by decide) hri, posInt_spec h₆ h₇ (by decide) hn⟩

/-! ### The form -/

inductive RefreshUnit
  | minutes | hours
deriving DecidableEq, Repr

structure WatchFolderRow where
  path : String
  depth : JsNumber
  refreshMin : JsNumber
  refreshUnit : RefreshUnit
  scanTimes : List String
  scanTZ : String
deriving DecidableEq

structure MonitorFieldValues where
  path : String
  server : Bool
  folders : Bool
  watchFolders : List WatchFolderRow
  user : String
  password : String
  host : String
  port : String
  database : String
  encrypt : Bool
  collectQueries : Bool
  topN : JsNumber
  community : String
  snmpVersion : String
  oids : String
  profileId : String
  url : String
  method : String
  expectedStatus : String
  keyword : String
  recordType : String
  resolver : String
  interval : JsNumber
  retries : JsNumber
  retryInterval : JsNumber
  count : JsNumber

def emptyValues : MonitorFieldValues where
  path := ""
  server := false
  folders := false
  watchFolders := []
  user := ""
  password := ""
  host := ""
  port := ""
  database := ""
  encrypt := false
  collectQueries := false
  topN := .ofNat 10
  community := ""
  snmpVersion := "2c"
  oids := ""
  profileId := ""
  url := ""
  method := "GET"
  expectedStatus := ""
  keyword := ""
  recordType := "A"
  resolver := ""
  interval := .ofNat 30
  retries := .ofNat 0
  retryInterval := .ofNat 10
  count := .ofNat 3

def str : Option JsValue → String
  | some (.str s) => s
  | _ => ""

/-- `v === true`. -/
def isTrue : Option JsValue → Bool
  | some (.bool b) => b
  | _ => false

/-- `s || d`. -/
def orText (s d : String) : String := if s = "" then d else s

/-- `v != null ? String(v) : ""`. -/
def textOf : Option JsValue → Option String
  | none | some .null => some ""
  | some v => v.toText

/-- A number, or else the default. -/
def numberOf (dflt : ℕ) : Option JsValue → JsNumber
  | some (.num x) => .fin x
  | _ => .ofNat dflt

/-- The fields that are read of a value. -/
def fieldsOf : JsValue → Fields JsValue
  | .obj fields => fields
  | _ => []

/-- The unit an interval is shown in. -/
def refreshUnit : JsNumber → RefreshUnit
  | .fin x => if 60 ≤ x.val ∧ (x.val / 60).isInt then .hours else .minutes
  | _ => .minutes

/-- The daily times of a watched folder; an older one has a single time. -/
def scanTimesOf (fields : Fields JsValue) : Option (List String) :=
  match fields.get "scanTimes" with
  | some (.arr xs) => xs.mapM JsValue.toText
  | _ =>
    match fields.get "dailyAt" with
    | some (.str s) => some (if s = "" then [] else [s])
    | _ => some []

def watchFolderRow : JsValue → Option WatchFolderRow
  | .str path => some ⟨path, .ofNat 1, .ofNat 15, .minutes, [], ""⟩
  | w => do
    let fields := fieldsOf w
    let times ← scanTimesOf fields
    let rm := numberOf 15 (fields.get "refreshMin")
    return ⟨← textOf (fields.get "path"), numberOf 1 (fields.get "depth"), rm, refreshUnit rm,
      times, str (fields.get "scanTimezone")⟩

def watchFoldersOf : Option JsValue → Option (List WatchFolderRow)
  | some (.arr ws) => (ws.mapM watchFolderRow).map (List.filter (fun r => r.path != ""))
  | _ => some []

/-- A line of the legacy OIDs; reading a field of `null` throws. -/
def oidLine (o : JsValue) : Option String := do
  if o.isNull then none
  else
    let fields := fieldsOf o
    let oid ← textOf (fields.get "oid")
    let label ←
      match fields.get "label" with
      | none | some .null => some oid
      | some label => label.toText
    return label ++ " = " ++ oid

def oidsOf : Option JsValue → Option String
  | some (.arr os) => (os.mapM oidLine).map (String.intercalate "\n")
  | _ => some ""

/-- The schedule of a monitor that the server runs. -/
def withSchedule (type : MonitorType) (c : Config) (v : MonitorFieldValues) :
    Option MonitorFieldValues :=
  (monitorSchedule type c).map fun s =>
    { v with
      interval := s.intervalSec
      retries := s.retries
      retryInterval := s.retryIntervalSec
      count := s.count }

/-- `valuesFromConfig`; `none` if a conversion throws. -/
def valuesFromConfig (type : MonitorType) (c : Config) : Option MonitorFieldValues :=
  let v := emptyValues
  match type with
  | .storage =>
    (watchFoldersOf (c.get "watchFolders")).map fun watchFolders =>
      { v with
        path := str (c.get "path")
        user := str (c.get "user")
        server := isTrue (c.get "server")
        folders := isTrue (c.get "folders")
        watchFolders := watchFolders }
  | .database =>
    (textOf (c.get "port")).map fun port =>
      { v with
        host := str (c.get "host")
        port := port
        database := str (c.get "database")
        user := str (c.get "user")
        encrypt := isTrue (c.get "encrypt")
        collectQueries := isTrue (c.get "collectQueries")
        topN := numberOf 10 (c.get "topN") }
  | .snmp =>
    (oidsOf (c.get "oids")).map fun oids =>
      { v with
        host := str (c.get "host")
        snmpVersion := orText (str (c.get "version")) "2c"
        profileId := str (c.get "profileId")
        oids := oids }
  | .http =>
    (textOf (c.get "expectedStatus")).bind fun expectedStatus =>
      withSchedule type c { v with
        url := str (c.get "url")
        method := orText (str (c.get "method")) "GET"
        expectedStatus := expectedStatus
        keyword := str (c.get "keyword") }
  | .tcp =>
    (textOf (c.get "port")).bind fun port =>
      withSchedule type c { v with host := str (c.get "host"), port := port }
  | .dns =>
    withSchedule type c { v with
      host := str (c.get "host")
      recordType := orText (str (c.get "recordType")) "A"
      resolver := str (c.get "resolver") }
  | .ping =>
    (textOf (c.get "port")).bind fun port =>
      withSchedule type c { v with host := str (c.get "host"), port := port }
  | .service | .process | .host => some v

/-- `/^([01]?\d|2[0-3]):[0-5]\d$/`. -/
def isDailyTime (t : String) : Bool :=
  match t.toList with
  | [h, ':', m, n] => h.isDigit && '0' ≤ m && m ≤ '5' && n.isDigit
  | [g, h, ':', m, n] =>
    ((g == '0' || g == '1') && h.isDigit || g == '2' && '0' ≤ h && h ≤ '3') &&
      '0' ≤ m && m ≤ '5' && n.isDigit
  | _ => false

/-- `n || d`. -/
def orNumber (n : JsNumber) (d : ℕ) : JsNumber :=
  if n = .nan ∨ n = .ofNat 0 then .ofNat d else n

def watchDepth (depth : JsNumber) : JsNumber :=
  if JsNumber.strictEq depth (.ofNat 0) then .ofNat 0
  else JsNumber.max (.ofNat 1) (JsNumber.min (.ofNat 50) (orNumber depth 1))

/-- What `buildConfig` makes of a row. -/
def watchFolderJson (r : WatchFolderRow) : JsValue :=
  let row : Fields JsValue :=
    [("path", .str (JsText.trim r.path)), ("depth", numberJson (watchDepth r.depth))]
  let times := (r.scanTimes.map JsText.trim).filter isDailyTime
  if times ≠ [] then
    .obj (row ++ [("scanTimes", .arr (times.map .str))] ++
      if JsText.trim r.scanTZ ≠ "" then [("scanTimezone", .str (JsText.trim r.scanTZ))] else [])
  else
    .obj (row ++ [("refreshMin", numberJson (JsNumber.max (.ofNat 1) (orNumber r.refreshMin 15)))])

/-- `cfg[k] = v`, under a condition. -/
def Config.setIf (c : Config) (b : Bool) (k : String) (v : JsValue) : Config :=
  if b then c.set k v else c

/-- Whether a text has something but white space. -/
def filled (s : String) : Bool := JsText.trim s != ""

/-- `Number(v.port)`. -/
def portJson (port : String) : JsValue := numberJson (.ofText port)

def Config.withTimes (c : Config) (v : MonitorFieldValues) : Config :=
  ((c.set "interval" (numberJson v.interval)).set "retries" (numberJson v.retries)).set
    "retryInterval" (numberJson v.retryInterval)

/-- `buildConfig`, as it is sent. -/
def buildConfig (type : MonitorType) (v : MonitorFieldValues) : Config :=
  match type with
  | .storage =>
    let watch := (v.watchFolders.filter (fun r => filled r.path)).map watchFolderJson
    Config.empty |>.set "path" (.str (JsText.trim v.path))
      |>.set "folders" (.bool v.folders)
      |>.setIf v.server "server" (.bool true)
      |>.setIf (filled v.user) "user" (.str (JsText.trim v.user))
      |>.setIf (v.password != "") "password" (.str v.password)
      |>.setIf (!watch.isEmpty) "watchFolders" (.arr watch)
  | .snmp =>
    Config.empty |>.set "host" (.str (JsText.trim v.host))
      |>.set "version" (.str v.snmpVersion)
      |>.setIf (v.profileId != "") "profileId" (.str v.profileId)
      |>.setIf (v.community != "") "community" (.str v.community)
  | .http =>
    Config.empty |>.set "url" (.str (JsText.trim v.url))
      |>.set "method" (.str (orText v.method "GET"))
      |>.withTimes v
      |>.setIf (filled v.expectedStatus) "expectedStatus" (.str (JsText.trim v.expectedStatus))
      |>.setIf (filled v.keyword) "keyword" (.str v.keyword)
  | .tcp =>
    Config.empty |>.set "host" (.str (JsText.trim v.host))
      |>.withTimes v
      |>.setIf (filled v.port) "port" (portJson v.port)
  | .dns =>
    Config.empty |>.set "host" (.str (JsText.trim v.host))
      |>.set "recordType" (.str (orText v.recordType "A"))
      |>.withTimes v
      |>.setIf (filled v.resolver) "resolver" (.str (JsText.trim v.resolver))
  | .ping =>
    Config.empty |>.withTimes v
      |>.set "count" (numberJson v.count)
      |>.setIf (filled v.host) "host" (.str (JsText.trim v.host))
      |>.setIf (filled v.port) "port" (portJson v.port)
  | .database | .service | .process | .host =>
    Config.empty |>.set "host" (.str (JsText.trim v.host))
      |>.set "encrypt" (.bool v.encrypt)
      |>.set "collectQueries" (.bool v.collectQueries)
      |>.setIf (filled v.port) "port" (portJson v.port)
      |>.setIf (filled v.database) "database" (.str (JsText.trim v.database))
      |>.setIf (filled v.user) "user" (.str (JsText.trim v.user))
      |>.setIf (v.password != "") "password" (.str v.password)
      |>.setIf v.collectQueries "topN" (numberJson v.topN)

/-- `/^https?:\/\//i`. -/
def hasScheme (url : String) : Bool :=
  let cs := url.toList.map Char.toLower
  "http://".toList.isPrefixOf cs || "https://".toList.isPrefixOf cs

def validate (type : MonitorType) (v : MonitorFieldValues) : Option String :=
  match type with
  | .storage =>
    if filled v.path then none else some "Share path is required (e.g. \\\\nas\\share)."
  | .database => if filled v.host then none else some "Database host is required."
  | .snmp => if filled v.host then none else some "Device host/IP is required."
  | .http =>
    if hasScheme (JsText.trim v.url) then none
    else some "A URL starting with http:// or https:// is required."
  | .tcp => if filled v.host && filled v.port then none else some "Host and port are required."
  | .dns => if filled v.host then none else some "Hostname is required."
  | .ping | .service | .process | .host => none

/-! ### Saving -/

/-- The types that have a form. -/
def structured (type : MonitorType) : Bool :=
  type == .storage || type == .database || type == .snmp || type == .http || type == .tcp ||
    type == .dns || type == .ping

/-- `onSubmit` of a form that was opened on a configuration and left as it is: the configuration
    that is sent, unless the form is refused. -/
def resave (isDevice : Bool) (type : MonitorType) (c : Config) : Option Config :=
  (valuesFromConfig type c).bind fun values =>
    if (validate type values).isSome then none
    else
      let v := if isDevice && type == .storage then { values with server := true } else values
      let config := buildConfig type v
      some (if type == .ping then c.spread config else config)

/-! ### The schedule through a save -/

namespace Config

theorem get_setIf (c : Config) (b : Bool) (k j : String) (v : JsValue) :
    (c.setIf b k v).get j = if j = k ∧ b = true then some v else c.get j := by
  cases b with
  | true => simp [setIf, get_set]
  | false => simp [setIf]

theorem get_withTimes (c : Config) (v : MonitorFieldValues) (j : String) :
    (c.withTimes v).get j =
      if j = "retryInterval" then some (numberJson v.retryInterval)
      else if j = "retries" then some (numberJson v.retries)
      else if j = "interval" then some (numberJson v.interval)
      else c.get j := by
  rw [withTimes, get_set, get_set, get_set]

end Config

theorem withSchedule_spec {type : MonitorType} {c : Config} {v v' : MonitorFieldValues}
    (h : withSchedule type c v = some v') :
    ∃ s, monitorSchedule type c = some s ∧
      v' = { v with
        interval := s.intervalSec
        retries := s.retries
        retryInterval := s.retryIntervalSec
        count := s.count } := by
  obtain ⟨s, hs, rfl⟩ := Option.map_eq_some_iff.mp h
  exact ⟨s, hs, rfl⟩

/-- The types that the server runs on a schedule. -/
def scheduled (type : MonitorType) : Bool :=
  type == .ping || type == .http || type == .tcp || type == .dns

/-- The form of a scheduled monitor has its schedule. -/
theorem values_schedule {type : MonitorType} (htype : scheduled type = true) {c : Config}
    {v : MonitorFieldValues} (h : valuesFromConfig type c = some v) :
    ∃ s, monitorSchedule type c = some s ∧ v.interval = s.intervalSec ∧ v.retries = s.retries ∧
      v.retryInterval = s.retryIntervalSec ∧ v.count = s.count := by
  cases type with
  | ping =>
    obtain ⟨port, -, hport⟩ := Option.bind_eq_some_iff.mp h
    obtain ⟨s, hs, rfl⟩ := withSchedule_spec hport
    exact ⟨s, hs, rfl, rfl, rfl, rfl⟩
  | http =>
    obtain ⟨status, -, hstatus⟩ := Option.bind_eq_some_iff.mp h
    obtain ⟨s, hs, rfl⟩ := withSchedule_spec hstatus
    exact ⟨s, hs, rfl, rfl, rfl, rfl⟩
  | tcp =>
    obtain ⟨port, -, hport⟩ := Option.bind_eq_some_iff.mp h
    obtain ⟨s, hs, rfl⟩ := withSchedule_spec hport
    exact ⟨s, hs, rfl, rfl, rfl, rfl⟩
  | dns =>
    obtain ⟨s, hs, rfl⟩ := withSchedule_spec h
    exact ⟨s, hs, rfl, rfl, rfl, rfl⟩
  | service => cases htype
  | process => cases htype
  | host => cases htype
  | database => cases htype
  | storage => cases htype
  | snmp => cases htype

/-- What is sent has the schedule of the form. -/
theorem build_schedule {type : MonitorType} (htype : scheduled type = true)
    (v : MonitorFieldValues) :
    (buildConfig type v).get "interval" = some (numberJson v.interval) ∧
      (buildConfig type v).get "retries" = some (numberJson v.retries) ∧
      (buildConfig type v).get "retryInterval" = some (numberJson v.retryInterval) ∧
      (buildConfig type v).get "count"
        = if type = .ping then some (numberJson v.count) else none := by
  cases type with
  | ping => simp [buildConfig, Config.get_setIf, Config.get_withTimes, Config.get_set]
  | http => simp [buildConfig, Config.get_setIf, Config.get_withTimes, Config.get_set]
  | tcp => simp [buildConfig, Config.get_setIf, Config.get_withTimes, Config.get_set]
  | dns => simp [buildConfig, Config.get_setIf, Config.get_withTimes, Config.get_set]
  | service => cases htype
  | process => cases htype
  | host => cases htype
  | database => cases htype
  | storage => cases htype
  | snmp => cases htype

/-- A schedule that is within its bounds is read as it was written. -/
theorem monitorSchedule_of_get {type : MonitorType} {c : Config} {s : MonitorSchedule} (h : s.Sane)
    (hinterval : c.get "interval" = some (numberJson s.intervalSec))
    (hretries : c.get "retries" = some (numberJson s.retries))
    (hretry : c.get "retryInterval" = some (numberJson s.retryIntervalSec))
    (hcount : c.get "count" = if type = .ping then some (numberJson s.count) else none) :
    ∃ count, monitorSchedule type c = some { s with count := count } ∧
      (type = .ping → count = s.count) := by
  obtain ⟨⟨i, hi, hi₁, hi₂⟩, ⟨r, hr, hr₁, hr₂⟩, ⟨ri, hri, hri₁, hri₂⟩, n, hn, hn₁, hn₂⟩ := h
  have hread : ∃ count, posInt (c.get "count") (defaultSchedule type).2.2.2 1 10 = some count ∧
      (type = .ping → count = s.count) := by
    rw [hcount]
    by_cases htype : type = .ping
    · rw [if_pos htype, hn]
      exact ⟨_, posInt_numberJson hn₁ hn₂ (by decide), fun _ => rfl⟩
    · rw [if_neg htype]
      exact ⟨_, rfl, fun h => absurd h htype⟩
  obtain ⟨count, hread, hsame⟩ := hread
  refine ⟨count, ?_, hsame⟩
  simp only [monitorSchedule, hinterval, hretries, hretry, hi, hr, hri,
    posInt_numberJson hi₁ hi₂ (by decide), posInt_numberJson hr₁ hr₂ (by decide),
    posInt_numberJson hri₁ hri₂ (by decide), hread, Option.bind_eq_bind, Option.bind_some,
    Option.pure_def]

def MonitorFieldValues.schedule (v : MonitorFieldValues) : MonitorSchedule :=
  ⟨v.interval, v.retries, v.retryInterval, v.count⟩

/-- What is sent for a form that was opened on a configuration. -/
def sent (type : MonitorType) (c : Config) (v : MonitorFieldValues) : Config :=
  if type = .ping then c.spread (buildConfig type v) else buildConfig type v

theorem get_sent {type : MonitorType} (c : Config) {v : MonitorFieldValues} {k : String}
    {w : JsValue} (h : (buildConfig type v).get k = some w) : (sent type c v).get k = some w := by
  unfold sent
  split
  · rw [Config.get_spread, h, Option.some_or]
  · exact h

/-- The schedule of the form is read from what is sent. -/
theorem schedule_sent (type : MonitorType) (htype : scheduled type = true) (c : Config)
    {v : MonitorFieldValues} (hsane : v.schedule.Sane) :
    ∃ count, monitorSchedule type (sent type c v) = some { v.schedule with count := count } ∧
      (type = .ping → count = v.count) := by
  obtain ⟨hinterval, hretries, hretry, hcount⟩ := build_schedule htype v
  refine monitorSchedule_of_get hsane (get_sent c hinterval) (get_sent c hretries)
    (get_sent c hretry) ?_
  by_cases hping : type = .ping
  · rw [if_pos hping] at hcount ⊢
    exact get_sent c hcount
  · rw [if_neg hping] at hcount ⊢
    rw [sent, if_neg hping, hcount]

/-- What a form that was left as it is sends. -/
theorem resave_spec {isDevice : Bool} {type : MonitorType} {c c₁ : Config}
    (h : resave isDevice type c = some c₁) :
    ∃ values, valuesFromConfig type c = some values ∧ validate type values = none ∧
      c₁ = sent type c
        (if isDevice && type == .storage then { values with server := true } else values) := by
  obtain ⟨values, hvalues, h⟩ := Option.bind_eq_some_iff.mp h
  dsimp only at h
  split at h
  · cases h
  · rename_i hvalid
    refine ⟨values, hvalues, Option.not_isSome_iff_eq_none.mp hvalid, ?_⟩
    rw [← Option.some.inj h]
    simp only [sent, beq_iff_eq]

theorem resave_of_values {isDevice : Bool} {type : MonitorType} {c : Config}
    {values : MonitorFieldValues} (hvalues : valuesFromConfig type c = some values)
    (hvalid : validate type values = none) :
    resave isDevice type c = some (sent type c
      (if isDevice && type == .storage then { values with server := true } else values)) := by
  rw [resave, hvalues, Option.bind_some]
  dsimp only
  rw [hvalid, if_neg (by decide)]
  simp only [sent, beq_iff_eq]

theorem not_storage {type : MonitorType} (h : type ≠ .storage) (isDevice : Bool) :
    (isDevice && type == .storage) = false := by
  rw [beq_false_of_ne h, Bool.and_false]

/-- **The schedule survives an edit.** A form that is opened and saved sends a schedule that is
    read as the one that was stored, whatever the stored configuration is: only the packets of a
    type that sends none are dropped.  It is within the bounds. -/
theorem resave_schedule {isDevice : Bool} {type : MonitorType} {c c₁ : Config}
    (htype : scheduled type = true) (h : resave isDevice type c = some c₁) :
    ∃ s s₁, monitorSchedule type c = some s ∧ monitorSchedule type c₁ = some s₁ ∧ s.Sane ∧
      s₁.Sane ∧ s₁.intervalSec = s.intervalSec ∧ s₁.retries = s.retries ∧
      s₁.retryIntervalSec = s.retryIntervalSec ∧ (type = .ping → s₁.count = s.count) := by
  obtain ⟨v, hvalues, -, rfl⟩ := resave_spec h
  have hne : type ≠ .storage := by
    rintro rfl
    cases htype
  rw [not_storage hne, if_neg Bool.false_ne_true]
  obtain ⟨s, hs, hinterval, hretries, hretry, hcount⟩ := values_schedule htype hvalues
  have heq : v.schedule = s := by
    rw [MonitorFieldValues.schedule, hinterval, hretries, hretry, hcount]
  have hsane := monitorSchedule_sane hs
  obtain ⟨count, hread, hsame⟩ := schedule_sent type htype c (heq ▸ hsane)
  rw [heq] at hread
  exact ⟨s, _, hs, hread, hsane, monitorSchedule_sane hread, rfl, rfl, rfl,
    fun hping => (hsame hping).trans hcount⟩

/-- An interval that is no number is read, and sent, as the default. -/
theorem resave_schedule_ping :
    ∃ c₁, resave true .ping (Config.empty.set "interval" (.str "soon")) = some c₁ ∧
      ∃ s s₁, monitorSchedule .ping (Config.empty.set "interval" (.str "soon")) = some s ∧
        monitorSchedule .ping c₁ = some s₁ ∧ s.Sane ∧ s₁.Sane ∧ s₁.intervalSec = s.intervalSec ∧
        s₁.retries = s.retries ∧ s₁.retryIntervalSec = s.retryIntervalSec ∧
        (MonitorType.ping = .ping → s₁.count = s.count) :=
  ⟨_, rfl, resave_schedule rfl rfl⟩

end Argus.Monitors
