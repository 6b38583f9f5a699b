import Argus.Backup.Store
import Argus.Lib.Csv
import Argus.Lib.Markup
import Argus.Schedulers.SnmpValues

namespace Argus.Reports

open Backup (ReportType localeCompare)

/-!
# Exported reports

`lib/reportExport.ts` of the frontend: a report document as a table, and the table as CSV and as
HTML.

* `toTable` — the table of a document, for the seven types of reports.
* `toTable_rectangular` — every row has a cell for each column.
* `exportCsv_read` — the file is read back as the table.
* `detailTable_read` — the rows and cells of the HTML are those of the table, whatever the names
  in it are.
-/

/-! ### Documents -/

/-- `toLocaleString` of a date and of a number, in the browser's language. -/
structure Locale where
  dateTime : String → String
  number : Double → String

structure SummaryDoc where
  overallUptimePct : Double
  incidentCount : Double
  agentsTotal : Double
  monitorsTotal : Double
  monitorsEnabled : Double
  worstMonitors : List (String × Double)
  topIncidentMonitors : List (String × Double)
  storageAlerts : List (String × Double)

structure IncidentItem where
  entity : String
  newStatus : Option String
  ts : String

inductive ResourceKind
  | host
  | process
deriving DecidableEq, Repr

inductive MemUnit
  | percent
  | mb
deriving DecidableEq, Repr

structure ResourceRow where
  name : String
  kind : ResourceKind
  avgCpu : Option Double
  peakCpu : Option Double
  avgMem : Option Double
  memUnit : MemUnit

structure CapacityDay where
  date : String
  usedPct : Option Double
  usedBytes : Option Double
  totalBytes : Option Double

structure CurrentCapacity where
  usedPct : Option Double
  usedBytes : Option Double
  totalBytes : Option Double
  freeBytes : Option Double

structure FolderEntry where
  folder : String
  sizeBytes : Option Double
  fileCount : Option Double
  folderCount : Option Double

structure DetailEntry where
  name : String
  current : CurrentCapacity
  topFolders : List FolderEntry

structure InventoryAgent where
  name : String
  platform : Option String
  status : String
  version : Option String

structure InventoryMonitor where
  name : String
  type : String
  enabled : Bool
  agentName : String

/-- The data of a document, by its type.  A list that may be missing is an `Option`. -/
inductive DocData
  | summary (s : SummaryDoc)
  | uptime (rows : Option (List (String × Double))) (overallPct : Option Double)
  | incidents (items : Option (List IncidentItem)) (count : Option Double)
  | resource (rows : Option (List ResourceRow))
  | storage (monitors : Option (List (String × List CapacityDay)))
  | storageDetail (monitors : Option (List DetailEntry))
  | inventory (agents : Option (List InventoryAgent)) (monitors : Option (List InventoryMonitor))

structure ReportDoc where
  scopeKind : String
  refId : Option String
  days : Double
  generatedAt : String
  scopeLabel : Option String
  windowLabel : Option String
  data : DocData

/-! ### Cells -/

inductive Cell
  | text (s : String)
  | number (x : Double)

/-- `String(v)`. -/
def Cell.string : Cell → String
  | .text s => s
  | .number x => JsNumber.toText (.fin x)

/-- `x.toFixed(digits)`. -/
def toFixed (x : Double) (digits : ℕ) : String :=
  if x.val < 0 then "-" ++ Schedulers.toFixed (-x.val) digits
  else Schedulers.toFixed x.val digits

/-- `fmtBytes` of this file: a size that is not known is a dash, and one below zero is one of
    bytes. -/
def fmtBytes : Option Double → String
  | none => "—"
  | some b =>
    if b.val < 0 then toFixed b 0 ++ " B"
    else
      let (v, i, u) := Schedulers.byteUnit b.val ["B", "KB", "MB", "GB", "TB", "PB"] 0
      Schedulers.toFixed v (if 10 ≤ v ∨ i = 0 then 0 else 1) ++ " " ++ u

structure ReportTable where
  title : String
  subtitle : String
  columns : List String
  rows : List (List Cell)

/-! ### The table of a document -/

/-- `num` of the resource report. -/
def num (v : Option Double) (unit : String) : String :=
  match v with
  | none => "—"
  | some x => JsNumber.toText (.fin x) ++ unit

def pct (v : Option Double) : String :=
  match v with
  | none => "—"
  | some x => toFixed x 1

def ResourceKind.name : ResourceKind → String
  | .host => "host"
  | .process => "process"

/-- The dates of rows, by which the storage report is sorted. -/
def firstCell (row : List Cell) : List Char := ((row.head?.map Cell.string).getD "").toList

section

variable (locale : Locale)

def subtitle (doc : ReportDoc) : String :=
  let when := locale.dateTime doc.generatedAt
  let scope := doc.scopeLabel.getD
    (if doc.scopeKind = "all" then "All monitors"
     else JsText.trim (doc.scopeKind ++ " " ++ doc.refId.getD ""))
  let window := doc.windowLabel.getD (JsNumber.toText (.fin doc.days) ++ "d")
  scope ++ " · " ++ window ++ " · Generated: " ++ when

def summaryRows (s : SummaryDoc) : List (List Cell) :=
  [[.text "Overall uptime", .text (toFixed s.overallUptimePct 2 ++ "%")],
   [.text "Incidents (window)", .number s.incidentCount],
   [.text "Monitored hosts", .number s.agentsTotal],
   [.text "Monitors (enabled / total)",
    .text (JsNumber.toText (.fin s.monitorsEnabled) ++ " / " ++
      JsNumber.toText (.fin s.monitorsTotal))]]
  ++ s.worstMonitors.map (fun m =>
      [.text ("Low availability — " ++ m.1), .text (toFixed m.2 2 ++ "%")])
  ++ s.topIncidentMonitors.map (fun m => [.text ("Incidents — " ++ m.1), .number m.2])
  ++ s.storageAlerts.map (fun x => [.text ("Storage — " ++ x.1), .text (toFixed x.2 1 ++ "%")])

def uptimeRow (r : String × Double) : List Cell := [.text r.1, .text (toFixed r.2 2)]

def incidentRow (i : IncidentItem) : List Cell :=
  [.text (locale.dateTime i.ts), .text i.entity, .text (i.newStatus.getD "")]

def resourceRow (r : ResourceRow) : List Cell :=
  [.text r.name, .text r.kind.name, .text (num r.avgCpu ""), .text (num r.peakCpu ""),
   .text (num r.avgMem (if r.memUnit = .mb then " MB" else "%"))]

def storageRow (name : String) (day : CapacityDay) : List Cell :=
  [.text day.date, .text name, .text (pct day.usedPct), .text (fmtBytes day.usedBytes),
   .text (fmtBytes day.totalBytes)]

def storageRows (mons : List (String × List CapacityDay)) : List (List Cell) :=
  (mons.flatMap (fun m => m.2.map (storageRow m.1))).insertionSort
    (fun a b => localeCompare (firstCell a) (firstCell b) ≠ .gt)

def capacityRow (m : DetailEntry) : List Cell :=
  [.text m.name, .text "— capacity —",
   .text (match m.current.usedPct with
     | none => "—"
     | some x => toFixed x 1 ++ "%"),
   .text ("used " ++ fmtBytes m.current.usedBytes ++ " · free " ++ fmtBytes m.current.freeBytes ++
     " · total " ++ fmtBytes m.current.totalBytes),
   .text ""]

def count (n : Option Double) : String := (n.map locale.number).getD "—"

def folderRow (name : String) (f : FolderEntry) : List Cell :=
  [.text name, .text f.folder, .text (fmtBytes f.sizeBytes), .text (count locale f.fileCount),
   .text (count locale f.folderCount)]

def detailRows (mons : List DetailEntry) : List (List Cell) :=
  mons.flatMap fun m => capacityRow m :: m.topFolders.map (folderRow locale m.name)

def agentRow (a : InventoryAgent) : List Cell :=
  [.text "agent", .text a.name,
   .text (JsText.trim (a.platform.getD "" ++ " " ++ a.version.getD "")), .text a.status]

def monitorRow (m : InventoryMonitor) : List Cell :=
  [.text "monitor", .text m.name, .text (m.type ++ " · " ++ m.agentName),
   .text (if m.enabled then "enabled" else "disabled")]

def toTable (doc : ReportDoc) : ReportTable :=
  let subtitle := subtitle locale doc
  match doc.data with
  | .summary s =>
    { title := "Executive summary", subtitle, columns := ["Metric", "Value"]
      rows := summaryRows s }
  | .uptime rows overallPct =>
    { title := "Uptime report"
      subtitle := subtitle ++ " · Overall: " ++
        ((overallPct.map (toFixed · 2)).getD "0.00") ++ "%"
      columns := ["Monitor", "Uptime %"]
      rows := (rows.getD []).map uptimeRow }
  | .incidents items count =>
    { title := "Incidents report"
      subtitle := subtitle ++ " · " ++
        ((count.map fun n => JsNumber.toText (.fin n)).getD (toString (items.getD []).length)) ++
        " incident(s)"
      columns := ["Time", "Monitor", "Status"]
      rows := (items.getD []).map (incidentRow locale) }
  | .resource rows =>
    { title := "Resource usage (CPU / RAM)", subtitle
      columns := ["Name", "Kind", "Avg CPU %", "Peak CPU %", "Avg memory"]
      rows := (rows.getD []).map resourceRow }
  | .storage mons =>
    { title := "Storage report (datewise)"
      subtitle := subtitle ++ " · " ++ toString (mons.getD []).length ++ " share(s)"
      columns := ["Date", "Share", "Used %", "Used", "Total"]
      rows := storageRows (mons.getD []) }
  | .storageDetail mons =>
    { title := "Storage report (detailed + folders)"
      subtitle := subtitle ++ " · " ++ toString (mons.getD []).length ++ " share(s)"
      columns := ["Share", "Folder", "Size", "Files", "Sub-folders"]
      rows := detailRows locale (mons.getD []) }
  | .inventory agents mons =>
    { title := "Inventory report", subtitle, columns := ["Kind", "Name", "Detail", "Status"]
      rows := (agents.getD []).map agentRow ++ (mons.getD []).map monitorRow }

/-! ### The files -/

/-- `csvCell`. -/
def csvCell (v : Cell) : List Char :=
  let s := v.string.toList
  if s.any (fun c => c == '"' || c == ',' || c == '\n') then
    '"' :: (s.flatMap (fun c => if c = '"' then ['"', '"'] else [c]) ++ ['"'])
  else s

/-- The text that `exportCsv` saves. -/
def exportCsv (doc : ReportDoc) : List Char :=
  let t := toTable locale doc
  let lines := ([','].intercalate (t.columns.map fun c => csvCell (.text c)))
    :: t.rows.map (fun r => [','].intercalate (r.map csvCell))
  ['\r', '\n'].intercalate lines

/-- `esc`. -/
def esc (s : String) : List Char :=
  s.toList.flatMap fun c =>
    if c = '&' then "&amp;".toList else if c = '<' then "&lt;".toList
    else if c = '>' then "&gt;".toList else [c]

/-- `<name>body</name>`. -/
def html (name : String) (body : List Char) : List Char :=
  ("<" ++ name ++ ">").toList ++ body ++ ("</" ++ name ++ ">").toList

/-- The table in the page of `buildReportHtml`. -/
def detailTable (doc : ReportDoc) : List Char :=
  let t := toTable locale doc
  let head := t.columns.flatMap fun c => html "th" (esc c)
  let body := t.rows.flatMap fun r => html "tr" (r.flatMap fun c => html "td" (esc c.string))
  html "table" (html "thead" (html "tr" head) ++ html "tbody" body)

end

/-! ### The shape of the table -/

theorem mem_storageRows {mons : List (String × List CapacityDay)} {row : List Cell} :
    row ∈ storageRows mons ↔ ∃ m ∈ mons, ∃ day ∈ m.2, storageRow m.1 day = row := by
  rw [storageRows, List.mem_insertionSort, List.mem_flatMap]
  simp only [List.mem_map]

variable {locale : Locale}

/-- **Rectangular.**  Whatever a document holds, a row has a cell for each column of its table,
    and there are columns. -/
theorem toTable_rectangular (locale : Locale) (doc : ReportDoc) :
    (toTable locale doc).columns ≠ [] ∧
      ∀ row ∈ (toTable locale doc).rows, row.length = (toTable locale doc).columns.length := by
  unfold toTable
  cases doc.data with
  | summary s =>
    refine ⟨List.cons_ne_nil _ _, ?_⟩
    intro row hrow
    simp only [summaryRows, List.mem_append, List.mem_cons, List.mem_map, List.not_mem_nil,
      or_false] at hrow
    rcases hrow with (((rfl | rfl | rfl | rfl) | ⟨m, _, rfl⟩) | ⟨m, _, rfl⟩) | ⟨m, _, rfl⟩ <;> rfl
  | uptime rows overallPct =>
    refine ⟨List.cons_ne_nil _ _, ?_⟩
    rintro row hrow
    obtain ⟨r, _, rfl⟩ := List.mem_map.mp hrow
    rfl
  | incidents items count =>
    refine ⟨List.cons_ne_nil _ _, ?_⟩
    rintro row hrow
    obtain ⟨i, _, rfl⟩ := List.mem_map.mp hrow
    rfl
  | resource rows =>
    refine ⟨List.cons_ne_nil _ _, ?_⟩
    rintro row hrow
    obtain ⟨r, _, rfl⟩ := List.mem_map.mp hrow
    rfl
  | storage mons =>
    refine ⟨List.cons_ne_nil _ _, ?_⟩
    rintro row hrow
    obtain ⟨m, _, day, _, rfl⟩ := mem_storageRows.mp hrow
    rfl
  | storageDetail mons =>
    refine ⟨List.cons_ne_nil _ _, ?_⟩
    rintro row hrow
    obtain ⟨m, _, hm⟩ := List.mem_flatMap.mp hrow
    rcases List.mem_cons.mp hm with rfl | hm
    · rfl
    · obtain ⟨f, _, rfl⟩ := List.mem_map.mp hm
      rfl
  | inventory agents mons =>
    refine ⟨List.cons_ne_nil _ _, ?_⟩
    rintro row hrow
    rcases List.mem_append.mp hrow with hrow | hrow
    · obtain ⟨a, _, rfl⟩ := List.mem_map.mp hrow
      rfl
    · obtain ⟨m, _, rfl⟩ := List.mem_map.mp hrow
      rfl

/-! ### CSV -/

theorem csvCell_eq (v : Cell) : csvCell v = Csv.cell v.string.toList := by
  have hplain : Csv.plain v.string.toList
      = !v.string.toList.any (fun c => c == '"' || c == ',' || c == '\n') := by
    rw [Csv.plain, List.not_any_eq_all_not]
    congr 1
    funext c
    rw [Bool.eq_iff_iff]
    simp [and_assoc]
  rw [csvCell, Csv.cell, hplain]
  cases v.string.toList.any (fun c => c == '"' || c == ',' || c == '\n') <;> rfl

/-- The texts of a table, its heading first. -/
def cells (t : ReportTable) : List (List (List Char)) :=
  t.columns.map String.toList :: t.rows.map (fun r => r.map (fun c => c.string.toList))

theorem exportCsv_eq (doc : ReportDoc) :
    exportCsv locale doc = Csv.write (cells (toTable locale doc)) := by
  have hcells : csvCell = fun v => Csv.cell v.string.toList := funext csvCell_eq
  rw [exportCsv, Csv.write, cells, List.map_cons, List.map_map, hcells]
  simp only [Csv.line, List.map_map, Function.comp_def, Cell.string]

theorem esc_eq (s : String) : esc s = Markup.text s.toList := by
  rw [esc, Markup.text]
  congr 1
  funext c
  by_cases hamp : c = '&'
  · subst hamp
    rfl
  · by_cases hlt : c = '<'
    · subst hlt
      rfl
    · by_cases hgt : c = '>'
      · subst hgt
        rfl
      · rw [if_neg hamp, if_neg hlt, if_neg hgt, Markup.escape_eq_self hamp hlt hgt]

theorem html_eq (name : String) (body : List Char) :
    html name body = Markup.element name.toList body := by
  simp [html, Markup.element, Markup.opening, Markup.closing]

/-- A row of the HTML, as its reader sees it. -/
def rowTokens (name : String) (cells : List (List Char)) : List Markup.Token :=
  .tag "tr".toList
    :: cells.flatMap (fun c =>
        .tag name.toList :: c.map .char ++ [.tag ('/' :: name.toList)])
    ++ [.tag "/tr".toList]

theorem means_cells (name : String) (hname : '>' ∉ name.toList) (cells : List String) :
    Markup.Means (html "tr" (cells.flatMap fun c => html name (esc c)))
      (rowTokens name (cells.map String.toList)) := by
  rw [html_eq, rowTokens, List.flatMap_map]
  apply Markup.Means.element (by decide)
  apply Markup.means_flatMap
  intro c
  rw [html_eq, esc_eq]
  exact (Markup.means_text _).element hname

/-- **HTML.**  The tags of the table are those of its heading, its rows and its cells: no name of
    a monitor or a folder puts a tag of its own there, and each comes back as it was. -/
theorem detailTable_read (doc : ReportDoc) :
    Markup.read .text (detailTable locale doc)
      = some ([.tag "table".toList, .tag "thead".toList]
        ++ rowTokens "th" ((toTable locale doc).columns.map String.toList)
        ++ [.tag "/thead".toList, .tag "tbody".toList]
        ++ (toTable locale doc).rows.flatMap
            (fun r => rowTokens "td" (r.map (fun c => c.string.toList)))
        ++ [.tag "/tbody".toList, .tag "/table".toList]) := by
  have hhead := (means_cells "th" (by decide) (toTable locale doc).columns).element
    (show '>' ∉ "thead".toList by decide)
  have hrow : ∀ r : List Cell,
      Markup.Means (html "tr" (r.flatMap fun c => html "td" (esc c.string)))
        (rowTokens "td" (r.map (fun c => c.string.toList))) := by
    intro r
    have hcells := means_cells "td" (by decide) (r.map Cell.string)
    rwa [List.flatMap_map, List.map_map] at hcells
  have hbody := (Markup.means_flatMap hrow (toTable locale doc).rows).element
    (show '>' ∉ "tbody".toList by decide)
  have htable := (hhead.append hbody).element (show '>' ∉ "table".toList by decide)
  have hread := htable.read
  simp only [detailTable, html_eq] at hread ⊢
  rw [hread]
  simp

end Argus.Reports
