import Argus.Backup.Bundle
import Mathlib.Data.List.Nodup

namespace Argus.Backup

/-!
# Backup — the streaming export

`exportDatabasesToFile` writes a bundle piece by piece, one row at a time, and puts every
brace, bracket and comma itself.

* `Output` — the file so far with the count of bytes, which is the length of the text in UTF-8
  after every write.
* `foldl_separated` — a loop that writes a comma in front of every element but the first.
* `exportDatabasesToFile_text` — the file holds what `JSON.stringify` makes of the bundle that
  `exportDatabases` builds in memory, and `JSON.parse` reads that bundle back from it.
-/

/-! ### The bundle as a JSON value -/

def rowsToJson (data : Rows) : Json :=
  .obj (data.map (fun table => (table.1, .arr (table.2.map Row.json))))

/-- The bundle as `JSON.stringify` sees it: a field that is `undefined` is left out. -/
def BackupBundle.toJson (b : BackupBundle) : Json :=
  .obj ([("version", .num b.version), ("createdAt", .str b.createdAt)]
    ++ b.scope.toList.map (fun scope => ("scope", .str scope.name))
    ++ b.master.toList.map (fun data => ("master", rowsToJson data))
    ++ b.telemetry.toList.map (fun data => ("telemetry", rowsToJson data)))

def Row.ofJson (j : Json) : Option Row := if h : j.wf = true then some ⟨j, h⟩ else none

def tableOfJson : String × Json → Option (String × List Row)
  | (name, .arr xs) => (xs.mapM Row.ofJson).map (fun rows => (name, rows))
  | _ => none

def rowsOfJson : Json → Option Rows
  | .obj fields => fields.mapM tableOfJson
  | _ => none

def BackupScope.ofName (s : String) : Option BackupScope :=
  [BackupScope.all, .config, .data].find? (fun scope => scope.name == s)

/-- A parsed value as the bundle that `importDatabases` takes. -/
def BackupBundle.ofJson (j : Json) : Option BackupBundle :=
  match j.field "version", j.field "createdAt" with
  | some (.num version), some (.str createdAt) => do
    let scope ← match j.field "scope" with
      | some (.str s) => (BackupScope.ofName s).map some
      | some _ => none
      | none => some none
    let master ← match j.field "master" with
      | some data => (rowsOfJson data).map some
      | none => some none
    let telemetry ← match j.field "telemetry" with
      | some data => (rowsOfJson data).map some
      | none => some none
    return ⟨version, createdAt, scope, master, telemetry⟩
  | _, _ => none

/-! ### Writing -/

/-- The file so far, and the bytes counted. -/
structure Output where
  text : String
  bytes : ℕ
  counted : bytes = text.utf8ByteSize

namespace Output

def empty : Output := ⟨"", 0, rfl⟩

/-- `write`. -/
def write (o : Output) (s : String) : Output where
  text := o.text ++ s
  bytes := o.bytes + s.utf8ByteSize
  counted := by rw [String.utf8ByteSize_append, o.counted]

end Output

/-- `JSON.stringify` of a string. -/
def stringifyString (s : String) : String := (Json.str s).stringify

/-- What a loop writes in front of its element `i`. -/
def separator (i : ℕ) : String := if i = 0 then "" else ","

/-- The inner loop of `writeDb`. -/
def writeRows (rows : List Row) (o : Output) : Output :=
  rows.zipIdx.foldl (fun o p => o.write (separator p.2 ++ p.1.json.stringify)) o

/-- The body of the outer loop of `writeDb`. -/
def writeTable (db : Databases) (o : Output) (p : TableName × ℕ) : Output :=
  (writeRows (db p.1) (o.write (separator p.2 ++ stringifyString p.1.name ++ ":["))).write "]"

/-- `writeDb`. -/
def writeDb (db : Databases) (order : List TableName) (o : Output) : Output :=
  (order.zipIdx.foldl (writeTable db) (o.write "\x7b")).write "\x7d"

/-- `exportDatabasesToFile`: the file and the count it returns. -/
def exportDatabasesToFile (db : Databases) (createdAt : String) (scope : BackupScope) : Output :=
  let o := Output.empty.write ("\x7b\"version\":1,\"createdAt\":" ++ stringifyString createdAt
    ++ ",\"scope\":" ++ stringifyString scope.name)
  let o := if scope ≠ .data then writeDb db masterTableOrder (o.write ",\"master\":") else o
  let o := if scope ≠ .config then writeDb db telemetryTableOrder (o.write ",\"telemetry\":") else o
  o.write "\x7d"

/-! ### What the loops write -/

/-- The characters of the file. -/
def Output.chars (o : Output) : List Char := o.text.toList

theorem chars_write (o : Output) (s : String) : (o.write s).chars = o.chars ++ s.toList :=
  String.toList_append

/-- A loop that writes its separator in front of each element. -/
theorem foldl_separated {α : Type} {step : Output → α × ℕ → Output} {body : α → List Char}
    (hstep : ∀ o x i, (step o (x, i)).chars = o.chars ++ (separator i).toList ++ body x)
    (xs : List α) (o : Output) :
    (xs.zipIdx.foldl step o).chars = o.chars ++ Json.separated body xs := by
  have htail : ∀ (xs : List α) (n : ℕ) (o : Output), ((xs.zipIdx (n + 1)).foldl step o).chars
      = o.chars ++ xs.flatMap (fun x => ',' :: body x) := by
    intro xs
    induction xs with
    | nil => intro n o; simp
    | cons x xs ih =>
      intro n o
      rw [List.zipIdx_cons, List.foldl_cons, ih, hstep]
      simp [separator]
  cases xs with
  | nil => simp [Json.separated]
  | cons x xs =>
    rw [List.zipIdx_cons, List.foldl_cons, htail, hstep]
    simp [separator, Json.separated]

theorem chars_writeRows (rows : List Row) (o : Output) :
    (writeRows rows o).chars = o.chars ++ Json.separated (fun r => r.json.chars) rows := by
  refine foldl_separated (fun o r i => ?_) rows o
  simp [chars_write, Json.stringify]

/-- A table is written as a field of the database's object. -/
theorem chars_writeTable (db : Databases) (o : Output) (t : TableName) (i : ℕ) :
    (writeTable db o (t, i)).chars = o.chars ++ (separator i).toList
      ++ Json.member (t.name, .arr ((db t).map Row.json)) := by
  rw [writeTable, chars_write, chars_writeRows, chars_write]
  simp [stringifyString, Json.stringify, Json.member, Json.chars_arr, Json.separated_map,
    Json.chars, Function.comp_def]

/-- A database is written as the object that `dumpTables` builds. -/
theorem chars_writeDb (db : Databases) (order : List TableName) (o : Output) :
    (writeDb db order o).chars = o.chars ++ (rowsToJson (dumpTables db order)).chars := by
  rw [writeDb, chars_write, foldl_separated (chars_writeTable db), chars_write]
  simp [rowsToJson, dumpTables, Json.chars_obj, Json.separated_map, Function.comp_def]

/-- The file is the text of the bundle, character by character. -/
theorem chars_exportDatabasesToFile (db : Databases) (createdAt : String)
    (scope : BackupScope) :
    (exportDatabasesToFile db createdAt scope).chars
      = (exportDatabases db createdAt scope).toJson.chars := by
  have hempty : Output.empty.chars = [] := rfl
  have hversion : (Json.num bundleVersion).chars = ['1'] := by
    rw [Json.chars]
    rfl
  cases scope <;>
    simp [exportDatabasesToFile, exportDatabases, BackupBundle.toJson, chars_write, hempty,
      chars_writeDb, Json.chars_obj, Json.separated, Json.member, Json.quote, Json.escape,
      hversion, stringifyString, Json.stringify]

/-! ### Reading the file back -/

theorem wf_rowsToJson (db : Databases) {order : List TableName} (hnodup : order.Nodup) :
    (rowsToJson (dumpTables db order)).wf = true := by
  have hnames : ((dumpTables db order).map Prod.fst).Nodup := by
    rw [dumpTables, List.map_map]
    exact List.Nodup.map name_injective hnodup
  simp only [rowsToJson, Json.wf, Json.wfMembers_eq, Bool.and_eq_true, decide_eq_true_eq,
    List.map_map, List.all_map, List.all_eq_true]
  refine ⟨hnames, fun table _ => ?_⟩
  show (Json.arr (table.2.map Row.json)).wf = true
  rw [Json.wf, Json.wfElems_eq, List.all_map, List.all_eq_true]
  exact fun r _ => r.wf

theorem wf_export (db : Databases) (createdAt : String) (scope : BackupScope) :
    (exportDatabases db createdAt scope).toJson.wf = true := by
  have hmaster := wf_rowsToJson db (show masterTableOrder.Nodup by decide)
  have htelemetry := wf_rowsToJson db (show telemetryTableOrder.Nodup by decide)
  cases scope <;>
    simp [exportDatabases, BackupBundle.toJson, Json.wf, Json.wfMembers, hmaster, htelemetry]

theorem mapM_map_some {α β : Type} {f : β → Option α} {g : α → β} (h : ∀ x, f (g x) = some x)
    (xs : List α) : (xs.map g).mapM f = some xs := by
  induction xs with
  | nil => rfl
  | cons x xs ih => simp [h, ih]

theorem rowsOfJson_rowsToJson (data : Rows) : rowsOfJson (rowsToJson data) = some data := by
  have hrow : ∀ r : Row, Row.ofJson r.json = some r := fun r => dif_pos r.wf
  exact mapM_map_some (fun table => by simp [tableOfJson, mapM_map_some hrow]) data

theorem ofJson_export (db : Databases) (createdAt : String) (scope : BackupScope) :
    BackupBundle.ofJson (exportDatabases db createdAt scope).toJson
      = some (exportDatabases db createdAt scope) := by
  cases scope <;>
    simp [exportDatabases, BackupBundle.toJson, BackupBundle.ofJson, Json.field,
      rowsOfJson_rowsToJson, List.lookup_cons, BackupScope.ofName, BackupScope.name]

/-- **The file is the bundle.**  The text that is written is that of the bundle built in
    memory, it is read back as this bundle, and the count is its length in UTF-8. -/
theorem exportDatabasesToFile_text (db : Databases) (createdAt : String) (scope : BackupScope) :
    (exportDatabasesToFile db createdAt scope).text
        = (exportDatabases db createdAt scope).toJson.stringify ∧
      (Json.parse (exportDatabasesToFile db createdAt scope).text).bind BackupBundle.ofJson
        = some (exportDatabases db createdAt scope) ∧
      (exportDatabasesToFile db createdAt scope).bytes
        = (exportDatabases db createdAt scope).toJson.stringify.utf8ByteSize := by
  have htext : (exportDatabasesToFile db createdAt scope).text
      = (exportDatabases db createdAt scope).toJson.stringify := by
    rw [← String.ofList_toList (s := (exportDatabasesToFile db createdAt scope).text)]
    exact congrArg String.ofList (chars_exportDatabasesToFile db createdAt scope)
  refine ⟨htext, ?_, ?_⟩
  · rw [htext, Json.parse_stringify (wf_export db createdAt scope), Option.bind_some,
      ofJson_export]
  · rw [(exportDatabasesToFile db createdAt scope).counted, htext]

end Argus.Backup
