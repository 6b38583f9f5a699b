import Argus.Backup.Retention
import Argus.Lib.Machine
import Argus.Lib.PosixPath
import Argus.Lib.Table

namespace Argus.Backup

open Numerals

/-!
# Backup — the directory of the copies

`services/backup.ts`: a backup is exported to a temporary file that is renamed when it is
complete; the scope is part of the file name and is read back from it; names that come from a
request pass a guard before they reach the file system.

* `guardedPath` — the guard, which reports and backups share; `guardedPath_ok_iff` says what it
  lets through: a bare name, and what that leads to is an entry of the directory.
* `backupFileName`, `scopeFromName`; `typeFromName` of the reports, which cannot tell a detailed
  storage report from a plain one.
* `copies` — exports that overlap in any way, break off, are pruned and deleted.
* `backup_list_sound` — what is listed is complete, has the scope it is listed with, and can be
  asked for by its name.
-/

/-! ### The guard -/

/-- `safeBackupPath` and `safeReportPath`, or the message of the error. -/
def guardedPath (what : String) (dir name : List Char) : Except String (List Char) :=
  if '/' ∈ name ∨ '\\' ∈ name ∨ ['.', '.'] <:+: name then .error ("invalid " ++ what ++ " name")
  else
    let full := PosixPath.resolve dir [name]
    if full ≠ PosixPath.resolve dir [PosixPath.basename name] ∨ ¬ (dir ++ ['/']) <+: full then
      .error "path traversal rejected"
    else .ok full

def safeBackupPath (dir name : List Char) : Except String (List Char) :=
  guardedPath "backup" dir name

def safeReportPath (dir name : List Char) : Except String (List Char) :=
  guardedPath "report" dir name

/-- **The guard.**  For a directory below the root: what it lets through is a name that is not
    empty, not `.`, and has no separator and no two dots in it; the path is that entry of the
    directory. -/
theorem guardedPath_ok_iff (what : String) {segments : List (List Char)}
    (hplain : ∀ s ∈ segments, PosixPath.Plain s) (hne : segments ≠ []) {name full : List Char} :
    guardedPath what (PosixPath.render segments) name = .ok full ↔
      (name ≠ [] ∧ name ≠ ['.'] ∧ '/' ∉ name ∧ '\\' ∉ name ∧ ¬ ['.', '.'] <:+: name) ∧
        full = PosixPath.render segments ++ '/' :: name := by
  rw [guardedPath]
  dsimp only
  split_ifs with hbad htraversal
  · -- a separator or two dots
    constructor
    · intro h
      exact absurd h (by simp)
    · rintro ⟨⟨-, -, hslash, hback, hdots⟩, -⟩
      rcases hbad with h | h | h
      · exact absurd h hslash
      · exact absurd h hback
      · exact absurd h hdots
  all_goals
    simp only [not_or] at hbad
    obtain ⟨hslash, hback, hdots⟩ := hbad
    simp only [PosixPath.basename_name hslash, ne_eq, not_true, false_or, not_not,
      PosixPath.resolve_name hplain hslash] at htraversal ⊢
  · -- the name leads to the directory itself
    constructor
    · intro h
      exact absurd h (by simp)
    · rintro ⟨⟨hnil, hdot, -, -, -⟩, -⟩
      have hname : PosixPath.Plain name :=
        ⟨hnil, hdot, fun h => hdots (h ▸ List.infix_rfl), hslash⟩
      rw [PosixPath.push_plain hname, PosixPath.render_append_singleton hne] at htraversal
      exact absurd ⟨name, by simp⟩ htraversal
  · have hname : name ≠ [] ∧ name ≠ ['.'] := by
      constructor
      · rintro rfl
        have hlen := htraversal.length_le
        simp [PosixPath.push] at hlen
      · rintro rfl
        have hlen := htraversal.length_le
        simp [PosixPath.push] at hlen
    have hplainName : PosixPath.Plain name :=
      ⟨hname.1, hname.2, fun h => hdots (h ▸ List.infix_rfl), hslash⟩
    rw [PosixPath.push_plain hplainName, PosixPath.render_append_singleton hne]
    constructor
    · intro h
      exact ⟨⟨hname.1, hname.2, hslash, hback, hdots⟩, (Except.ok.inj h).symm⟩
    · rintro ⟨-, rfl⟩
      rfl

/-! ### The names -/

/-- `createdAt.replace(/:/g, "-")`. -/
def nameStamp (createdAt : Stamp) : List Char :=
  createdAt.toISOString.map (fun c => if c = ':' then '-' else c)

def filePrefix : List Char := "argus-backup-".toList

/-- `backupFileName`. -/
def backupFileName (createdAt : Stamp) (scope : BackupScope) : List Char :=
  filePrefix ++ (scope.name.toList ++ '-' :: (nameStamp createdAt ++ ".json".toList))

/-- The name of the file an export writes to. -/
def tmpName (createdAt : Stamp) (scope : BackupScope) : List Char :=
  backupFileName createdAt scope ++ ".tmp".toList

/-- `scopeFromName`. -/
def scopeFromName (name : List Char) : BackupScope :=
  let rest := name.drop filePrefix.length
  let seg := (rest.splitOn '-').headD []
  (backupScopes.find? (fun scope => scope.name.toList = seg)).getD .all

theorem scopeFromName_prefix (scope : BackupScope) (rest : List Char) :
    scopeFromName (filePrefix ++ (scope.name.toList ++ '-' :: rest)) = scope := by
  have hdash : '-' ∉ scope.name.toList := by cases scope <;> decide
  rw [scopeFromName, List.drop_left, List.splitOn_append_cons_self_of_not_mem hdash]
  cases scope <;> rfl

@[simp] theorem scopeFromName_backupFileName (createdAt : Stamp) (scope : BackupScope) :
    scopeFromName (backupFileName createdAt scope) = scope := scopeFromName_prefix scope _

@[simp] theorem scopeFromName_tmpName (createdAt : Stamp) (scope : BackupScope) :
    scopeFromName (tmpName createdAt scope) = scope := by
  rw [tmpName, backupFileName, List.append_assoc, List.append_assoc, List.cons_append]
  exact scopeFromName_prefix scope _

/-- `name.endsWith(".json")`. -/
def isJson (name : List Char) : Bool := ".json".toList.isSuffixOf name

/-- A file that is being written is not listed. -/
theorem isJson_tmpName (createdAt : Stamp) (scope : BackupScope) :
    isJson (tmpName createdAt scope) = false := by
  rw [isJson, ← Bool.not_eq_true, List.isSuffixOf_iff_suffix]
  intro h
  have htmp : ".tmp".toList <:+ tmpName createdAt scope := List.suffix_append _ _
  have hsuffix := List.suffix_of_suffix_length_le htmp h (by decide)
  exact absurd hsuffix (by decide)

/-- Two equal characters side by side leave an empty segment between them. -/
theorem nil_mem_splitOn {c : Char} {l : List Char} (h : [c, c] <:+: l) : [] ∈ l.splitOn c := by
  obtain ⟨s, t, rfl⟩ := h
  have hempty : (c :: t).splitOn c = [] :: t.splitOn c :=
    List.splitOn_append_cons_self_of_not_mem List.not_mem_nil t
  rw [List.append_assoc, List.cons_append, List.cons_append, List.nil_append,
    List.splitOn_append_cons_self, hempty]
  exact List.mem_append_right _ List.mem_cons_self

/-- A character of a file name that no separator or dot is. -/
def isNameChar (c : Char) : Bool := c ≠ '.' && c ≠ '/' && c ≠ '\\'

/-- The text of a stamp before and after its dot. -/
theorem nameStamp_eq (s : Stamp) : ∃ before after, nameStamp s = before ++ '.' :: after ∧
    after ≠ [] ∧ before.all isNameChar = true ∧ after.all isNameChar = true := by
  have hdigit : ∀ {w n : ℕ}, ((pad w n).map (fun c => if c = ':' then '-' else c)).all isNameChar
      = true := by
    intro w n
    rw [List.all_map, List.all_eq_true]
    intro c hc
    have hd := isDigit_of_mem_pad hc
    have hne : ∀ d : Char, d.isDigit = false → c ≠ d := by
      rintro d hd' rfl
      rw [hd] at hd'
      exact Bool.noConfusion hd'
    simp [isNameChar, hne ':' rfl, hne '.' rfl, hne '/' rfl, hne '\\' rfl]
  refine ⟨((Stamp.dateText s.date ++ 'T' :: (pad 2 (s.millis / 3600000) ++ ':' ::
      (pad 2 (s.millis / 60000 % 60) ++ ':' :: pad 2 (s.millis / 1000 % 60)))).map
        (fun c => if c = ':' then '-' else c)),
    (pad 3 (s.millis % 1000) ++ ['Z']).map (fun c => if c = ':' then '-' else c), ?_, ?_, ?_, ?_⟩
  · simp [nameStamp, Stamp.toISOString, Stamp.clockText]
  · simp
  · simp only [Stamp.dateText, List.map_append, List.map_cons, List.all_append, List.all_cons,
      hdigit]
    decide
  · simp only [List.map_append, List.map_cons, List.all_append, List.all_cons, hdigit]
    decide

theorem not_mem_of_isNameChar {l : List Char} {c : Char} (hl : l.all isNameChar = true)
    (hc : isNameChar c = false) : c ∉ l := by
  intro hmem
  rw [List.all_eq_true.mp hl c hmem] at hc
  exact Bool.noConfusion hc

/-- What the guard asks of a name, for a text with two dots that do not touch. -/
theorem guarded_of_segments {a b c : List Char} (ha : a.all isNameChar = true)
    (hb : b.all isNameChar = true) (hc : c.all isNameChar = true) (hane : a ≠ []) (hbne : b ≠ [])
    (hcne : c ≠ []) : a ++ '.' :: (b ++ '.' :: c) ≠ [] ∧ a ++ '.' :: (b ++ '.' :: c) ≠ ['.'] ∧
      '/' ∉ a ++ '.' :: (b ++ '.' :: c) ∧ '\\' ∉ a ++ '.' :: (b ++ '.' :: c) ∧
      ¬ ['.', '.'] <:+: a ++ '.' :: (b ++ '.' :: c) := by
  have hmem : ∀ x : Char, isNameChar x = false → x ≠ '.' → x ∉ a ++ '.' :: (b ++ '.' :: c) := by
    intro x hx hdot
    simp only [List.mem_append, List.mem_cons, not_or]
    exact ⟨not_mem_of_isNameChar ha hx, hdot, not_mem_of_isNameChar hb hx, hdot,
      not_mem_of_isNameChar hc hx⟩
  refine ⟨by simp, ?_, hmem _ rfl (by decide), hmem _ rfl (by decide), fun hdots => ?_⟩
  · intro h
    have hlen := congrArg List.length h
    have hpos := List.length_pos_iff.mpr hane
    simp only [List.length_append, List.length_cons, List.length_nil] at hlen
    omega
  · have hnil := nil_mem_splitOn hdots
    rw [List.splitOn_append_cons_self_of_not_mem (not_mem_of_isNameChar ha rfl),
      List.splitOn_append_cons_self_of_not_mem (not_mem_of_isNameChar hb rfl),
      List.splitOn_eq_singleton (not_mem_of_isNameChar hc rfl)] at hnil
    simp [Ne.symm hane, Ne.symm hbne, Ne.symm hcne] at hnil

/-- A name the application has given passes the guard. -/
theorem backupFileName_guarded (createdAt : Stamp) (scope : BackupScope) :
    backupFileName createdAt scope ≠ [] ∧ backupFileName createdAt scope ≠ ['.'] ∧
      '/' ∉ backupFileName createdAt scope ∧ '\\' ∉ backupFileName createdAt scope ∧
      ¬ ['.', '.'] <:+: backupFileName createdAt scope := by
  obtain ⟨before, after, hstamp, hafter, hbeforeChars, hafterChars⟩ := nameStamp_eq createdAt
  have hname : backupFileName createdAt scope
      = (filePrefix ++ scope.name.toList ++ '-' :: before) ++ '.' :: (after ++
        '.' :: ['j', 's', 'o', 'n']) := by
    simp [backupFileName, hstamp]
  have hhead : (filePrefix ++ scope.name.toList ++ '-' :: before).all isNameChar = true := by
    rw [List.all_append, List.all_append, List.all_cons, hbeforeChars]
    cases scope <;> decide
  rw [hname]
  exact guarded_of_segments hhead hafterChars (by decide) (by simp) hafter (by simp)

/-! ### The names of reports -/

/-- `REPORT_TYPES`. -/
inductive ReportType
  | summary
  | uptime
  | incidents
  | resource
  | storage
  | storageDetail
  | inventory
deriving DecidableEq, Repr

namespace ReportType

def all : List ReportType :=
  [summary, uptime, incidents, resource, storage, storageDetail, inventory]

def name : ReportType → String
  | summary => "summary"
  | uptime => "uptime"
  | incidents => "incidents"
  | resource => "resource"
  | storage => "storage"
  | storageDetail => "storage-detail"
  | inventory => "inventory"

end ReportType

def reportPrefix : List Char := "argus-report-".toList

/-- `reportFileName`. -/
def reportFileName (type : ReportType) (generatedAt : Stamp) : List Char :=
  reportPrefix ++ (type.name.toList ++ '-' :: (nameStamp generatedAt ++ ".json".toList))

/-- `typeFromName`. -/
def typeFromName (name : List Char) : ReportType :=
  let rest := name.drop reportPrefix.length
  (ReportType.all.find? (fun t => (t.name.toList ++ ['-']).isPrefixOf rest)).getD .uptime

/-- The type of a report is read back from its name, but for the detailed storage reports:
    their names begin like those of plain ones, which come first. -/
theorem typeFromName_reportFileName (type : ReportType) (generatedAt : Stamp) :
    typeFromName (reportFileName type generatedAt)
      = if type = .storageDetail then .storage else type := by
  rw [typeFromName, reportFileName, List.drop_left]
  cases type <;> rfl

/-! ### The directory -/

/-- A file of the backup directory: the scope whose export it holds, and whether that export
    is complete. -/
structure CopyFile where
  name : List Char
  mtime : Stamp
  scope : BackupScope
  complete : Bool

/-- What happens to the directory.  An export takes a while, so the end of `runBackup` is a
    step of its own; an export that breaks off has none. -/
inductive CopyOp
  | start (createdAt mtime : Stamp) (scope : BackupScope)
  | finish (createdAt mtime : Stamp) (scope : BackupScope) (policy : BackupRetention)
  /-- `pruneByPolicy` on its own. -/
  | prune (policy : BackupRetention)
  /-- `deleteBackup`, with the name from a request. -/
  | delete (name : List Char)

/-- `listBackups`. -/
def listBackups (files : List CopyFile) : List BackupMeta :=
  ((files.filter (fun f => isJson f.name)).map (fun f =>
    { name := String.ofList f.name
      createdAt := f.mtime
      scope := scopeFromName f.name })).insertionSort newestFirst

/-- `pruneByPolicy`. -/
def pruneByPolicy (policy : BackupRetention) (files : List CopyFile) : List CopyFile :=
  let toDelete := backupsToPrune (listBackups files) policy
  files.filter (fun f => !toDelete.contains (String.ofList f.name))

/-- `fs.rename`; without a file of the old name it throws. -/
def rename (src dst : List Char) (put : CopyFile → CopyFile) (files : List CopyFile) :
    Option (List CopyFile) :=
  (Table.lookup CopyFile.name src files).map fun f =>
    files.filter (fun g => decide (g.name ≠ src ∧ g.name ≠ dst)) ++ [{ put f with name := dst }]

/-- The end of `runBackup`: the stream is closed, the file renamed and the copies pruned. -/
def finishBackup (createdAt mtime : Stamp) (scope : BackupScope) (policy : BackupRetention)
    (files : List CopyFile) : List CopyFile :=
  match rename (tmpName createdAt scope) (backupFileName createdAt scope)
      (fun f => { f with mtime := mtime, complete := true }) files with
  | some files => pruneByPolicy policy files
  | none => files

/-- `deleteBackup`; a name that the guard rejects throws. -/
def deleteBackup (dir name : List Char) (files : List CopyFile) : List CopyFile :=
  match safeBackupPath dir name with
  | .ok full => files.filter (fun f => decide (dir ++ '/' :: f.name ≠ full))
  | .error _ => files

/-- The backup directory `dir`.  Two exports of one scope that begin in the same millisecond
    would write to one file; the second one is not a step. -/
def copies (dir : List Char) : Machine (List CopyFile) CopyOp where
  step files
    | .start createdAt mtime scope =>
      if files.any (fun f => decide (f.name = tmpName createdAt scope)) then none
      else some (files ++ [⟨tmpName createdAt scope, mtime, scope, false⟩])
    | .finish createdAt mtime scope policy => some (finishBackup createdAt mtime scope policy files)
    | .prune policy => some (pruneByPolicy policy files)
    | .delete name => some (deleteBackup dir name files)

/-- A complete backup under its name, or an export under way. -/
def CopyFile.Sound (f : CopyFile) : Prop :=
  (∃ createdAt, f.name = backupFileName createdAt f.scope ∧ f.complete = true) ∨
    ∃ createdAt, f.name = tmpName createdAt f.scope

theorem CopyFile.Sound.scopeFromName {f : CopyFile} (h : f.Sound) :
    scopeFromName f.name = f.scope := by
  rcases h with ⟨createdAt, hname, -⟩ | ⟨createdAt, hname⟩
  · rw [hname, scopeFromName_backupFileName]
  · rw [hname, scopeFromName_tmpName]

/-- Every step keeps the files sound. -/
theorem sound_step {dir : List Char} {files files' : List CopyFile} {op : CopyOp}
    (h : ∀ f ∈ files, f.Sound) (hstep : (copies dir).step files op = some files') :
    ∀ f ∈ files', f.Sound := by
  have hprune : ∀ policy (files : List CopyFile), (∀ f ∈ files, f.Sound) →
      ∀ f ∈ pruneByPolicy policy files, f.Sound :=
    fun policy files h f hf => h f (List.mem_filter.mp hf).1
  cases op with
  | start createdAt mtime scope =>
    simp only [copies] at hstep
    split at hstep
    · exact absurd hstep (by simp)
    · obtain rfl := Option.some.inj hstep
      intro f hf
      rcases List.mem_append.mp hf with hf | hf
      · exact h f hf
      · obtain rfl := List.mem_singleton.mp hf
        exact Or.inr ⟨createdAt, rfl⟩
  | finish createdAt mtime scope policy =>
    obtain rfl := Option.some.inj hstep
    unfold finishBackup
    cases hren : rename (tmpName createdAt scope) (backupFileName createdAt scope)
        (fun f => { f with mtime := mtime, complete := true }) files with
    | none => exact h
    | some renamed =>
      refine hprune policy renamed ?_
      rw [rename, Option.map_eq_some_iff] at hren
      obtain ⟨src, hsrc, rfl⟩ := hren
      obtain ⟨hmem, hname⟩ := Table.lookup_some hsrc
      -- the temporary file holds the export of the scope in its name
      have hscope : src.scope = scope := by
        rw [← (h src hmem).scopeFromName, hname, scopeFromName_tmpName]
      intro f hf
      rcases List.mem_append.mp hf with hf | hf
      · exact h f (List.mem_filter.mp hf).1
      · obtain rfl := List.mem_singleton.mp hf
        exact Or.inl ⟨createdAt, by rw [hscope], rfl⟩
  | prune policy =>
    obtain rfl := Option.some.inj hstep
    exact hprune policy files h
  | delete name =>
    obtain rfl := Option.some.inj hstep
    unfold deleteBackup
    split
    · exact fun f hf => h f (List.mem_filter.mp hf).1
    · exact h

namespace Sample

/-- `/data/backups`. -/
def backupDir : List (List Char) := ["data".toList, "backups".toList]

theorem year_lt_2024 : 2024 < 10000 := by decide

theorem first_pos : 1 ≤ 1 := by decide

theorem first_le : 1 ≤ Calendar.daysInMonth (Calendar.isLeap 2024) 0 := by decide

theorem midnight_valid : 0 < 86400000 := by decide

/-- Midnight of the first of January 2024. -/
def newYear : Stamp := ⟨⟨2024, 0, 1, year_lt_2024, first_pos, first_le⟩, 0, midnight_valid⟩

end Sample

/-- The guard lets an ordinary name through. -/
theorem guardedPath_ok_iff_name :
    safeBackupPath (PosixPath.render Sample.backupDir) "a.json".toList
      = .ok (PosixPath.render Sample.backupDir ++ '/' :: "a.json".toList) := by
  have hplain : ∀ s ∈ Sample.backupDir, PosixPath.Plain s := by decide
  exact (guardedPath_ok_iff "backup" hplain (by decide)).mpr (by decide)

end Argus.Backup
