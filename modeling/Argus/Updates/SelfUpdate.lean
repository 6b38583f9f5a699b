import Argus.Lib.Files
import Argus.Lib.GoGlob
import Mathlib.Data.Nat.Digits.Defs

namespace Argus.SelfUpdate

open Files

/-!
# The agent replaces its own binary

`update.go`: the agent downloads a binary next to the one it runs, and renames it over that one.
On Windows the running binary cannot be replaced, so it is moved aside first and moved back when
the new one cannot take its place.

* `apply`, `download`, `swap` — the update, for every outcome of the operations it performs.
* `Safe` — the old binary stays unless the update goes through, which puts the whole new one in its
  place, and no staged file is left behind.
* `Lost` — on Windows the path of the binary may be left without a file.
* `safe_iff` — the update is safe in all other cases.
-/

/-! ### Paths -/

/-- The folders below the volume, and the name of the file. -/
structure FilePath where
  dir : List String
  base : String
deriving DecidableEq, Repr

/-- `path + text`. -/
def FilePath.plus (p : FilePath) (text : String) : FilePath := ⟨p.dir, p.base ++ text⟩

/-- `os.CreateTemp(filepath.Dir(exePath), ".argus-agent-update-*")`, for the number it chose. -/
def stagedPath (exePath : FilePath) (random : ℕ) : FilePath :=
  ⟨exePath.dir, ".argus-agent-update-" ++ random.repr⟩

/-- `exePath.<time>.old`. -/
def asidePath (exePath : FilePath) (now : ℤ) : FilePath :=
  exePath.plus ("." ++ toString now ++ ".old")

/-- Whether `filepath.Glob` can find a file, part by part. -/
def globPath (pattern p : FilePath) : Bool :=
  (pattern.dir.length == p.dir.length) &&
    (pattern.dir.zip p.dir).all (fun d => GoGlob.matchName d.1 d.2) &&
    GoGlob.matchName pattern.base p.base

/-! ### The update -/

/-- The content of a file, by its bytes. -/
abbrev Bytes := List UInt8

abbrev FileSystem := Disk FilePath Bytes

structure Response where
  statusCode : ℕ
  body : Bytes

structure Request where
  url : String
  /-- The header `x-argus-key`. -/
  key : Option String

/-- What the operating system and the network make of each operation. -/
structure Outcomes where
  /-- `url.Parse`: the scheme. -/
  parseURL : String → Except String String
  executable : Outcome
  evalSymlinks : Outcome
  newRequest : Outcome
  httpDo : Request → Except String Response
  createTemp : Outcome
  random : ℕ
  copy : Outcome
  /-- How much of the body is on disk when the copy fails. -/
  copied : ℕ
  close : Outcome
  /-- How much of the body is on disk when closing fails. -/
  flushed : ℕ
  /-- `os.Remove` of the staged file, of which a run makes at most one. -/
  removeStaged : Outcome
  chmod : Outcome
  /-- `time.Now().UnixNano()`. -/
  now : ℤ
  moveAside : Outcome
  install : Outcome
  rollback : Outcome
  /-- Whether a file that the pattern matches is found and removed. -/
  swept : FilePath → Bool
  removeLegacy : Outcome

/-- The errors of `Apply`; `ErrUpdated` is no failure. -/
inductive UpdateError
  | updated
  | failed (message : String)
deriving DecidableEq, Repr

/-- The quotes of `%q` are all that a scheme needs. -/
def validateURL (parse : String → Except String String) (raw : String) : Except String Unit :=
  if raw = "" then .error "update url is empty"
  else match parse raw with
    | .error err => .error ("parse update url: " ++ err)
    | .ok scheme =>
      if scheme ≠ "http" ∧ scheme ≠ "https" then
        .error ("unsupported update url scheme \"" ++ scheme ++ "\" (want http or https)")
      else .ok ()

def updateRequest (downloadURL key : String) : Request :=
  ⟨downloadURL, if key = "" then none else some key⟩

section

variable (o : Outcomes)

def download (fs : FileSystem) (exePath : FilePath) (downloadURL key : String) :
    Except String FilePath × FileSystem :=
  if o.newRequest.fails then (.error ("build update request: " ++ o.newRequest.cause), fs)
  else match o.httpDo (updateRequest downloadURL key) with
    | .error err => (.error ("download update: " ++ err), fs)
    | .ok resp =>
      if resp.statusCode / 100 ≠ 2 then
        (.error ("download update: status " ++ toString resp.statusCode), fs)
      else
        let tmpPath := stagedPath exePath o.random
        -- the file that is made is a new one
        if o.createTemp.fails || (fs tmpPath).isSome then
          (.error ("create staging file: " ++ o.createTemp.cause), fs)
        else if o.copy.fails then
          (.error ("write staged binary: " ++ o.copy.cause),
            remove o.removeStaged (write fs tmpPath (resp.body.take o.copied)) tmpPath)
        else if o.close.fails then
          (.error ("close staged binary: " ++ o.close.cause),
            remove o.removeStaged (write fs tmpPath (resp.body.take o.flushed)) tmpPath)
        else (.ok tmpPath, write fs tmpPath resp.body)

/-- The files that match `exePath.*.old`, and the one of the fixed name. -/
def sweep (fs : FileSystem) (exePath : FilePath) : FileSystem :=
  remove o.removeLegacy
    (removeAll (fun p => globPath (exePath.plus ".*.old") p && o.swept p) fs) (exePath.plus ".old")

def swap (windows : Bool) (fs : FileSystem) (tmp exePath : FilePath) :
    Except String Unit × FileSystem :=
  if windows then
    let old := asidePath exePath o.now
    match rename o.moveAside fs exePath old with
    | .error err => (.error ("move running binary aside: " ++ err), fs)
    | .ok aside =>
      match rename o.install aside tmp exePath with
      | .error err =>
        -- the error of the way back is dropped
        (.error ("install new binary: " ++ err),
          (rename o.rollback aside old exePath).toOption.getD aside)
      | .ok installed => (.ok (), sweep o installed exePath)
  else
    match rename o.install fs tmp exePath with
    | .error err => (.error ("install new binary: " ++ err), fs)
    | .ok installed => (.ok (), installed)

/-- `Apply`; it does not read the version. -/
def apply (windows : Bool) (fs : FileSystem) (exePath : FilePath)
    (downloadURL key _version : String) : UpdateError × FileSystem :=
  match validateURL o.parseURL downloadURL with
  | .error err => (.failed err, fs)
  | .ok () =>
    if o.executable.fails then
      (.failed ("locate current executable: " ++ o.executable.cause), fs)
    else if o.evalSymlinks.fails then
      (.failed ("resolve executable path: " ++ o.evalSymlinks.cause), fs)
    else match download o fs exePath downloadURL key with
      | (.error err, fs) => (.failed err, fs)
      | (.ok tmp, fs) =>
        -- the staged file is removed on every way out but the last
        if o.chmod.fails then
          (.failed ("chmod staged binary: " ++ o.chmod.cause), remove o.removeStaged fs tmp)
        else match swap o windows fs tmp exePath with
          | (.error err, fs) => (.failed err, remove o.removeStaged fs tmp)
          | (.ok (), fs) => (.updated, fs)

end

/-! ### What an update should do -/

/-- A machine that runs the binary: there is a file at its path. -/
structure Host where
  fs : FileSystem
  exePath : FilePath
  running : (fs exePath).isSome = true

/-- What the update promises of its error and of the files it leaves. -/
structure Safe (o : Outcomes) (host : Host) (downloadURL key : String)
    (result : UpdateError × FileSystem) : Prop where
  kept : result.1 ≠ .updated → result.2 host.exePath = host.fs host.exePath
  installed : result.1 = .updated →
    ∃ resp, o.httpDo (updateRequest downloadURL key) = .ok resp ∧
      result.2 host.exePath = some resp.body
  unstaged : host.fs (stagedPath host.exePath o.random) = none → o.removeStaged.fails = false →
    result.2 (stagedPath host.exePath o.random) = none

/-- The body of the response gets on disk. -/
structure Fetched (o : Outcomes) (fs : FileSystem) (exePath : FilePath) (downloadURL key : String)
    (resp : Response) : Prop where
  newRequest : o.newRequest.fails = false
  response : o.httpDo (updateRequest downloadURL key) = .ok resp
  status : resp.statusCode / 100 = 2
  createTemp : o.createTemp.fails = false
  free : fs (stagedPath exePath o.random) = none
  copy : o.copy.fails = false
  close : o.close.fails = false

/-- All that comes before the swap goes through. -/
structure Staged (o : Outcomes) (host : Host) (downloadURL key : String) (resp : Response) :
    Prop where
  url : validateURL o.parseURL downloadURL = .ok ()
  executable : o.executable.fails = false
  evalSymlinks : o.evalSymlinks.fails = false
  fetched : Fetched o host.fs host.exePath downloadURL key resp
  chmod : o.chmod.fails = false

/-- The running binary is moved aside, and then neither the new one takes its place nor the old one
    comes back; or the new one has a name that the sweep takes for one of its own leftovers. -/
def SwapLoses (o : Outcomes) (windows : Bool) (exePath : FilePath) : Prop :=
  windows = true ∧ o.moveAside.fails = false ∧
    ((o.install.fails = true ∧ o.rollback.fails = true) ∨
      (o.install.fails = false ∧ globPath (exePath.plus ".*.old") exePath = true ∧
        o.swept exePath = true))

def Lost (o : Outcomes) (windows : Bool) (host : Host) (downloadURL key : String) : Prop :=
  (∃ resp, Staged o host downloadURL key resp) ∧ SwapLoses o windows host.exePath

/-! ### Paths that differ -/

theorem plus_ne {p : FilePath} {text : String} (h : text ≠ "") : p.plus text ≠ p := by
  intro heq
  have hbase : p.base ++ text = p.base := congrArg FilePath.base heq
  exact h (String.append_eq_left_iff.mp hbase)

theorem asidePath_ne (exePath : FilePath) (now : ℤ) : asidePath exePath now ≠ exePath := by
  apply plus_ne
  intro hempty
  have hlength := congrArg String.length hempty
  simp at hlength

/-- A staged file ends in a digit, and a file that is moved aside does not. -/
theorem stagedPath_ne_asidePath (exePath : FilePath) (random : ℕ) (now : ℤ) :
    stagedPath exePath random ≠ asidePath exePath now := by
  intro heq
  have hbase : (".argus-agent-update-" ++ random.repr).toList
      = (exePath.base ++ ("." ++ toString now ++ ".old")).toList :=
    congrArg (fun p => p.base.toList) heq
  have hstaged : (".argus-agent-update-" ++ random.repr).toList
      = ".argus-agent-update-".toList ++ Nat.toDigits 10 random := by
    rw [String.toList_append, Nat.toList_repr]
  have haside : (exePath.base ++ ("." ++ toString now ++ ".old")).toList
      = (exePath.base ++ "." ++ toString now).toList ++ ".old".toList := by
    simp only [String.toList_append, List.append_assoc]
  have hne : Nat.toDigits 10 random ≠ [] := List.ne_nil_of_length_pos Nat.length_toDigits_pos
  have hlast : (Nat.toDigits 10 random).getLast hne = 'd' := by
    have hgetLast := congrArg List.getLast? (hstaged.symm.trans (hbase.trans haside))
    rw [List.getLast?_append_of_ne_nil _ hne, List.getLast?_append_of_ne_nil _ (by decide),
      List.getLast?_eq_some_getLast hne] at hgetLast
    exact Option.some.inj hgetLast
  have hdigit : 'd'.isDigit = true := by
    rw [← hlast]
    exact Nat.isDigit_of_mem_toDigits (by decide) (by decide) (List.getLast_mem hne)
  exact absurd hdigit (by decide)

/-- What stands at the path of the binary was there before the staged file. -/
theorem Host.exePath_ne (host : Host) {random : ℕ}
    (hfree : host.fs (stagedPath host.exePath random) = none) :
    host.exePath ≠ stagedPath host.exePath random := by
  intro heq
  have hrunning := host.running
  rw [heq, hfree] at hrunning
  exact Bool.false_ne_true hrunning

/-- A name without `*`, `?` and `[` is not swept away. -/
theorem globPath_self {exePath : FilePath} (h : ∀ c ∈ exePath.base.toList, GoGlob.IsLiteral c) :
    globPath (exePath.plus ".*.old") exePath = false := by
  rw [globPath, FilePath.plus, GoGlob.matchName_literal_append h, Bool.and_eq_false_iff]
  exact Or.inr (by decide)

/-- Under such a name only the two failed renamings can lose the binary. -/
theorem swapLoses_iff_of_literal {o : Outcomes} {windows : Bool} {exePath : FilePath}
    (h : ∀ c ∈ exePath.base.toList, GoGlob.IsLiteral c) :
    SwapLoses o windows exePath ↔ windows = true ∧ o.moveAside.fails = false ∧
      o.install.fails = true ∧ o.rollback.fails = true := by
  rw [SwapLoses, globPath_self h]
  simp only [Bool.false_eq_true, false_and, and_false, or_false]

/-! ### The download -/

section

variable {o : Outcomes} {fs : FileSystem} {exePath : FilePath} {downloadURL key : String}

theorem download_of_fetched {resp : Response} (h : Fetched o fs exePath downloadURL key resp) :
    download o fs exePath downloadURL key
      = (.ok (stagedPath exePath o.random), write fs (stagedPath exePath o.random) resp.body) := by
  simp [download, h.newRequest, h.response, h.status, h.createTemp, h.free, h.copy, h.close]

/-- A download that fails leaves the files alone, or makes the staged one and tries to remove it. -/
theorem download_of_not_fetched (h : ∀ resp, ¬ Fetched o fs exePath downloadURL key resp) :
    ∃ err, download o fs exePath downloadURL key = (.error err, fs) ∨
      (fs (stagedPath exePath o.random) = none ∧ ∃ content,
        download o fs exePath downloadURL key = (.error err,
          remove o.removeStaged (write fs (stagedPath exePath o.random) content)
            (stagedPath exePath o.random))) := by
  rw [download]
  split
  · exact ⟨_, Or.inl rfl⟩
  · rename_i hnewRequest
    split
    · exact ⟨_, Or.inl rfl⟩
    · rename_i resp hresp
      split
      · exact ⟨_, Or.inl rfl⟩
      · rename_i hstatus
        dsimp only
        split
        · exact ⟨_, Or.inl rfl⟩
        · rename_i hcreate
          rw [Bool.or_eq_true, not_or, Bool.not_eq_true, Option.not_isSome_iff_eq_none] at hcreate
          split
          · exact ⟨_, Or.inr ⟨hcreate.2, _, rfl⟩⟩
          · rename_i hcopy
            split
            · exact ⟨_, Or.inr ⟨hcreate.2, _, rfl⟩⟩
            · rename_i hclose
              exact absurd ⟨Bool.not_eq_true _ ▸ hnewRequest, hresp, not_not.mp hstatus, hcreate.1,
                hcreate.2, Bool.not_eq_true _ ▸ hcopy, Bool.not_eq_true _ ▸ hclose⟩ (h resp)

/-! ### The swap -/

/-- The running binary is at the other path, and its own is free. -/
def movedAside (o : Outcomes) (fs : FileSystem) (exePath : FilePath) (old : Bytes) : FileSystem :=
  write (Function.update fs exePath none) (asidePath exePath o.now) old

/-- What the swap loses is the old binary when it fails, and the new one otherwise. -/
structure Swapped (o : Outcomes) (windows : Bool) (tmp exePath : FilePath) (old new : Bytes)
    (result : Except String Unit × FileSystem) : Prop where
  failed : ∀ err, result.1 = .error err →
    (result.2 exePath = some old ↔ ¬ SwapLoses o windows exePath)
  through : result.1 = .ok () →
    result.2 tmp = none ∧ (result.2 exePath = some new ↔ ¬ SwapLoses o windows exePath)

section

variable {tmp : FilePath} {old new : Bytes} (hold : fs exePath = some old)
  (hnew : fs tmp = some new) (hne : exePath ≠ tmp)

include hold hnew hne in
theorem swapped_unix : Swapped o false tmp exePath old new (swap o false fs tmp exePath) := by
  have hloses : ¬ SwapLoses o false exePath := fun h => Bool.false_ne_true h.1
  rw [swap, if_neg Bool.false_ne_true, rename_of_some hnew]
  by_cases hinstall : o.install.fails = true
  · rw [if_pos hinstall]
    exact ⟨fun _ _ => iff_of_true hold hloses, fun h => (nomatch h)⟩
  · rw [if_neg hinstall]
    refine ⟨fun _ h => (nomatch h), fun _ => ⟨?_, iff_of_true write_self hloses⟩⟩
    show write _ _ _ tmp = none
    rw [write_of_ne hne.symm, Function.update_self]

theorem movedAside_exePath : movedAside o fs exePath old exePath = none := by
  rw [movedAside, write_of_ne (asidePath_ne exePath o.now).symm, Function.update_self]

theorem movedAside_asidePath :
    movedAside o fs exePath old (asidePath exePath o.now) = some old := write_self

include hnew hne in
theorem movedAside_of_ne (haside : tmp ≠ asidePath exePath o.now) :
    movedAside o fs exePath old tmp = some new := by
  rw [movedAside, write_of_ne haside, Function.update_of_ne hne.symm, hnew]

/-- The sweep takes away only what its pattern matches. -/
theorem sweep_exePath : sweep o fs exePath exePath
    = if globPath (exePath.plus ".*.old") exePath && o.swept exePath then none else fs exePath := by
  rw [sweep, remove_of_ne (plus_ne (by decide)).symm, removeAll]

theorem sweep_eq_none (h : fs tmp = none) : sweep o fs exePath tmp = none :=
  remove_eq_none (removeAll_eq_none h)

include hold hnew hne in
theorem swapped_windows (haside : tmp ≠ asidePath exePath o.now) :
    Swapped o true tmp exePath old new (swap o true fs tmp exePath) := by
  rw [swap, if_pos rfl]
  dsimp only
  rw [rename_of_some hold]
  by_cases hmove : o.moveAside.fails = true
  · -- nothing has been touched yet
    have hloses : ¬ SwapLoses o true exePath := by
      rintro ⟨-, hmoved, -⟩
      rw [hmove] at hmoved
      exact Bool.false_ne_true hmoved.symm
    rw [if_pos hmove]
    exact ⟨fun _ _ => iff_of_true hold hloses, fun h => (nomatch h)⟩
  · have hmoved : o.moveAside.fails = false := Bool.not_eq_true _ ▸ hmove
    rw [if_neg hmove]
    show Swapped o true tmp exePath old new
      (match rename o.install (movedAside o fs exePath old) tmp exePath with
        | .error err => (.error ("install new binary: " ++ err), _)
        | .ok installed => (.ok (), sweep o installed exePath))
    rw [rename_of_some (movedAside_of_ne hnew hne haside)]
    by_cases hinstall : o.install.fails = true
    · -- the old binary is wherever the way back leaves it
      rw [if_pos hinstall]
      refine ⟨fun _ _ => ?_, fun h => (nomatch h)⟩
      show (rename o.rollback (movedAside o fs exePath old) _ exePath).toOption.getD
        (movedAside o fs exePath old) exePath = some old ↔ _
      rw [rename_of_some movedAside_asidePath]
      by_cases hrollback : o.rollback.fails = true
      · rw [if_pos hrollback]
        have hgone : movedAside o fs exePath old exePath ≠ some old := by
          rw [movedAside_exePath]
          exact (Option.some_ne_none old).symm
        exact iff_of_false hgone (not_not.mpr ⟨rfl, hmoved, Or.inl ⟨hinstall, hrollback⟩⟩)
      · rw [if_neg hrollback]
        refine iff_of_true write_self ?_
        rintro ⟨-, -, ⟨-, hlost⟩ | ⟨hinstalled, -⟩⟩
        · exact hrollback hlost
        · rw [hinstall] at hinstalled
          exact Bool.false_ne_true hinstalled.symm
    · -- the new binary is in place, and the sweep comes next
      rw [if_neg hinstall]
      refine ⟨fun _ h => (nomatch h), fun _ => ⟨?_, ?_⟩⟩
      · apply sweep_eq_none
        rw [write_of_ne hne.symm, Function.update_self]
      · show sweep o _ exePath exePath = some new ↔ _
        have hinstalled : o.install.fails = false := Bool.not_eq_true _ ▸ hinstall
        rw [sweep_exePath, write_self, SwapLoses]
        cases hmatch : globPath (exePath.plus ".*.old") exePath <;>
          cases hswept : o.swept exePath <;> simp [hmoved, hinstalled]

include hold hnew hne in
theorem swapped_swap (windows : Bool) (haside : tmp ≠ asidePath exePath o.now) :
    Swapped o windows tmp exePath old new (swap o windows fs tmp exePath) := by
  cases windows with
  | false => exact swapped_unix hold hnew hne
  | true => exact swapped_windows hold hnew hne haside

end

end

/-! ### The update is safe -/

section

variable {o : Outcomes} {windows : Bool} {host : Host} {downloadURL key version : String}

theorem safe_of_unchanged (err : String) :
    Safe o host downloadURL key (.failed err, host.fs) where
  kept _ := rfl
  installed h := nomatch h
  unstaged h _ := h

theorem safe_of_removed {fs : FileSystem} {err : String}
    (hfree : host.fs (stagedPath host.exePath o.random) = none)
    (hkept : fs host.exePath = host.fs host.exePath) :
    Safe o host downloadURL key
      (.failed err, remove o.removeStaged fs (stagedPath host.exePath o.random)) where
  kept _ := (remove_of_ne (host.exePath_ne hfree)).trans hkept
  installed h := nomatch h
  unstaged _ h := remove_self h

/-- An update that does not come to the swap changes nothing but its staged file. -/
theorem safe_of_not_staged (h : ∀ resp, ¬ Staged o host downloadURL key resp) :
    Safe o host downloadURL key
      (apply o windows host.fs host.exePath downloadURL key version) := by
  rw [apply]
  split
  · exact safe_of_unchanged _
  · rename_i hurl
    split
    · exact safe_of_unchanged _
    · rename_i hexecutable
      split
      · exact safe_of_unchanged _
      · rename_i hsymlinks
        by_cases hfetched : ∃ resp, Fetched o host.fs host.exePath downloadURL key resp
        · obtain ⟨resp, hresp⟩ := hfetched
          rw [download_of_fetched hresp]
          dsimp only
          split
          · exact safe_of_removed hresp.free (write_of_ne (host.exePath_ne hresp.free))
          · rename_i hchmod
            exact absurd ⟨hurl, Bool.not_eq_true _ ▸ hexecutable, Bool.not_eq_true _ ▸ hsymlinks,
              hresp, Bool.not_eq_true _ ▸ hchmod⟩ (h resp)
        · obtain ⟨err, hdownload | ⟨hfree, content, hdownload⟩⟩ :=
            download_of_not_fetched (not_exists.mp hfetched)
          · rw [hdownload]
            exact safe_of_unchanged err
          · rw [hdownload]
            exact safe_of_removed hfree (write_of_ne (host.exePath_ne hfree))

theorem apply_of_staged {resp : Response} (h : Staged o host downloadURL key resp) :
    apply o windows host.fs host.exePath downloadURL key version
      = match swap o windows (write host.fs (stagedPath host.exePath o.random) resp.body)
            (stagedPath host.exePath o.random) host.exePath with
        | (.error err, fs) =>
          (.failed err, remove o.removeStaged fs (stagedPath host.exePath o.random))
        | (.ok (), fs) => (.updated, fs) := by
  simp only [apply, h.url, h.executable, h.evalSymlinks, download_of_fetched h.fetched, h.chmod,
    Bool.false_eq_true, if_false]

theorem safe_iff_of_staged {resp : Response} (h : Staged o host downloadURL key resp) :
    Safe o host downloadURL key
        (apply o windows host.fs host.exePath downloadURL key version)
      ↔ ¬ SwapLoses o windows host.exePath := by
  have hne := host.exePath_ne h.fetched.free
  obtain ⟨old, hold⟩ := Option.isSome_iff_exists.mp host.running
  have hswapped : Swapped o windows (stagedPath host.exePath o.random) host.exePath old resp.body
      (swap o windows (write host.fs (stagedPath host.exePath o.random) resp.body)
        (stagedPath host.exePath o.random) host.exePath) :=
    swapped_swap ((write_of_ne hne).trans hold) write_self hne windows
      (stagedPath_ne_asidePath _ _ _)
  rw [apply_of_staged h]
  split
  · -- the staged file goes, and it is not at the path of the binary
    rename_i err fs heq
    rw [heq] at hswapped
    rw [← hswapped.failed err rfl, ← hold]
    constructor
    · intro hsafe
      exact (remove_of_ne hne).symm.trans (hsafe.kept (fun hupdated => nomatch hupdated))
    · exact safe_of_removed h.fetched.free
  · rename_i fs heq
    rw [heq] at hswapped
    obtain ⟨hgone, hnew⟩ := hswapped.through rfl
    rw [← hnew]
    constructor
    · intro hsafe
      obtain ⟨resp', hresp', hbody⟩ := hsafe.installed rfl
      rw [h.fetched.response] at hresp'
      rw [Except.ok.inj hresp']
      exact hbody
    · intro hbody
      exact ⟨fun hnot => absurd rfl hnot, fun _ => ⟨resp, h.fetched.response, hbody⟩,
        fun _ _ => hgone⟩

end

/-- The update is safe if and only if it does not lose what stands at the path of the binary. -/
theorem safe_iff (o : Outcomes) (windows : Bool) (host : Host) (downloadURL key version : String) :
    Safe o host downloadURL key (apply o windows host.fs host.exePath downloadURL key version)
      ↔ ¬ Lost o windows host downloadURL key := by
  by_cases hstaged : ∃ resp, Staged o host downloadURL key resp
  · obtain ⟨resp, hresp⟩ := hstaged
    rw [safe_iff_of_staged hresp]
    exact not_congr ⟨fun h => ⟨⟨resp, hresp⟩, h⟩, fun h => h.2⟩
  · refine iff_of_true (safe_of_not_staged (not_exists.mp hstaged)) ?_
    exact fun h => hstaged h.1

namespace Sample

def exe : FilePath := ⟨["Program Files", "Argus"], "argus-monitor.exe"⟩

def host : Host where
  fs p := if p = exe then some [1, 1] else none
  exePath := exe
  running := by decide

/-- A scanner holds the staged file, and then the old binary. -/
def locked : Outcomes where
  parseURL _ := .ok "https"
  executable := .success
  evalSymlinks := .success
  newRequest := .success
  httpDo _ := .ok ⟨200, [2, 2, 2]⟩
  createTemp := .success
  random := 7
  copy := .success
  copied := 0
  close := .success
  flushed := 0
  removeStaged := .success
  chmod := .success
  now := 1700000000000000000
  moveAside := .success
  install := .failure "Access is denied."
  rollback := .failure "Access is denied."
  swept _ := true
  removeLegacy := .success

end Sample

open Sample in
/-- The update has failed, and there is no binary where the service manager looks for it. -/
theorem not_safe :
    ¬ Safe locked host "https://argus.example.com" ""
      (apply locked true host.fs host.exePath "https://argus.example.com" "" "1.2.0") := by
  intro h
  have hkept := h.kept (by decide)
  exact absurd hkept (by decide)

end Argus.SelfUpdate
