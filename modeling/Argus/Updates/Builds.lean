import Argus.Backup.Stamps
import Argus.Lib.JsValue
import Argus.Lib.Ranking
import Argus.Updates.Versions

namespace Argus.Updates

open Argus.Backup (Stamp localeCompare localeCompare_eq_gt_iff)
open Ranking

/-!
# Updates — the binary that an agent downloads

The backend keeps its builds in a folder for each version, with one for each platform inside.
An agent that is told to update compares the target version with its own, and then downloads
whatever build of its platform was written last.

* `listBuilds`, `latestBuildFor`, `readBuildFile`, `download` — the backend.
* `onUpdate`, `selfUpdate` — the agent, and the version it comes to run.
* `Upgrades` — a version that is at least the target, and greater than the one that runs.
* `selfUpdate_upgrades_iff` — an update leads to such a version if and only if each build that
  would not is outdone by a later one that would.
-/

/-! ### Platforms -/

/-- `ALLOWED_OS`. -/
inductive AgentOS
  | windows | linux | darwin
deriving DecidableEq

/-- `ALLOWED_ARCH`. -/
inductive AgentArch
  | amd64 | arm64
deriving DecidableEq

def AgentOS.name : AgentOS → String
  | .windows => "windows"
  | .linux => "linux"
  | .darwin => "darwin"

def AgentArch.name : AgentArch → String
  | .amd64 => "amd64"
  | .arm64 => "arm64"

def AgentOS.ofName (s : String) : Option AgentOS :=
  [AgentOS.windows, .linux, .darwin].find? (fun os => os.name == s)

def AgentArch.ofName (s : String) : Option AgentArch :=
  [AgentArch.amd64, .arm64].find? (fun arch => arch.name == s)

/-- `binaryName`. -/
def binaryName (os : AgentOS) : String :=
  "argus-monitor" ++ if os = .windows then ".exe" else ""

/-! ### The builds on disk -/

/-- A folder of a version: its name, and its files with the times they were written at. -/
structure Folder where
  name : String
  files : List (String × Stamp)

/-- `BUILD_DIR`: the versions, with their folders. -/
abbrev BuildDir := List (String × List Folder)

structure BuildMeta where
  version : String
  os : String
  arch : String
  builtAt : Stamp
  format : Option String := none

/-- `nasFormatFromFile`. -/
def nasFormatFromFile (file : String) : Option String :=
  ["qnap", "docker"].find? (fun format =>
    ("argus-agent-" ++ format ++ "-latest").toList.isPrefixOf file.toList)

/-- The images in a folder of the form `nas-<arch>`. -/
def nasImages (version arch : String) (folder : Folder) : List BuildMeta :=
  folder.files.filterMap (fun file => (nasFormatFromFile file.1).map (fun format =>
    ⟨version, "nas", arch, file.2, some format⟩))

/-- What `listBuilds` finds in a folder: `target.split("-")` gives the platform. -/
def buildsIn (version : String) (folder : Folder) : List BuildMeta :=
  match folder.name.toList.splitOn '-' with
  | os :: arch :: _ =>
    let os := String.ofList os
    let arch := String.ofList arch
    if os = "nas" ∧ (AgentArch.ofName arch).isSome then nasImages version arch folder
    else match AgentOS.ofName os, AgentArch.ofName arch with
      | some goos, some _ =>
        ((folder.files.lookup (binaryName goos)).map (fun builtAt =>
          (⟨version, os, arch, builtAt, none⟩ : BuildMeta))).toList
      | _, _ => []
  | _ => []

/-- The builds in the order the folders are read. -/
def walk (dir : BuildDir) : List BuildMeta :=
  dir.flatMap (fun version => version.2.flatMap (buildsIn version.1))

/-- The comparison of the sort: `a` does not have to move behind `b`. -/
def newestFirst (a b : BuildMeta) : Prop :=
  localeCompare b.builtAt.toISOString a.builtAt.toISOString ≠ .gt

instance : DecidableRel newestFirst := fun _ _ => inferInstanceAs (Decidable (_ ≠ _))

/-- `listBuilds`. -/
def listBuilds (dir : BuildDir) : List BuildMeta := (walk dir).insertionSort newestFirst

/-- A build of a platform. -/
def isFor (os : AgentOS) (arch : AgentArch) (b : BuildMeta) : Bool :=
  b.os == os.name && b.arch == arch.name

/-- `latestBuildFor`, for a platform that is allowed. -/
def latestBuildFor (dir : BuildDir) (os : AgentOS) (arch : AgentArch) : Option BuildMeta :=
  (listBuilds dir).find? (isFor os arch)

/-! ### The download -/

/-- `[A-Za-z0-9.+_-]`. -/
def isSafeChar (c : Char) : Bool :=
  c.isAlphanum || c == '.' || c == '+' || c == '_' || c == '-'

/-- A character of a folder's name; a code point of two units becomes two underscores. -/
def safeChars (c : Char) : List Char :=
  if isSafeChar c then [c] else if c.toNat < 0x10000 then ['_'] else ['_', '_']

/-- `safeVersion`, unless it throws. -/
def safeVersion (version : String) : Option String :=
  let v := String.ofList ((JsText.trim version).toList.flatMap safeChars)
  if v = "" ∨ v = "." ∨ v = ".." then none else some v

/-- `readBuildFile`: the version whose binary it reads. -/
def readBuildFile (dir : BuildDir) (version : String) (os : AgentOS) (arch : AgentArch) :
    Option String :=
  (safeVersion version).bind fun v =>
    (dir.lookup v).bind fun folders =>
      (folders.find? (fun f => f.name == os.name ++ "-" ++ arch.name)).bind fun folder =>
        (folder.files.lookup (binaryName os)).map fun _ => v

/-- `[a-z0-9]`. -/
def isNameChar (c : Char) : Bool := c.isLower || c.isDigit

/-- The platform in the name of a file,
    `/^argus-agent-([a-z0-9]+)-([a-z0-9]+)(?:\.exe)?$/`. -/
def platformOf (name : String) : Option (String × String) :=
  let start := "argus-agent-".toList
  if start.isPrefixOf name.toList then
    match (name.toList.drop start.length).splitOn '-' with
    | [os, rest] =>
      let arch := rest.takeWhile isNameChar
      if !os.isEmpty && os.all isNameChar && !arch.isEmpty &&
          (rest.drop arch.length == [] || rest.drop arch.length == ".exe".toList)
      then some (String.ofList os, String.ofList arch) else none
    | _ => none
  else none

/-- `GET /api/agent/download/:name`, for an approved agent: the version of the binary that is
    sent, unless the request is answered with an error. -/
def download (dir : BuildDir) (name : String) : Option String :=
  (platformOf name).bind fun platform =>
    (AgentOS.ofName platform.1).bind fun os => (AgentArch.ofName platform.2).bind fun arch =>
      (latestBuildFor dir os arch).bind fun latest => readBuildFile dir latest.version os arch

/-! ### The agent -/

/-- `agentArtifactName`. -/
def agentArtifactName (os : AgentOS) (arch : AgentArch) : String :=
  "argus-agent-" ++ os.name ++ "-" ++ arch.name ++ if os = .windows then ".exe" else ""

/-- `p[key].(string)`; anything else is the empty text. -/
def payloadText (p : Fields JsValue) (key : String) : String :=
  match p.get key with
  | some (.str s) => s
  | _ => ""

/-- `p["force"].(bool)`. -/
def payloadForce (p : Fields JsValue) : Bool :=
  match p.get "force" with
  | some (.bool b) => b
  | _ => false

/-- What an agent does with a command. -/
inductive UpdateAction
  | skipped
  | fromUrl (url : String)
  | fromServer (name : String)
deriving DecidableEq

/-- `OnUpdate` of an agent of this version. -/
def onUpdate (version : String) (os : AgentOS) (arch : AgentArch) (p : Fields JsValue) :
    UpdateAction :=
  if payloadText p "version" ≠ "" ∧ payloadForce p = false ∧
      versionAtLeast version (payloadText p "version") = true then .skipped
  else if payloadText p "url" = "" then .fromServer (agentArtifactName os arch)
  else .fromUrl (payloadText p "url")

/-- The version that an agent comes to run after a command without a link. -/
def selfUpdate (dir : BuildDir) (version : String) (os : AgentOS) (arch : AgentArch)
    (p : Fields JsValue) : Option String :=
  match onUpdate version os arch p with
  | .fromServer name => download dir name
  | _ => none

/-! ### Upgrades -/

/-- A version that is at least the target, and greater than the one that runs. -/
def Upgrades (running target new : String) : Prop :=
  versionAtLeast new target = true ∧ versionAtLeast running new = false

instance (running target new : String) : Decidable (Upgrades running target new) :=
  inferInstanceAs (Decidable (_ ∧ _))

/-- Above a target that the running version does not reach, every version is an upgrade. -/
theorem upgrades_iff {running target : String} (h : versionAtLeast running target = false)
    (new : String) : Upgrades running target new ↔ versionAtLeast new target = true := by
  refine ⟨fun hup => hup.1, fun hnew => ⟨hnew, ?_⟩⟩
  rw [Bool.eq_false_iff]
  intro hrunning
  have hreach := totalPreorder_versionAtLeast.trans running new target hrunning hnew
  rw [h] at hreach
  cases hreach

/-- The binary that is read for a listed build is no upgrade. -/
def NoUpgrade (dir : BuildDir) (os : AgentOS) (arch : AgentArch) (running target : String)
    (b : BuildMeta) : Prop :=
  ∃ new, readBuildFile dir b.version os arch = some new ∧ ¬ Upgrades running target new

/-- Each build of the platform that is no upgrade is outdone by one that does not have this fault:
    that was built later, or at the same time and is listed before it. -/
def Outdone (dir : BuildDir) (os : AgentOS) (arch : AgentArch) (running target : String) : Prop :=
  ∀ before b after, (walk dir).filter (isFor os arch) = before ++ b :: after →
    NoUpgrade dir os arch running target b →
    ∃ b', ¬ NoUpgrade dir os arch running target b' ∧
      (b' ∈ before ∧ b.builtAt.time ≤ b'.builtAt.time ∨
        b' ∈ after ∧ b.builtAt.time < b'.builtAt.time)

theorem newestFirst_iff {a b : BuildMeta} :
    newestFirst a b ↔ b.builtAt.time ≤ a.builtAt.time := by
  rw [newestFirst, Ne, localeCompare_eq_gt_iff]
  omega

instance : Std.Total newestFirst where
  total a b := by
    simp only [newestFirst_iff]
    omega

instance : IsTrans BuildMeta newestFirst where
  trans a b c := by
    simp only [newestFirst_iff]
    omega

section Latest

variable {dir : BuildDir} {os : AgentOS} {arch : AgentArch} {running target : String}

/-- Whatever is found last is an upgrade, if and only if the others are outdone. -/
theorem latest_upgrades_iff :
    (∀ latest, latestBuildFor dir os arch = some latest →
      ¬ NoUpgrade dir os arch running target latest) ↔ Outdone dir os arch running target := by
  constructor
  · intro h before b after hsplit hbad
    obtain ⟨latest, hlatest⟩ : ∃ latest, latestBuildFor dir os arch = some latest := by
      rw [← Option.isSome_iff_exists, latestBuildFor, List.find?_isSome]
      have hb : b ∈ (walk dir).filter (isFor os arch) := by
        rw [hsplit]
        simp
      obtain ⟨hmem, hfor⟩ := List.mem_filter.mp hb
      exact ⟨b, (List.mem_insertionSort newestFirst).mpr hmem, hfor⟩
    have hgood := h latest hlatest
    refine ⟨latest, hgood, ?_⟩
    rcases (firstBest_of_find? newestFirst hlatest).outdoes hsplit with
      heq | ⟨hmem, hle⟩ | ⟨hmem, hlt⟩
    · exact absurd (heq ▸ hbad) hgood
    · exact .inl ⟨hmem, newestFirst_iff.mp hle⟩
    · rw [newestFirst_iff] at hlt
      exact .inr ⟨hmem, by omega⟩
  · intro h latest hlatest hbad
    obtain ⟨before, after, hsplit, hworse, hbest⟩ := firstBest_of_find? newestFirst hlatest
    obtain ⟨b, -, ⟨hmem, hle⟩ | ⟨hmem, hlt⟩⟩ := h before latest after hsplit hbad
    · exact hworse b hmem (newestFirst_iff.mpr hle)
    · have hle := newestFirst_iff.mp (hbest b hmem)
      omega

/-- The agent asks for its own platform. -/
theorem download_agentArtifactName :
    download dir (agentArtifactName os arch)
      = (latestBuildFor dir os arch).bind (fun latest => readBuildFile dir latest.version os arch) := by
  have hplatform : platformOf (agentArtifactName os arch) = some (os.name, arch.name) := by
    cases os <;> cases arch <;> decide +kernel
  have hos : AgentOS.ofName os.name = some os := by
    cases os <;> decide
  have harch : AgentArch.ofName arch.name = some arch := by
    cases arch <;> decide
  rw [download, hplatform, Option.bind_some, hos, Option.bind_some, harch, Option.bind_some]

end Latest

/-- **Self-updates.**  A command without force and without a link leads to an upgrade, if to
    anything, if and only if the agent skips it or each build that is no upgrade is outdone.  Where
    the running version is below the target, all that is at least the target is an upgrade. -/
theorem selfUpdate_upgrades_iff (dir : BuildDir) (running : String) (os : AgentOS)
    (arch : AgentArch) (p : Fields JsValue) (hforce : payloadForce p = false)
    (hurl : payloadText p "url" = "") :
    ((∀ new, selfUpdate dir running os arch p = some new →
        Upgrades running (payloadText p "version") new) ↔
      (payloadText p "version" ≠ "" ∧ versionAtLeast running (payloadText p "version") = true) ∨
        Outdone dir os arch running (payloadText p "version")) ∧
    (versionAtLeast running (payloadText p "version") = false → ∀ new,
      (Upgrades running (payloadText p "version") new ↔
        versionAtLeast new (payloadText p "version") = true)) := by
  refine ⟨?_, upgrades_iff⟩
  by_cases hskip : payloadText p "version" ≠ "" ∧
      versionAtLeast running (payloadText p "version") = true
  · have haction : onUpdate running os arch p = .skipped :=
      if_pos ⟨hskip.1, hforce, hskip.2⟩
    refine iff_of_true (fun new hnew => ?_) (.inl hskip)
    rw [selfUpdate, haction] at hnew
    cases hnew
  · have haction : onUpdate running os arch p = .fromServer (agentArtifactName os arch) := by
      rw [onUpdate, if_neg (fun h => hskip ⟨h.1, h.2.2⟩), if_pos hurl]
    rw [or_iff_right hskip, ← latest_upgrades_iff]
    simp only [selfUpdate, haction, download_agentArtifactName, Option.bind_eq_some_iff]
    constructor
    · rintro h latest hlatest ⟨new, hread, hbad⟩
      exact hbad (h new ⟨latest, hlatest, hread⟩)
    · rintro h new ⟨latest, hlatest, hread⟩
      exact not_not.mp (fun hbad => h latest hlatest ⟨new, hread, hbad⟩)

namespace Sample

theorem year_lt_2025 : 2025 < 10000 := by decide

theorem midnight_lt : 0 < 86400000 := by decide

/-- Midnight of a day in January 2025. -/
def january (day : ℕ) (hpos : 1 ≤ day) (hle : day ≤ 31) : Stamp :=
  ⟨⟨2025, 0, day, year_lt_2025, hpos, hle⟩, 0, midnight_lt⟩

/-- Two versions for one platform, built on these days. -/
def builds (first second : Stamp) : BuildDir :=
  [("1.0.0", [⟨"linux-amd64", [("argus-monitor", first)]⟩]),
    ("2.0.0", [⟨"linux-amd64", [("argus-monitor", second)]⟩])]

def toTwo : Fields JsValue := [("version", .str "2.0.0")]

end Sample

open Sample in
/-- Releases in the order of their versions. -/
theorem selfUpdate_upgrades_inOrder :
    selfUpdate (builds (january 1 (by decide) (by decide)) (january 2 (by decide) (by decide)))
        "1.5.0" .linux .amd64 toTwo = some "2.0.0" ∧
      ((∀ new, selfUpdate (builds (january 1 (by decide) (by decide))
          (january 2 (by decide) (by decide))) "1.5.0" .linux .amd64 toTwo = some new →
          Upgrades "1.5.0" "2.0.0" new) ↔
        ("2.0.0" ≠ "" ∧ versionAtLeast "1.5.0" "2.0.0" = true) ∨
          Outdone (builds (january 1 (by decide) (by decide)) (january 2 (by decide) (by decide)))
            .linux .amd64 "1.5.0" "2.0.0") :=
  ⟨by decide +kernel, (selfUpdate_upgrades_iff _ _ _ _ toTwo (by decide) (by decide)).1⟩

open Sample in
/-- The first version was built again: an agent that is told to go up goes down. -/
theorem selfUpdate_downgrades :
    selfUpdate (builds (january 3 (by decide) (by decide)) (january 2 (by decide) (by decide)))
        "1.5.0" .linux .amd64 toTwo = some "1.0.0" ∧
      ¬ Upgrades "1.5.0" "2.0.0" "1.0.0" ∧ versionAtLeast "1.5.0" "1.0.0" = true := by
  decide +kernel

end Argus.Updates
