import Argus.Lib.PosixPath
import Argus.Updates.Builds

namespace Argus.Updates

/-!
# Updates — where a build is kept

`buildDir` and `nasImageDir` of `agent-builds.ts` make a folder out of a version that an operator
typed in and a platform.

* `folderOf` — what the two functions share: the version made safe, the path, and the check that
  it lies below the root.
* `folderOf_eq` — for every version: rejected as invalid, or a folder two levels below the root.
  The check behind it never fails.
* `build_folder` — and builds share a folder only if version and platform agree.
-/

/-- The folder `target` of a version, confined to `root`, or the message of the error. -/
def folderOf (root : List Char) (version target : String) : Except String (List Char) :=
  match safeVersion version with
  | none => .error "invalid version"
  | some v =>
    let dir := PosixPath.resolve root [v.toList, target.toList]
    if dir ≠ PosixPath.resolve dir [] ∨ ¬ (root ++ ['/']) <+: dir then
      .error "path traversal rejected"
    else .ok dir

/-- `buildDir`. -/
def buildDir (root : List Char) (version : String) (os : AgentOS) (arch : AgentArch) :
    Except String (List Char) :=
  folderOf root version (os.name ++ "-" ++ arch.name)

/-- `nasImageDir`. -/
def nasImageDir (root : List Char) (version : String) (arch : AgentArch) :
    Except String (List Char) :=
  folderOf root version ("nas-" ++ arch.name)

/-- What `safeVersion` lets through is one plain segment. -/
theorem safeVersion_plain {version v : String} (h : safeVersion version = some v) :
    PosixPath.Plain v.toList := by
  rw [safeVersion] at h
  split_ifs at h with hbad
  obtain rfl := Option.some.inj h
  simp only [not_or] at hbad
  obtain ⟨hnil, hdot, hdots⟩ := hbad
  refine ⟨fun heq => hnil ?_, fun heq => hdot ?_, fun heq => hdots ?_, fun hslash => ?_⟩
  · exact String.toList_inj.mp heq
  · exact String.toList_inj.mp heq
  · exact String.toList_inj.mp heq
  · -- every character is kept for being safe, or an underscore
    rw [String.toList_ofList, List.mem_flatMap] at hslash
    obtain ⟨c, -, hc⟩ := hslash
    rw [safeChars] at hc
    split_ifs at hc with hsafe hunit
    · obtain rfl := List.mem_singleton.mp hc
      exact absurd hsafe (by decide)
    · exact absurd hc (by decide)
    · exact absurd hc (by decide)

/-- The segments of such a folder. -/
theorem forall_plain {segments : List (List Char)} (hplain : ∀ s ∈ segments, PosixPath.Plain s)
    {version v : String} (hv : safeVersion version = some v) {target : String}
    (htarget : PosixPath.Plain target.toList) :
    ∀ s ∈ segments ++ [v.toList, target.toList], PosixPath.Plain s := by
  intro s hs
  rcases List.mem_append.mp hs with hs | hs
  · exact hplain s hs
  · rcases List.mem_cons.mp hs with rfl | hs
    · exact safeVersion_plain hv
    · obtain rfl := List.mem_singleton.mp hs
      exact htarget

/-- **A build stays in its place.**  Whatever version is asked for, the folder is that of the
    version made safe, two levels below the root, or the version is invalid. -/
theorem folderOf_eq {segments : List (List Char)} (hplain : ∀ s ∈ segments, PosixPath.Plain s)
    (hne : segments ≠ []) (version : String) {target : String}
    (htarget : PosixPath.Plain target.toList) :
    folderOf (PosixPath.render segments) version target =
      match safeVersion version with
      | none => .error "invalid version"
      | some v => .ok (PosixPath.render (segments ++ [v.toList, target.toList])) := by
  rw [folderOf]
  cases hv : safeVersion version with
  | none => rfl
  | some v =>
    dsimp only
    have hall := forall_plain hplain hv htarget
    have hnames : ∀ s ∈ [v.toList, target.toList], PosixPath.Plain s :=
      fun s hs => hall s (List.mem_append_right _ hs)
    have hpath := PosixPath.resolve_plain hplain hnames
    have hagain := PosixPath.resolve_plain hall (List.forall_mem_nil _)
    rw [List.append_nil] at hagain
    rw [hpath, hagain, if_neg]
    rintro (h | h)
    · exact h rfl
    · refine h ?_
      rw [show segments ++ [v.toList, target.toList]
          = (segments ++ [v.toList]) ++ [target.toList] by simp,
        PosixPath.render_append_singleton (by simp), PosixPath.render_append_singleton hne]
      exact ⟨v.toList ++ '/' :: target.toList, by simp⟩

/-- Every platform has a plain name. -/
theorem target_plain (os : AgentOS) (arch : AgentArch) :
    PosixPath.Plain (os.name ++ "-" ++ arch.name).toList := by
  cases os <;> cases arch <;> decide

/-- The name of a platform tells which one it is. -/
theorem target_inj : ∀ {os os' : AgentOS} {arch arch' : AgentArch},
    (os.name ++ "-" ++ arch.name).toList = (os'.name ++ "-" ++ arch'.name).toList →
      os = os' ∧ arch = arch' := by
  intro os os' arch arch' h
  cases os <;> cases os' <;> cases arch <;> cases arch' <;> revert h <;> decide

/-- **Builds are confined and do not meet.**  Whatever version is asked for, it is invalid, or
    the folder is two levels below the root; and another version and platform lead there only
    if the version is the same once made safe, and the platform is the same. -/
theorem build_folder {segments : List (List Char)} (hplain : ∀ s ∈ segments, PosixPath.Plain s)
    (hne : segments ≠ []) (version : String) (os : AgentOS) (arch : AgentArch) :
    (safeVersion version = none ∧
      buildDir (PosixPath.render segments) version os arch = .error "invalid version") ∨
    ∃ v, safeVersion version = some v ∧
      buildDir (PosixPath.render segments) version os arch = .ok (PosixPath.render
        (segments ++ [v.toList, (os.name ++ "-" ++ arch.name).toList])) ∧
      ∀ version' os' arch', buildDir (PosixPath.render segments) version' os' arch'
          = buildDir (PosixPath.render segments) version os arch →
        safeVersion version' = some v ∧ os' = os ∧ arch' = arch := by
  have hfolder := folderOf_eq hplain hne version (target_plain os arch)
  cases hv : safeVersion version with
  | none =>
    rw [hv] at hfolder
    exact Or.inl ⟨rfl, hfolder⟩
  | some v =>
    rw [hv] at hfolder
    refine Or.inr ⟨v, rfl, hfolder, fun version' os' arch' hsame => ?_⟩
    rw [buildDir, buildDir, hfolder, folderOf_eq hplain hne version' (target_plain os' arch')]
      at hsame
    cases hv' : safeVersion version' with
    | none =>
      rw [hv'] at hsame
      exact absurd hsame (by simp)
    | some v' =>
      rw [hv'] at hsame
      have hnorm := congrArg PosixPath.normalize (Except.ok.inj hsame)
      rw [PosixPath.normalize_render (forall_plain hplain hv' (target_plain os' arch')),
        PosixPath.normalize_render (forall_plain hplain hv (target_plain os arch))] at hnorm
      obtain ⟨hversion, htarget⟩ := List.cons.inj (List.append_cancel_left hnorm)
      rw [String.toList_inj.mp hversion]
      exact ⟨rfl, target_inj (List.cons.inj htarget).1⟩

/-- A version with a separator in it. -/
theorem build_folder_traversal :
    buildDir (PosixPath.render ["builds".toList]) "../1.0" .linux .amd64
      = .ok "/builds/.._1.0/linux-amd64".toList := by
  have hplain : ∀ s ∈ ["builds".toList], PosixPath.Plain s := by decide
  rcases build_folder hplain (by decide) "../1.0" .linux .amd64 with ⟨hnone, -⟩ | ⟨v, hv, hdir, -⟩
  · exact absurd hnone (by decide)
  · obtain rfl : ".._1.0" = v := by
      have hsafe : safeVersion "../1.0" = some ".._1.0" := by decide
      exact Option.some.inj (hsafe.symm.trans hv)
    rw [hdir]
    decide

end Argus.Updates
