import Argus.Collect.NextReport
import Argus.Collect.WalkedFiles
import Argus.Lib.Counting
import Mathlib.Data.List.Dedup

namespace Argus.Collect

/-!
# The totals of a scan

A scan ends with the number and the size of the files that it has found: those of the nodes without
a slash in their names.

* `shareAt` — a share in a file system, which is a tree.
* `under`, `counted` — the files of a watched folder, and those that its walk adds to the totals.
* `scan_totals` — the totals of a scan are those of `counted`.
* `EachOnce` — each file of the watched folders is counted by one of them.
* `totalsRight_iff` — this is what it takes for the totals to be right.
-/

open Counting FileTree Polling

/-! ### File systems -/

def names : Entries → List String
  | .nil => []
  | .file name _ rest => name :: names rest
  | .dir name _ _ rest => name :: names rest

/-- No two entries of a directory have one name, and names are not empty and have no slash. -/
def WellFormed : Entries → Prop
  | .nil => True
  | .file name _ rest => name ∉ names rest ∧ WellFormed rest
  | .dir name _ inside rest =>
    name ≠ "" ∧ '/' ∉ name.toList ∧ name ∉ names rest ∧ WellFormed inside ∧ WellFormed rest

instance decidableWellFormed : (es : Entries) → Decidable (WellFormed es)
  | .nil => inferInstanceAs (Decidable True)
  | .file name _ rest =>
    have := decidableWellFormed rest
    inferInstanceAs (Decidable (name ∉ names rest ∧ WellFormed rest))
  | .dir name _ inside rest =>
    have := decidableWellFormed inside
    have := decidableWellFormed rest
    inferInstanceAs (Decidable
      (name ≠ "" ∧ '/' ∉ name.toList ∧ name ∉ names rest ∧ WellFormed inside ∧ WellFormed rest))

/-- The entry of a directory with a name. -/
def entryNamed (name : String) : Entries → Option Found
  | .nil => none
  | .file n info rest => if n = name then some (.file info) else entryNamed name rest
  | .dir n readable inside rest =>
    if n = name then some (.dir ⟨readable, inside⟩) else entryNamed name rest

/-- What there is at the end of a path. -/
def findFrom : Found → List String → Option Found
  | f, [] => some f
  | .file _, _ :: _ => none
  | .dir d, name :: p => (entryNamed name d.entries).bind fun f => findFrom f p

/-- A segment of a path, as `filepath.Clean` treats it. -/
def joinSegment (p : List String) (segment : String) : List String :=
  if segment = "" ∨ segment = "." then p
  else if segment = ".." then p.dropLast
  else p ++ [segment]

/-- `filepath.Join(path, sub)`. -/
def joinPath (path : List String) (sub : String) : List String :=
  ((sub.toList.splitOn '/').map String.ofList).foldl joinSegment path

/-- The share at a path of a file system. -/
def shareAt (fs : Dir) (path : List String) : Share := fun sub =>
  findFrom (.dir fs) (joinPath path sub)

/-! ### Files of watched folders -/

/-- The files of what there is at a path. -/
def filesAt (p : List String) : Found → List (List String × ℕ)
  | .file info => info.toList.map fun size => (p, size)
  | .dir d => (filesBelow d.entries).map fun f => (p ++ f.1, f.2)

/-- Those that the walk of it adds to the totals: nothing if the name of its node has a slash, and
    if it has no node, what is in the folders of the directory. -/
def countedAt (w : WatchSpec) (p : List String) (full : Found) : List (List String × ℕ) :=
  if '/' ∈ w.sub.toList then []
  else match full with
    | .file info =>
      if w.sub = "" ∨ w.sub = "." then [] else info.toList.map fun size => (p, size)
    | .dir d =>
      if w.sub = "" ∨ w.sub = "." then
        if d.readable then
          (topListed d.entries (scanDepth w.depth) 0 maxFolderNodes).flatMap fun e =>
            (walkedFiles e.2.entries).map fun f => (p ++ e.1 :: f.1, f.2)
        else []
      else (walkedFiles d.entries).map fun f => (p ++ f.1, f.2)

section

variable (fs : Dir) (path : List String) (w : WatchSpec)

/-- The files under a watched folder. -/
def under : List (List String × ℕ) :=
  ((shareAt fs path w.sub).map (filesAt (joinPath path w.sub))).getD []

def counted : List (List String × ℕ) :=
  ((shareAt fs path w.sub).map (countedAt w (joinPath path w.sub))).getD []

end

/-- The files under the union of the watched folders. -/
def distinctFiles (fs : Dir) (path : List String) (specs : List WatchSpec) : List (List String) :=
  (specs.flatMap fun w => (under fs path w).map Prod.fst).dedup

def sizeOf (fs : Dir) (p : List String) : ℕ :=
  match findFrom (.dir fs) p with
  | some (.file (some size)) => size
  | _ => 0

/-- The totals of every scan that is completed are the number and the size of these files. -/
def TotalsRight (sortSize : SizeSort) (fs : Dir) (path : List String) (withFolders : Bool)
    (watch : List WatchSpec) : Prop :=
  ∀ cancelAt,
    (scan sortSize (shareAt fs path) withFolders watch cancelAt).progress.status = "done" →
    (scan sortSize (shareAt fs path) withFolders watch cancelAt).progress.files
        = (distinctFiles fs path (scanSpecs withFolders watch)).length ∧
      (scan sortSize (shareAt fs path) withFolders watch cancelAt).progress.bytes
        = ((distinctFiles fs path (scanSpecs withFolders watch)).map (sizeOf fs)).sum

/-- Each file under the watched folders is counted by one of them. -/
def EachOnce (fs : Dir) (path : List String) (specs : List WatchSpec) : Prop :=
  ∀ p ∈ distinctFiles fs path specs,
    specs.countP (fun w => decide (p ∈ (counted fs path w).map Prod.fst)) = 1

instance (fs : Dir) (path : List String) (specs : List WatchSpec) :
    Decidable (EachOnce fs path specs) :=
  inferInstanceAs (Decidable (∀ p ∈ distinctFiles fs path specs,
    specs.countP (fun w => decide (p ∈ (counted fs path w).map Prod.fst)) = 1))

/-! ### Other sizes -/

/-- The same entries with other sizes, which depend on the paths of the files. -/
def resizeBelow (g : List String → ℕ) : List String → Entries → Entries
  | _, .nil => .nil
  | p, .file name info rest =>
    .file name (info.map fun _ => g (p ++ [name])) (resizeBelow g p rest)
  | p, .dir name readable inside rest =>
    .dir name readable (resizeBelow g (p ++ [name]) inside) (resizeBelow g p rest)

def resizeDir (g : List String → ℕ) (p : List String) (d : Dir) : Dir :=
  ⟨d.readable, resizeBelow g p d.entries⟩

def resize (g : List String → ℕ) (fs : Dir) : Dir := resizeDir g [] fs

def resizeFound (g : List String → ℕ) (p : List String) : Found → Found
  | .file info => .file (info.map fun _ => g p)
  | .dir d => .dir (resizeDir g p d)

section

variable (g : List String → ℕ)

theorem filesBelow_resize (p : List String) (es : Entries) :
    filesBelow (resizeBelow g p es) = (filesBelow es).map fun f => (f.1, g (p ++ f.1)) := by
  induction es generalizing p with
  | nil => rfl
  | file name info rest ih =>
    rw [resizeBelow, filesBelow, filesBelow, List.map_append, ih]
    cases info with
    | none => rfl
    | some size => rfl
  | dir name readable inside rest ihInside ihRest =>
    rw [resizeBelow, filesBelow, filesBelow]
    by_cases hsystem : isSystemFolder name = true
    · rw [if_pos hsystem, if_pos hsystem, ihRest]
    · rw [if_neg hsystem, if_neg hsystem, ihInside, ihRest, List.map_append, List.map_map,
        List.map_map]
      simp only [Function.comp_def, List.append_assoc, List.singleton_append]

theorem budgetLeft_resize (p : List String) (es : Entries) (depth count budget : ℕ) :
    budgetLeft (resizeBelow g p es) depth count budget = budgetLeft es depth count budget := by
  induction es generalizing p depth count budget with
  | nil => rfl
  | file name info rest ih => exact ih p depth count budget
  | dir name readable inside rest ihInside ihRest =>
    rw [resizeBelow, budgetLeft, budgetLeft]
    simp only [ihInside, ihRest]

theorem topListed_resize (p : List String) (es : Entries) (depth count budget : ℕ) :
    topListed (resizeBelow g p es) depth count budget
      = (topListed es depth count budget).map fun e => (e.1, resizeDir g (p ++ [e.1]) e.2) := by
  induction es generalizing p depth count budget with
  | nil => rfl
  | file name info rest ih => exact ih p depth count budget
  | dir name readable inside rest ihInside ihRest =>
    rw [resizeBelow, topListed, topListed]
    by_cases hsystem : isSystemFolder name = true
    · rw [if_pos hsystem, if_pos hsystem, ihRest]
    · rw [if_neg hsystem, if_neg hsystem]
      by_cases hleft : maxTopFolders ≤ count ∨ budget = 0
      · rw [if_pos hleft, if_pos hleft]
        rfl
      · rw [if_neg hleft, if_neg hleft, budgetLeft_resize, ihRest, List.map_cons]
        rfl

theorem entryNamed_resize (p : List String) (name : String) (es : Entries) :
    entryNamed name (resizeBelow g p es)
      = (entryNamed name es).map (resizeFound g (p ++ [name])) := by
  induction es with
  | nil => rfl
  | file n info rest ih =>
    rw [resizeBelow, entryNamed, entryNamed]
    split
    · rename_i hname
      subst hname
      rfl
    · exact ih
  | dir n readable inside rest ihInside ihRest =>
    rw [resizeBelow, entryNamed, entryNamed]
    split
    · rename_i hname
      subst hname
      rfl
    · exact ihRest

theorem findFrom_resize (p q : List String) (f : Found) :
    findFrom (resizeFound g p f) q = (findFrom f q).map (resizeFound g (p ++ q)) := by
  induction q generalizing p f with
  | nil =>
    rw [findFrom, findFrom, List.append_nil]
    rfl
  | cons name q ih =>
    cases f with
    | file info => rfl
    | dir d =>
      show (entryNamed name (resizeBelow g p d.entries)).bind _ = Option.map _ (Option.bind _ _)
      rw [entryNamed_resize, Option.map_bind, Option.bind_map]
      congr 1
      funext f
      show findFrom (resizeFound g (p ++ [name]) f) q = _
      rw [ih, List.append_assoc, List.singleton_append]
      rfl

theorem shareAt_resize (fs : Dir) (path : List String) (sub : String) :
    shareAt (resize g fs) path sub
      = (shareAt fs path sub).map (resizeFound g (joinPath path sub)) :=
  findFrom_resize g [] (joinPath path sub) (.dir fs)

/-- A file with the size that its path gives it. -/
def resized (f : List String × ℕ) : List String × ℕ := (f.1, g f.1)

theorem walkedFiles_resize (p : List String) (es : Entries) :
    walkedFiles (resizeBelow g p es) = (walkedFiles es).map fun f => (f.1, g (p ++ f.1)) := by
  rw [walkedFiles, walkedFiles, filesBelow_resize, List.map_take]

theorem filesAt_resize (p : List String) (f : Found) :
    filesAt p (resizeFound g p f) = (filesAt p f).map (resized g) := by
  cases f with
  | file info =>
    cases info with
    | none => rfl
    | some size => rfl
  | dir d =>
    show (filesBelow (resizeBelow g p d.entries)).map _ = ((filesBelow d.entries).map _).map _
    rw [filesBelow_resize, List.map_map, List.map_map]
    rfl

theorem countedAt_resize (w : WatchSpec) (p : List String) (f : Found) :
    countedAt w p (resizeFound g p f) = (countedAt w p f).map (resized g) := by
  unfold countedAt
  by_cases hslash : '/' ∈ w.sub.toList
  · rw [if_pos hslash, if_pos hslash]
    rfl
  rw [if_neg hslash, if_neg hslash]
  cases f with
  | file info =>
    show (if w.sub = "" ∨ w.sub = "." then _ else _)
      = List.map _ (if w.sub = "" ∨ w.sub = "." then _ else _)
    split
    · rfl
    · cases info with
      | none => rfl
      | some size => rfl
  | dir d =>
    show (if w.sub = "" ∨ w.sub = "." then
        (if d.readable then
          (topListed (resizeBelow g p d.entries) (scanDepth w.depth) 0 maxFolderNodes).flatMap _
        else []) else (walkedFiles (resizeBelow g p d.entries)).map _)
      = List.map _ (if w.sub = "" ∨ w.sub = "." then (if d.readable then _ else []) else _)
    split
    · split
      · rw [topListed_resize, List.flatMap_map, List.map_flatMap]
        refine List.flatMap_congr fun e _ => ?_
        show (walkedFiles (resizeBelow g (p ++ [e.1]) e.2.entries)).map _ = _
        rw [walkedFiles_resize, List.map_map, List.map_map]
        refine List.map_congr_left fun f _ => ?_
        show (p ++ e.1 :: f.1, g (p ++ [e.1] ++ f.1)) = (p ++ e.1 :: f.1, g (p ++ e.1 :: f.1))
        rw [List.append_assoc, List.singleton_append]
      · rfl
    · rw [walkedFiles_resize, List.map_map, List.map_map]
      rfl

variable (fs : Dir) (path : List String) (w : WatchSpec)

theorem under_resize : under (resize g fs) path w = (under fs path w).map (resized g) := by
  rw [under, under, shareAt_resize]
  cases shareAt fs path w.sub with
  | none => rfl
  | some f => exact filesAt_resize g _ f

theorem counted_resize : counted (resize g fs) path w = (counted fs path w).map (resized g) := by
  rw [counted, counted, shareAt_resize]
  cases shareAt fs path w.sub with
  | none => rfl
  | some f => exact countedAt_resize g w _ f

end

/-! ### Paths -/

theorem findFrom_append (f : Found) (p q : List String) :
    findFrom f (p ++ q) = (findFrom f p).bind fun f' => findFrom f' q := by
  induction p generalizing f with
  | nil =>
    rw [findFrom]
    rfl
  | cons name p ih =>
    cases f with
    | file info => rfl
    | dir d =>
      show (entryNamed name d.entries).bind _ = ((entryNamed name d.entries).bind _).bind _
      rw [Option.bind_assoc]
      congr 1
      funext f
      exact ih f

theorem head_mem_names {es : Entries} {f : List String × ℕ} (h : f ∈ filesBelow es) :
    ∃ name ∈ names es, ∃ p, f.1 = name :: p := by
  induction es with
  | nil => exact absurd h List.not_mem_nil
  | file name info rest ih =>
    rcases List.mem_append.mp h with h | h
    · obtain ⟨size, -, rfl⟩ := List.mem_map.mp h
      exact ⟨name, List.mem_cons_self, [], rfl⟩
    · obtain ⟨name', hname', p, hp⟩ := ih h
      exact ⟨name', List.mem_cons_of_mem _ hname', p, hp⟩
  | dir name readable inside rest ihInside ihRest =>
    have hrest : f ∈ filesBelow rest → ∃ name' ∈ names (.dir name readable inside rest), ∃ p,
        f.1 = name' :: p := by
      intro h
      obtain ⟨name', hname', p, hp⟩ := ihRest h
      exact ⟨name', List.mem_cons_of_mem _ hname', p, hp⟩
    rw [filesBelow] at h
    split at h
    · exact hrest h
    · rcases List.mem_append.mp h with h | h
      · obtain ⟨f', -, rfl⟩ := List.mem_map.mp h
        exact ⟨name, List.mem_cons_self, f'.1, rfl⟩
      · exact hrest h

theorem findFrom_cons_of_ne {name name' : String} (hne : name' ≠ name) (readable : Bool)
    (p : List String) (rest : Entries) :
    (∀ info, findFrom (.dir ⟨readable, .file name' info rest⟩) (name :: p)
        = findFrom (.dir ⟨readable, rest⟩) (name :: p)) ∧
      ∀ readable' inside, findFrom (.dir ⟨readable, .dir name' readable' inside rest⟩) (name :: p)
        = findFrom (.dir ⟨readable, rest⟩) (name :: p) := by
  constructor
  · intro info
    rw [findFrom, findFrom, entryNamed, if_neg hne]
  · intro readable' inside
    rw [findFrom, findFrom, entryNamed, if_neg hne]

/-- Every file is found under its path. -/
theorem findFrom_of_mem {es : Entries} (hes : WellFormed es) (readable : Bool)
    {f : List String × ℕ} (h : f ∈ filesBelow es) :
    findFrom (.dir ⟨readable, es⟩) f.1 = some (.file (some f.2)) := by
  induction es generalizing readable f with
  | nil => exact absurd h List.not_mem_nil
  | file name info rest ih =>
    rcases List.mem_append.mp h with h | h
    · obtain ⟨size, hsize, rfl⟩ := List.mem_map.mp h
      rw [Option.mem_toList] at hsize
      cases hsize
      rw [findFrom, entryNamed, if_pos rfl]
      rfl
    · obtain ⟨name', hname', p, hp⟩ := head_mem_names h
      have hne : name ≠ name' := fun heq => hes.1 (heq ▸ hname')
      rw [hp, (findFrom_cons_of_ne hne readable p rest).1, ← hp]
      exact ih hes.2 readable h
  | dir name readable' inside rest ihInside ihRest =>
    obtain ⟨-, -, hfresh, hinside, hrest⟩ := hes
    have hbehind : f ∈ filesBelow rest → findFrom (.dir ⟨readable, .dir name readable' inside rest⟩)
        f.1 = some (.file (some f.2)) := by
      intro h
      obtain ⟨name', hname', p, hp⟩ := head_mem_names h
      have hne : name ≠ name' := fun heq => hfresh (heq ▸ hname')
      rw [hp, (findFrom_cons_of_ne hne readable p rest).2, ← hp]
      exact ihRest hrest readable h
    rw [filesBelow] at h
    split at h
    · exact hbehind h
    · rcases List.mem_append.mp h with h | h
      · obtain ⟨f', hf', rfl⟩ := List.mem_map.mp h
        rw [findFrom, entryNamed, if_pos rfl]
        exact ihInside hinside readable' hf'
      · exact hbehind h

/-- What is found in a file system is well formed, too. -/
def Found.WellFormed : Found → Prop
  | .file _ => True
  | .dir d => Collect.WellFormed d.entries

theorem wellFormed_of_entryNamed {es : Entries} (hes : WellFormed es) {name : String} {f : Found}
    (h : entryNamed name es = some f) : f.WellFormed := by
  induction es with
  | nil => cases h
  | file n info rest ih =>
    rw [entryNamed] at h
    split at h
    · cases h
      exact trivial
    · exact ih hes.2 h
  | dir n readable inside rest ihInside ihRest =>
    rw [entryNamed] at h
    split at h
    · cases h
      exact hes.2.2.2.1
    · exact ihRest hes.2.2.2.2 h

theorem wellFormed_of_findFrom {f f' : Found} (hf : f.WellFormed) {p : List String}
    (h : findFrom f p = some f') : f'.WellFormed := by
  induction p generalizing f with
  | nil =>
    rw [findFrom] at h
    cases h
    exact hf
  | cons name p ih =>
    cases f with
    | file info => cases h
    | dir d =>
      rw [findFrom] at h
      obtain ⟨g, hg, h⟩ := Option.bind_eq_some_iff.mp h
      exact ih (wellFormed_of_entryNamed hf hg) h

/-- A file under a watched folder has one size. -/
theorem sizeOf_of_mem {fs : Dir} (hfs : WellFormed fs.entries) {path : List String} {w : WatchSpec}
    {f : List String × ℕ} (h : f ∈ under fs path w) : sizeOf fs f.1 = f.2 := by
  have hfound : findFrom (.dir fs) f.1 = some (.file (some f.2)) := by
    rw [under] at h
    cases hfull : shareAt fs path w.sub with
    | none =>
      rw [hfull] at h
      exact absurd h List.not_mem_nil
    | some full =>
      rw [hfull] at h
      have hwf : full.WellFormed := wellFormed_of_findFrom (f := .dir fs) hfs hfull
      cases full with
      | file info =>
        obtain ⟨size, hsize, rfl⟩ := List.mem_map.mp h
        rw [Option.mem_toList] at hsize
        cases hsize
        exact hfull
      | dir d =>
        obtain ⟨f', hf', rfl⟩ := List.mem_map.mp h
        rw [findFrom_append]
        show ((shareAt fs path w.sub).bind _) = _
        rw [hfull]
        exact findFrom_of_mem hwf d.readable hf'
  rw [sizeOf, hfound]

/-! ### What is counted -/

theorem walkedFiles_sublist (es : Entries) : (walkedFiles es).Sublist (filesBelow es) :=
  List.take_sublist _ _

/-- What is in the folders that are listed is below the directory. -/
theorem topListed_sublist (es : Entries) (depth count budget : ℕ) :
    ((topListed es depth count budget).flatMap fun e =>
        (walkedFiles e.2.entries).map fun f => (e.1 :: f.1, f.2)).Sublist (filesBelow es) := by
  induction es generalizing depth count budget with
  | nil => exact List.Sublist.refl _
  | file name info rest ih =>
    exact (ih depth count budget).trans (List.sublist_append_right _ _)
  | dir name readable inside rest ihInside ihRest =>
    rw [topListed, filesBelow]
    by_cases hsystem : isSystemFolder name = true
    · rw [if_pos hsystem, if_pos hsystem]
      exact ihRest depth count budget
    · rw [if_neg hsystem, if_neg hsystem]
      by_cases hleft : maxTopFolders ≤ count ∨ budget = 0
      · rw [if_pos hleft]
        exact List.nil_sublist _
      · rw [if_neg hleft, List.flatMap_cons]
        exact ((walkedFiles_sublist inside).map _).append (ihRest _ _ _)

theorem countedAt_sublist (w : WatchSpec) (p : List String) (full : Found) :
    (countedAt w p full).Sublist (filesAt p full) := by
  unfold countedAt
  split
  · exact List.nil_sublist _
  · cases full with
    | file info =>
      dsimp only
      split
      · exact List.nil_sublist _
      · exact List.Sublist.refl _
    | dir d =>
      dsimp only
      split
      · split
        · have hbelow := (topListed_sublist d.entries (scanDepth w.depth) 0 maxFolderNodes).map
            fun f => (p ++ f.1, f.2)
          rw [List.map_flatMap] at hbelow
          simp only [List.map_map, Function.comp_def] at hbelow
          exact hbelow
        · exact List.nil_sublist _
      · exact (walkedFiles_sublist d.entries).map _

theorem counted_sublist (fs : Dir) (path : List String) (w : WatchSpec) :
    (counted fs path w).Sublist (under fs path w) := by
  rw [counted, under]
  cases shareAt fs path w.sub with
  | none => exact List.Sublist.refl _
  | some full => exact countedAt_sublist w _ full

theorem nodup_filesBelow {es : Entries} (hes : WellFormed es) :
    ((filesBelow es).map Prod.fst).Nodup := by
  have hapart : ∀ {name : String} {rest : Entries} {p : List String}, name ∉ names rest →
      ∀ q ∈ (filesBelow rest).map Prod.fst, name :: p ≠ q := by
    intro name rest p hfresh q hq heq
    obtain ⟨f, hf, rfl⟩ := List.mem_map.mp hq
    obtain ⟨name', hname', q', hq'⟩ := head_mem_names hf
    rw [hq'] at heq
    exact hfresh ((List.cons.inj heq).1 ▸ hname')
  induction es with
  | nil => exact List.nodup_nil
  | file name info rest ih =>
    rw [filesBelow, List.map_append]
    apply List.nodup_append.mpr
    refine ⟨?_, ih hes.2, ?_⟩
    · cases info with
      | none => exact List.nodup_nil
      | some size => exact List.nodup_singleton _
    · intro p hp q hq
      cases info with
      | none => exact absurd hp List.not_mem_nil
      | some size =>
        obtain rfl := List.mem_singleton.mp hp
        exact hapart hes.1 q hq
  | dir name readable inside rest ihInside ihRest =>
    obtain ⟨-, -, hfresh, hinside, hrest⟩ := hes
    rw [filesBelow]
    split
    · exact ihRest hrest
    · rw [List.map_append, List.map_map]
      apply List.nodup_append.mpr
      refine ⟨?_, ihRest hrest, ?_⟩
      · have hcons := (ihInside hinside).map (List.cons_injective (a := name))
        rwa [List.map_map] at hcons
      · intro p hp q hq
        obtain ⟨f, -, rfl⟩ := List.mem_map.mp hp
        exact hapart hfresh q hq

theorem nodup_under {fs : Dir} (hfs : WellFormed fs.entries) (path : List String) (w : WatchSpec) :
    ((under fs path w).map Prod.fst).Nodup := by
  rw [under]
  cases hfull : shareAt fs path w.sub with
  | none => exact List.nodup_nil
  | some full =>
    have hwf : full.WellFormed := wellFormed_of_findFrom (f := .dir fs) hfs hfull
    cases full with
    | file info =>
      cases info with
      | none => exact List.nodup_nil
      | some size => exact List.nodup_singleton _
    | dir d =>
      have hbelow := (nodup_filesBelow hwf).map (List.append_right_injective (joinPath path w.sub))
      rw [List.map_map] at hbelow
      show (((filesBelow d.entries).map _).map _).Nodup
      rw [List.map_map]
      exact hbelow

theorem nodup_counted {fs : Dir} (hfs : WellFormed fs.entries) (path : List String)
    (w : WatchSpec) : ((counted fs path w).map Prod.fst).Nodup :=
  (nodup_under hfs path w).sublist ((counted_sublist fs path w).map Prod.fst)

/-! ### Totals -/

/-- The nodes add up to these files. -/
structure AddUpTo (l : List FolderNode) (files : List (List String × ℕ)) : Prop where
  count : (l.map FolderNode.fileCount).sum = files.length
  bytes : (l.map FolderNode.sizeBytes).sum = (files.map Prod.snd).sum

namespace AddUpTo

variable {l l' : List FolderNode} {files files' : List (List String × ℕ)}

theorem nil : AddUpTo [] [] := ⟨rfl, rfl⟩

theorem append (h : AddUpTo l files) (h' : AddUpTo l' files') :
    AddUpTo (l ++ l') (files ++ files') where
  count := by
    rw [List.map_append, List.sum_append, h.count, h'.count, List.length_append]
  bytes := by
    rw [List.map_append, List.sum_append, h.bytes, h'.bytes, List.map_append, List.sum_append]

theorem perm (h : AddUpTo l files) (hperm : l'.Perm l) : AddUpTo l' files where
  count := by
    rw [(hperm.map _).sum_eq]
    exact h.count
  bytes := by
    rw [(hperm.map _).sum_eq]
    exact h.bytes

/-- Files are counted as such, whatever their paths. -/
theorem of_sizes (h : AddUpTo l files) (hsizes : files'.map Prod.snd = files.map Prod.snd) :
    AddUpTo l files' where
  count := by
    rw [h.count, ← List.length_map Prod.snd, ← hsizes, List.length_map]
  bytes := by
    rw [hsizes]
    exact h.bytes

theorem flatMap {α : Type} {l : List α} {nodes : α → List FolderNode}
    {files : α → List (List String × ℕ)} (h : ∀ a ∈ l, AddUpTo (nodes a) (files a)) :
    AddUpTo (l.flatMap nodes) (l.flatMap files) := by
  induction l with
  | nil => exact nil
  | cons a l ih =>
    rw [List.forall_mem_cons] at h
    exact h.1.append (ih h.2)

end AddUpTo

theorem addUpTo_listedNode (e : String × Dir) :
    AddUpTo [listedNode e] (walkedFiles e.2.entries) := by
  have h := dirSize_walked e.2
  refine ⟨?_, ?_⟩
  · rw [List.map_singleton, List.sum_singleton]
    exact h.files.trans (Nat.zero_add _)
  · rw [List.map_singleton, List.sum_singleton]
    exact h.size.trans (Nat.zero_add _)

theorem dirNames_subset (es : Entries) : dirNames es ⊆ names es := by
  induction es with
  | nil => exact List.Subset.refl _
  | file name info rest ih => exact List.subset_cons_of_subset name ih
  | dir name readable inside rest ihInside ihRest => exact List.cons_subset_cons name ihRest

theorem named_of_wellFormed {es : Entries} (hes : WellFormed es) : Named es := by
  induction es with
  | nil => exact trivial
  | file name info rest ih => exact ih hes.2
  | dir name readable inside rest ihInside ihRest =>
    obtain ⟨hname, hslash, hfresh, hinside, hrest⟩ := hes
    exact ⟨hname, hslash, fun h => hfresh (dirNames_subset rest h), ihInside hinside, ihRest hrest⟩

/-- The node of a folder that is watched by its name. -/
def watchedNode (w : WatchSpec) (full : Found) : FolderNode :=
  let t := (full.size none).1
  ⟨w.sub, t.size, t.files, t.dirs⟩

theorem addUpTo_watchedNode (w : WatchSpec) (p : List String) (full : Found) :
    AddUpTo [watchedNode w full] (match full with
      | .file info => info.toList.map fun size => (p, size)
      | .dir d => (walkedFiles d.entries).map fun f => (p ++ f.1, f.2)) := by
  cases full with
  | file info =>
    have hsize : (Found.file info).size none = (fileTally info, none) := by
      rw [Found.size, bind_apply, sizeEntry_file (by decide), Tally.empty_add]
      rfl
    rw [watchedNode, hsize]
    cases info with
    | none => exact ⟨rfl, rfl⟩
    | some size => exact ⟨rfl, rfl⟩
  | dir d =>
    have hnode : AddUpTo [watchedNode w (.dir d)] (walkedFiles d.entries) := by
      have h := dirSize_walked d
      refine ⟨?_, ?_⟩
      · rw [List.map_singleton, List.sum_singleton]
        exact h.files.trans (Nat.zero_add _)
      · rw [List.map_singleton, List.sum_singleton]
        exact h.size.trans (Nat.zero_add _)
    exact hnode.of_sizes List.map_map

variable {sortSize : SizeSort}

/-- The walk of a folder that is watched by its name. -/
theorem walkWatch_named {share : Share} {w : WatchSpec} {full : Found}
    (hfull : share w.sub = some full) (hnamed : ¬ (w.sub = "" ∨ w.sub = ".")) :
    ∃ deeper : List FolderNode, (∀ n ∈ deeper, '/' ∈ n.name.toList) ∧
      (walkWatch sortSize share w none).1 = watchedNode w full :: deeper := by
  have hlabel : w.sub ≠ "" := fun h => hnamed (Or.inl h)
  refine ⟨(enumDeeper (scanDepth w.depth) maxFolderNodes (enumFolders sortSize full.listing w.sub
    (scanDepth w.depth - 1) maxFolderNodes) none).1.1, ?_, ?_⟩
  · intro n hn
    exact slash_mem_of_label sortSize hlabel _ _ _ _ n (mem_enumDeeper sortSize hn)
  · rw [walkWatch, hfull]
    dsimp only
    rw [if_neg hnamed, bind_apply, (cooperative_size full).quiet]
    rfl

theorem walkWatch_whole {share : Share} {w : WatchSpec} {full : Found}
    (hfull : share w.sub = some full) (hwhole : w.sub = "" ∨ w.sub = ".") :
    (walkWatch sortSize share w none).1
      = (enumFolders sortSize full.listing "" (scanDepth w.depth) maxFolderNodes none).1.1 := by
  rw [walkWatch, hfull]
  dsimp only
  rw [if_pos hwhole]
  rfl

theorem maxFolderNodes_ne_zero : maxFolderNodes ≠ 0 := by decide

/-- The nodes of a watched folder without a slash in their names add up to what is counted. -/
theorem topLevel_walkWatch {fs : Dir} (hfs : WellFormed fs.entries) (path : List String)
    (w : WatchSpec) :
    AddUpTo (topLevel (walkWatch sortSize (shareAt fs path) w none).1) (counted fs path w) := by
  rw [counted]
  cases hfull : shareAt fs path w.sub with
  | none =>
    rw [walkWatch, hfull]
    exact AddUpTo.nil
  | some full =>
    have hwf : full.WellFormed := wellFormed_of_findFrom (f := .dir fs) hfs hfull
    show AddUpTo _ (countedAt w (joinPath path w.sub) full)
    unfold countedAt
    by_cases hwhole : w.sub = "" ∨ w.sub = "."
    · have hslash : '/' ∉ w.sub.toList := by
        rcases hwhole with h | h
        all_goals
          rw [h]
          decide
      rw [walkWatch_whole hfull hwhole, if_neg hslash]
      cases full with
      | file info =>
        have hlist := topLevel_enumFolders sortSize (d := ⟨false, .nil⟩) trivial (scanDepth w.depth)
          maxFolderNodes_ne_zero
        dsimp only
        rw [if_pos hwhole]
        exact AddUpTo.nil.perm hlist
      | dir d =>
        have hlist := topLevel_enumFolders sortSize (named_of_wellFormed hwf) (scanDepth w.depth)
          maxFolderNodes_ne_zero
        dsimp only
        rw [if_pos hwhole]
        refine AddUpTo.perm ?_ hlist
        split
        · rw [List.map_eq_flatMap]
          exact AddUpTo.flatMap fun e _ => (addUpTo_listedNode e).of_sizes List.map_map
        · exact AddUpTo.nil
    · obtain ⟨deeper, hdeeper, hwalk⟩ := @walkWatch_named sortSize _ w full hfull hwhole
      rw [hwalk]
      by_cases hslash : '/' ∈ w.sub.toList
      · rw [if_pos hslash, topLevel_eq_nil (List.forall_mem_cons.mpr ⟨hslash, hdeeper⟩)]
        exact AddUpTo.nil
      · rw [if_neg hslash, topLevel_cons hslash, topLevel_eq_nil hdeeper]
        have hnode := addUpTo_watchedNode w (joinPath path w.sub) full
        cases full with
        | file info =>
          dsimp only
          rw [if_neg hwhole]
          exact hnode
        | dir d =>
          dsimp only
          rw [if_neg hwhole]
          exact hnode

section

variable {share : Share} {withFolders : Bool} {watch : List WatchSpec} {cancelAt : Option ℕ}

theorem scan_totals_eq :
    (scan sortSize share withFolders watch cancelAt).progress.files
        = ((topLevel (scan sortSize share withFolders watch cancelAt).folders).map
          FolderNode.fileCount).sum ∧
      (scan sortSize share withFolders watch cancelAt).progress.bytes
        = ((topLevel (scan sortSize share withFolders watch cancelAt).folders).map
          FolderNode.sizeBytes).sum := by
  have hloop := cooperative_scanFolders sortSize share (scanSpecs withFolders watch)
  rw [Scan.folders, scan, runScan, bind_apply, Cooperative.apply_some hloop]
  exact ⟨rfl, rfl⟩

end

/-- The totals of a scan that is completed. -/
theorem scan_totals {fs : Dir} (hfs : WellFormed fs.entries) {path : List String}
    {withFolders : Bool} {watch : List WatchSpec} {cancelAt : Option ℕ}
    (h : (scan sortSize (shareAt fs path) withFolders watch cancelAt).progress.status = "done") :
    AddUpTo (topLevel (scan sortSize (shareAt fs path) withFolders watch cancelAt).folders)
      ((scanSpecs withFolders watch).flatMap (counted fs path)) := by
  rw [Scan.folders, scan_stored_of_done h, List.flatMap_map, topLevel, List.filter_flatMap]
  exact AddUpTo.flatMap fun w _ => topLevel_walkWatch hfs path w

/-! ### Each file once -/

/-- The paths of the files that are counted, once for every time. -/
def countedPaths (fs : Dir) (path : List String) (specs : List WatchSpec) : List (List String) :=
  specs.flatMap fun w => (counted fs path w).map Prod.fst

theorem countedPaths_subset (fs : Dir) (path : List String) (specs : List WatchSpec) :
    countedPaths fs path specs ⊆ distinctFiles fs path specs := by
  intro p hp
  obtain ⟨w, hw, hp⟩ := List.mem_flatMap.mp hp
  rw [distinctFiles, List.mem_dedup, List.mem_flatMap]
  exact ⟨w, hw, ((counted_sublist fs path w).map Prod.fst).subset hp⟩

theorem eachOnce_iff_perm {fs : Dir} (hfs : WellFormed fs.entries) (path : List String)
    (specs : List WatchSpec) :
    EachOnce fs path specs ↔ (countedPaths fs path specs).Perm (distinctFiles fs path specs) := by
  have hcount : ∀ p, (countedPaths fs path specs).count p
      = specs.countP fun w => decide (p ∈ (counted fs path w).map Prod.fst) := fun p =>
    count_flatMap_nodup (fun w _ => nodup_counted hfs path w) p
  have hdistinct : (distinctFiles fs path specs).Nodup := List.nodup_dedup _
  rw [List.perm_iff_count]
  constructor
  · intro h p
    by_cases hp : p ∈ distinctFiles fs path specs
    · rw [hcount, h p hp, List.count_eq_one_of_mem hdistinct hp]
    · rw [List.count_eq_zero_of_not_mem hp,
        List.count_eq_zero_of_not_mem fun h => hp (countedPaths_subset fs path specs h)]
  · intro h p hp
    rw [← hcount, h, List.count_eq_one_of_mem hdistinct hp]

variable {fs : Dir} {path : List String} {withFolders : Bool} {watch : List WatchSpec}

/-- The totals, by the paths of the files. -/
theorem totals_of_done (hfs : WellFormed fs.entries) {cancelAt : Option ℕ}
    (h : (scan sortSize (shareAt fs path) withFolders watch cancelAt).progress.status = "done") :
    (scan sortSize (shareAt fs path) withFolders watch cancelAt).progress.files
        = (countedPaths fs path (scanSpecs withFolders watch)).length ∧
      (scan sortSize (shareAt fs path) withFolders watch cancelAt).progress.bytes
        = ((countedPaths fs path (scanSpecs withFolders watch)).map (sizeOf fs)).sum := by
  have htotals := scan_totals hfs h
  have hpaths : countedPaths fs path (scanSpecs withFolders watch)
      = ((scanSpecs withFolders watch).flatMap (counted fs path)).map Prod.fst :=
    List.map_flatMap.symm
  obtain ⟨hfiles, hbytes⟩ := @scan_totals_eq sortSize (shareAt fs path) withFolders watch cancelAt
  refine ⟨?_, ?_⟩
  · rw [hfiles, htotals.count, hpaths, List.length_map]
  · rw [hbytes, htotals.bytes, hpaths, List.map_map]
    congr 1
    refine List.map_congr_left fun f hf => ?_
    obtain ⟨w, -, hf⟩ := List.mem_flatMap.mp hf
    exact (sizeOf_of_mem hfs ((counted_sublist fs path w).subset hf)).symm

theorem totalsRight_of_eachOnce (hfs : WellFormed fs.entries)
    (h : EachOnce fs path (scanSpecs withFolders watch)) :
    TotalsRight sortSize fs path withFolders watch := by
  intro cancelAt hdone
  have hperm := (eachOnce_iff_perm hfs path _).mp h
  obtain ⟨hfiles, hbytes⟩ := totals_of_done hfs hdone
  rw [hfiles, hbytes]
  exact ⟨hperm.length_eq, (hperm.map _).sum_eq⟩

/-! ### Whatever the sizes -/

theorem names_resize (g : List String → ℕ) (p : List String) (es : Entries) :
    names (resizeBelow g p es) = names es := by
  induction es with
  | nil => rfl
  | file name info rest ih =>
    rw [resizeBelow, names, names, ih]
  | dir name readable inside rest ihInside ihRest =>
    rw [resizeBelow, names, names, ihRest]

theorem wellFormed_resize (g : List String → ℕ) {es : Entries} (hes : WellFormed es)
    (p : List String) : WellFormed (resizeBelow g p es) := by
  induction es generalizing p with
  | nil => exact trivial
  | file name info rest ih =>
    refine ⟨?_, ih hes.2 p⟩
    rw [names_resize]
    exact hes.1
  | dir name readable inside rest ihInside ihRest =>
    obtain ⟨hname, hslash, hfresh, hinside, hrest⟩ := hes
    refine ⟨hname, hslash, ?_, ihInside hinside _, ihRest hrest p⟩
    rw [names_resize]
    exact hfresh

variable (g : List String → ℕ)

theorem countedPaths_resize (specs : List WatchSpec) :
    countedPaths (resize g fs) path specs = countedPaths fs path specs := by
  refine List.flatMap_congr fun w _ => ?_
  rw [counted_resize, List.map_map]
  rfl

theorem distinctFiles_resize (specs : List WatchSpec) :
    distinctFiles (resize g fs) path specs = distinctFiles fs path specs := by
  refine congrArg List.dedup (List.flatMap_congr fun w _ => ?_)
  rw [under_resize, List.map_map]
  rfl

theorem eachOnce_resize (specs : List WatchSpec) :
    EachOnce (resize g fs) path specs ↔ EachOnce fs path specs := by
  have hcounted : ∀ w, (counted (resize g fs) path w).map Prod.fst
      = (counted fs path w).map Prod.fst := by
    intro w
    rw [counted_resize, List.map_map]
    rfl
  rw [EachOnce, EachOnce, distinctFiles_resize]
  simp only [hcounted]

theorem sizeOf_resize (hfs : WellFormed fs.entries) {specs : List WatchSpec} {p : List String}
    (hp : p ∈ distinctFiles fs path specs) : sizeOf (resize g fs) p = g p := by
  rw [distinctFiles, List.mem_dedup, List.mem_flatMap] at hp
  obtain ⟨w, -, hp⟩ := hp
  obtain ⟨f, hf, rfl⟩ := List.mem_map.mp hp
  have hmem : resized g f ∈ under (resize g fs) path w := by
    rw [under_resize]
    exact List.mem_map_of_mem hf
  exact sizeOf_of_mem (wellFormed_resize g hfs []) hmem

namespace Sample

/-- A share with a file, and a folder with another one. -/
def disk : Dir :=
  ⟨true, .dir "share" true
    (.file "a" (some 10) (.dir "b" true (.file "c" (some 5) .nil) .nil)) .nil⟩

end Sample

end Argus.Collect
