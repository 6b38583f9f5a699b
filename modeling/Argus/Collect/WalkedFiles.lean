import Argus.Collect.Cancelled

namespace Argus.Collect

/-!
# The files that walks count

What `dirSize` and `enumFolders` count of a directory, whatever limits are reached.

* `filesBelow`, `walkedFiles` — the files of a directory, and those that `dirSize` gets to.
* `dirSize_walked` — it counts these.
* `topListed` — the folders of a directory that `enumFolders` gets to.
* `topLevel_enumEntries` — their nodes are those without a slash in their names.
-/

open FileTree Polling

/-! ### Files -/

/-- The files below a directory that tell their sizes, system folders apart, in the order of the
    walk. -/
def filesBelow : Entries → List (List String × ℕ)
  | .nil => []
  | .file name info rest => info.toList.map (fun size => ([name], size)) ++ filesBelow rest
  | .dir name _ inside rest =>
    if isSystemFolder name then filesBelow rest
    else (filesBelow inside).map (fun f => (name :: f.1, f.2)) ++ filesBelow rest

/-- Those that `dirSize` gets to. -/
def walkedFiles (es : Entries) : List (List String × ℕ) := (filesBelow es).take maxFilesWalked

/-- The files have been added to a count. -/
structure Adds (t t' : Tally) (l : List (List String × ℕ)) : Prop where
  files : t'.files = t.files + l.length
  size : t'.size = t.size + (l.map Prod.snd).sum

/-- A walk goes on to its end, or to the limit. -/
structure WalksTo (t : Tally) (l : List (List String × ℕ)) (out : Tally × Control) : Prop where
  adds : Adds t out.1 (l.take (maxFilesWalked - t.files))
  stop : out.2 = .next ∨ out.2 = .skipAll ∧ out.1.files = maxFilesWalked

theorem Adds.nil (t : Tally) : Adds t t [] := ⟨rfl, rfl⟩

theorem Adds.append {t t' t'' : Tally} {l l' : List (List String × ℕ)} (h : Adds t t' l)
    (h' : Adds t' t'' l') : Adds t t'' (l ++ l') where
  files := by
    rw [h'.files, h.files, List.length_append, Nat.add_assoc]
  size := by
    rw [h'.size, h.size, List.map_append, List.sum_append, Nat.add_assoc]

/-- A walk that is at the limit. -/
theorem walksTo_of_full {t : Tally} (h : maxFilesWalked ≤ t.files) (hle : t.files ≤ maxFilesWalked)
    (l : List (List String × ℕ)) : WalksTo t l (t, .skipAll) where
  adds := by
    rw [Nat.sub_eq_zero_of_le h, List.take_zero]
    exact Adds.nil t
  stop := Or.inr ⟨rfl, le_antisymm hle h⟩

/-- A walk that goes on after another one, unless that has come to the limit. -/
theorem WalksTo.append {t t' : Tally} {l l' : List (List String × ℕ)} {out : Tally × Control}
    (h : WalksTo t l (t', .next)) (h' : WalksTo t' l' out) :
    WalksTo t (l ++ l') out where
  adds := by
    have hfiles : t'.files = t.files + (l.take (maxFilesWalked - t.files)).length := h.adds.files
    have hroom : l'.take (maxFilesWalked - t'.files)
        = l'.take (maxFilesWalked - t.files - l.length) := by
      rw [List.length_take] at hfiles
      congr 1
      omega
    rw [List.take_append, ← hroom]
    exact h.adds.append h'.adds
  stop := h'.stop

theorem WalksTo.append_stopped {t t' : Tally} {l : List (List String × ℕ)}
    (h : WalksTo t l (t', .skipAll)) (l' : List (List String × ℕ)) :
    WalksTo t (l ++ l') (t', .skipAll) where
  adds := by
    have hfiles : t'.files = t.files + (l.take (maxFilesWalked - t.files)).length := h.adds.files
    have hfull : t'.files = maxFilesWalked := by
      rcases h.stop with hnext | hstop
      · cases hnext
      · exact hstop.2
    have hlength : maxFilesWalked - t.files - l.length = 0 := by
      rw [List.length_take] at hfiles
      omega
    rw [List.take_append, hlength, List.take_zero, List.append_nil]
    exact h.adds
  stop := h.stop

theorem WalksTo.files_le {t : Tally} {l : List (List String × ℕ)} {out : Tally × Control}
    (h : WalksTo t l out) (hle : t.files ≤ maxFilesWalked) : out.1.files ≤ maxFilesWalked := by
  have hfiles := h.adds.files
  rw [List.length_take] at hfiles
  omega

/-- The walk of a directory goes on from a count that has the directory itself, and finds the files
    under other paths. -/
theorem WalksTo.inside {t t' : Tally} {l l' : List (List String × ℕ)} {out : Tally × Control}
    (h : WalksTo t' l' out) (hfiles : t'.files = t.files) (hsize : t'.size = t.size)
    (hl : l.map Prod.snd = l'.map Prod.snd) : WalksTo t l out where
  adds := by
    have hlength : l.length = l'.length := by
      rw [← List.length_map Prod.snd, hl, List.length_map]
    refine ⟨?_, ?_⟩
    · rw [h.adds.files, hfiles, List.length_take, List.length_take, hlength]
    · rw [h.adds.size, hfiles, hsize, List.map_take, List.map_take, hl]
  stop := h.stop

theorem quiet_walk (es : Entries) (t : Tally) : (walk sizeEntry es t none).2 = none :=
  (cooperative_walk cooperative_sizeEntry es t).quiet

theorem sizeEntry_full {v : Visit} {t : Tally} (hv : v ≠ .unread) (h : maxFilesWalked ≤ t.files) :
    sizeEntry v t none = ((t, .skipAll), none) := by
  rw [sizeEntry, if_neg hv, if_pos h]
  rfl

theorem walk_walksTo (es : Entries) {t : Tally} (hle : t.files ≤ maxFilesWalked) :
    WalksTo t (filesBelow es) (walk sizeEntry es t none).1 := by
  induction es generalizing t with
  | nil =>
    refine ⟨?_, Or.inl rfl⟩
    rw [filesBelow, List.take_nil]
    exact Adds.nil t
  | file name info rest ih =>
    rw [walk, bind_apply]
    by_cases hfull : maxFilesWalked ≤ t.files
    · rw [sizeEntry_full (by simp) hfull]
      exact walksTo_of_full hfull hle _
    · rw [sizeEntry_file (Nat.not_le.mp hfull)]
      show WalksTo t _ (walk sizeEntry rest (t.add (fileTally info)) none).1
      have hfirst : WalksTo t (info.toList.map fun size => ([name], size))
          (t.add (fileTally info), .next) := by
        refine ⟨?_, Or.inl rfl⟩
        have hroom : (info.toList.map fun size => ([name], size)).take (maxFilesWalked - t.files)
            = info.toList.map fun size => ([name], size) := by
          apply List.take_of_length_le
          rw [List.length_map]
          have hone := Option.length_toList_le (o := info)
          omega
        rw [hroom]
        cases info with
        | none => exact Adds.nil t
        | some size => exact ⟨rfl, rfl⟩
      exact hfirst.append (ih (hfirst.files_le hle))
  | dir name readable inside rest ihInside ihRest =>
    rw [walk, bind_apply]
    by_cases hfull : maxFilesWalked ≤ t.files
    · rw [sizeEntry_full (by simp) hfull]
      exact walksTo_of_full hfull hle _
    · rw [sizeEntry_dir (Nat.not_le.mp hfull), filesBelow]
      by_cases hsystem : isSystemFolder name = true
      · rw [if_pos hsystem, if_pos hsystem]
        exact ihRest hle
      · rw [if_neg hsystem, if_neg hsystem]
        show WalksTo t _ ((listed sizeEntry readable (t.add ⟨0, 0, 1⟩) >>= _) none).1
        rw [bind_apply, listed_sizeEntry]
        show WalksTo t _ ((walk sizeEntry inside (t.add ⟨0, 0, 1⟩) >>= _) none).1
        rw [bind_apply, quiet_walk]
        have hinside : WalksTo t ((filesBelow inside).map fun f => (name :: f.1, f.2))
            (walk sizeEntry inside (t.add ⟨0, 0, 1⟩) none).1 := by
          have hwalks : WalksTo (t.add ⟨0, 0, 1⟩) (filesBelow inside)
              (walk sizeEntry inside (t.add ⟨0, 0, 1⟩) none).1 := ihInside hle
          have hsizes : ((filesBelow inside).map fun f => (name :: f.1, f.2)).map Prod.snd
              = (filesBelow inside).map Prod.snd := List.map_map
          exact hwalks.inside rfl rfl hsizes
        rcases hwalk : (walk sizeEntry inside (t.add ⟨0, 0, 1⟩) none).1 with ⟨t', control⟩
        rw [hwalk] at hinside
        rcases hinside.stop with rfl | ⟨rfl, -⟩
        · exact hinside.append (ihRest (hinside.files_le hle))
        · exact hinside.append_stopped _

theorem dirSize_walked (d : Dir) : Adds {} (dirSize d none).1 (walkedFiles d.entries) := by
  have hroot : sizeEntry .root {} none = (({}, .next), none) := rfl
  rw [dirSize, walkDir, bind_apply, hroot]
  show Adds {} ((listed sizeEntry d.readable {} >>= _) none).1 _
  rw [bind_apply, listed_sizeEntry]
  exact (walk_walksTo d.entries (t := {}) (Nat.zero_le _)).adds

/-! ### Folders -/

/-- What the loop of `enumFolders` leaves of the budget. -/
def budgetLeft : Entries → ℕ → ℕ → ℕ → ℕ
  | .nil, _, _, budget => budget
  | .file _ _ rest, depth, count, budget => budgetLeft rest depth count budget
  | .dir name readable inside rest, depth, count, budget =>
    if isSystemFolder name then budgetLeft rest depth count budget
    else if maxTopFolders ≤ count ∨ budget = 0 then budget
    else
      budgetLeft rest depth (count + 1)
        (if 1 < depth ∧ readable = true then budgetLeft inside (depth - 1) 0 (budget - 1)
          else budget - 1)

/-- The folders of the directory itself that it gets to within the limits. -/
def topListed : Entries → ℕ → ℕ → ℕ → List (String × Dir)
  | .nil, _, _, _ => []
  | .file _ _ rest, depth, count, budget => topListed rest depth count budget
  | .dir name readable inside rest, depth, count, budget =>
    if isSystemFolder name then topListed rest depth count budget
    else if maxTopFolders ≤ count ∨ budget = 0 then []
    else
      (name, ⟨readable, inside⟩) :: topListed rest depth (count + 1)
        (if 1 < depth ∧ readable = true then budgetLeft inside (depth - 1) 0 (budget - 1)
          else budget - 1)

theorem budgetLeft_zero (es : Entries) (depth count : ℕ) : budgetLeft es depth count 0 = 0 := by
  induction es with
  | nil => rfl
  | file name info rest ih => exact ih
  | dir name readable inside rest ihInside ihRest =>
    rw [budgetLeft]
    split
    · exact ihRest
    · exact if_pos (Or.inr rfl)

/-- The node of a folder that is listed under this label. -/
def listedNode (e : String × Dir) : FolderNode :=
  let t := (dirSize e.2 none).1
  ⟨e.1, t.size, t.files, t.dirs⟩

variable (sortSize : SizeSort)

/-- What the loop lists of a folder: the node, what is below it, and what comes behind it. -/
theorem enumEntries_dir_none {name label : String} {readable : Bool} {inside rest : Entries}
    {depth count budget : ℕ} (hsystem : ¬ isSystemFolder name = true)
    (hleft : ¬ (maxTopFolders ≤ count ∨ budget = 0)) :
    enumEntries sortSize (.dir name readable inside rest) label depth count budget none
      = let sub := (enumDeeper depth (budget - 1) (enumDir sortSize readable (budget - 1)
          (enumEntries sortSize inside (joinLabel label name) (depth - 1) 0)) none).1
        let more := (enumEntries sortSize rest label depth (count + 1) sub.2 none).1
        ((listedNode (joinLabel label name, ⟨readable, inside⟩) :: sub.1 ++ more.1, more.2),
          none) := by
  have hsize := (cooperative_dirSize ⟨readable, inside⟩).quiet
  have hdeeper : (enumDeeper depth (budget - 1) (enumDir sortSize readable (budget - 1)
      (enumEntries sortSize inside (joinLabel label name) (depth - 1) 0)) none).2 = none := by
    rw [enumDeeper]
    split
    · exact (cooperative_enumDir sortSize fun left =>
        cooperative_enumEntries sortSize _ _ _ _ left).quiet
    · rfl
  rw [enumEntries, if_neg hsystem, if_neg hleft, bind_apply, folder_none]
  show (dirSize ⟨readable, inside⟩ >>= _) none = _
  rw [bind_apply, hsize]
  show (enumDeeper depth (budget - 1) _ >>= _) none = _
  rw [bind_apply, hdeeper]
  show (enumEntries sortSize rest label depth (count + 1) _ >>= _) none = _
  rw [bind_apply, (cooperative_enumEntries sortSize rest label depth (count + 1) _).quiet]
  rfl

/-- A directory that cannot be listed, or for which there is no budget, leaves the budget alone. -/
theorem enumDir_left {readable : Bool} {inside : Entries} {label : String} {depth budget : ℕ}
    (hloop : (enumEntries sortSize inside label depth 0 budget none).1.2
      = budgetLeft inside depth 0 budget) :
    (enumDir sortSize readable budget (enumEntries sortSize inside label depth 0) none).1.2
      = if readable = true then budgetLeft inside depth 0 budget else budget := by
  rw [enumDir]
  by_cases hzero : budget = 0
  · rw [if_pos hzero, hzero, budgetLeft_zero]
    exact (ite_self _).symm
  · rw [if_neg hzero, bind_apply]
    cases readable with
    | true => exact hloop
    | false => rfl

theorem enumDeeper_left {readable : Bool} {inside : Entries} {label : String} {depth budget : ℕ}
    (hloop : (enumEntries sortSize inside label (depth - 1) 0 budget none).1.2
      = budgetLeft inside (depth - 1) 0 budget) :
    (enumDeeper depth budget (enumDir sortSize readable budget
        (enumEntries sortSize inside label (depth - 1) 0)) none).1.2
      = if 1 < depth ∧ readable = true then budgetLeft inside (depth - 1) 0 budget else budget := by
  rw [enumDeeper]
  by_cases hdeep : 1 < depth
  · rw [if_pos hdeep, enumDir_left sortSize hloop]
    simp only [hdeep, true_and]
  · rw [if_neg hdeep, if_neg fun h => hdeep h.1]
    rfl

theorem enumEntries_left (es : Entries) (label : String) (depth count budget : ℕ) :
    (enumEntries sortSize es label depth count budget none).1.2
      = budgetLeft es depth count budget := by
  induction es generalizing label depth count budget with
  | nil => rfl
  | file name info rest ih => exact ih label depth count budget
  | dir name readable inside rest ihInside ihRest =>
    rw [budgetLeft]
    by_cases hsystem : isSystemFolder name = true
    · rw [enumEntries, if_pos hsystem, if_pos hsystem]
      exact ihRest label depth count budget
    · rw [if_neg hsystem]
      by_cases hleft : maxTopFolders ≤ count ∨ budget = 0
      · rw [enumEntries, if_neg hsystem, if_pos hleft, if_pos hleft]
        rfl
      · rw [enumEntries_dir_none sortSize hsystem hleft, if_neg hleft]
        show (enumEntries sortSize rest label depth (count + 1) _ none).1.2 = _
        rw [ihRest, enumDeeper_left sortSize (ihInside _ _ _ _)]

/-! ### Labels -/

theorem slash_mem_joinLabel {label : String} (h : label ≠ "") (name : String) :
    '/' ∈ (joinLabel label name).toList := by
  rw [joinLabel, if_neg h, String.toList_append, String.toList_append]
  exact List.mem_append_left _ (List.mem_append_right _ (by decide))

/-- What is listed deeper is what the loop lists of the directory. -/
theorem mem_enumDeeper {readable : Bool} {inside : Entries} {label : String} {depth budget : ℕ}
    {n : FolderNode}
    (h : n ∈ (enumDeeper depth budget (enumDir sortSize readable budget
      (enumEntries sortSize inside label (depth - 1) 0)) none).1.1) :
    n ∈ (enumEntries sortSize inside label (depth - 1) 0 budget none).1.1 := by
  rw [enumDeeper] at h
  split at h
  · rw [enumDir] at h
    split at h
    · exact absurd h List.not_mem_nil
    · rw [bind_apply] at h
      cases readable with
      | true => exact (sortSize.perm _).mem_iff.mp h
      | false => exact absurd h List.not_mem_nil
  · exact absurd h List.not_mem_nil

/-- What is listed under a label has a slash in its name. -/
theorem slash_mem_of_label {label : String} (hlabel : label ≠ "") (es : Entries)
    (depth count budget : ℕ) :
    ∀ n ∈ (enumEntries sortSize es label depth count budget none).1.1, '/' ∈ n.name.toList := by
  induction es generalizing label depth count budget with
  | nil => exact fun _ h => absurd h List.not_mem_nil
  | file name info rest ih => exact ih hlabel depth count budget
  | dir name readable inside rest ihInside ihRest =>
    by_cases hsystem : isSystemFolder name = true
    · rw [enumEntries, if_pos hsystem]
      exact ihRest hlabel depth count budget
    by_cases hleft : maxTopFolders ≤ count ∨ budget = 0
    · rw [enumEntries, if_neg hsystem, if_pos hleft]
      exact fun _ h => absurd h List.not_mem_nil
    have hslash := slash_mem_joinLabel hlabel name
    have hne : joinLabel label name ≠ "" := by
      intro hempty
      rw [hempty] at hslash
      exact absurd hslash (by decide)
    intro n hn
    rw [enumEntries_dir_none sortSize hsystem hleft] at hn
    rcases List.mem_append.mp hn with hn | hn
    · rcases List.mem_cons.mp hn with rfl | hn
      · exact hslash
      · exact ihInside hne _ _ _ n (mem_enumDeeper sortSize hn)
    · exact ihRest hlabel _ _ _ n hn

theorem topLevel_eq_nil {l : List FolderNode} (h : ∀ n ∈ l, '/' ∈ n.name.toList) :
    topLevel l = [] := by
  rw [topLevel, List.filter_eq_nil_iff]
  intro n hn
  have hslash : n.name.toList.contains '/' = true := List.contains_iff_mem.mpr (h n hn)
  rw [hslash]
  exact Bool.false_ne_true

theorem topLevel_cons {n : FolderNode} (h : '/' ∉ n.name.toList) (l : List FolderNode) :
    topLevel (n :: l) = n :: topLevel l := by
  have hslash : n.name.toList.contains '/' = false := by
    rw [← Bool.not_eq_true, List.contains_iff_mem]
    exact h
  rw [topLevel, List.filter_cons_of_pos (by rw [hslash]; rfl)]
  rfl

theorem topLevel_append (l l' : List FolderNode) :
    topLevel (l ++ l') = topLevel l ++ topLevel l' := List.filter_append _ _

/-- The folders of the directory itself are those whose names have no slash. -/
theorem topLevel_enumEntries {es : Entries} (hnamed : Named es) (depth count budget : ℕ) :
    topLevel (enumEntries sortSize es "" depth count budget none).1.1
      = (topListed es depth count budget).map listedNode := by
  induction es generalizing depth count budget with
  | nil => rfl
  | file name info rest ih => exact ih hnamed depth count budget
  | dir name readable inside rest ihInside ihRest =>
    obtain ⟨hname, hslash, -, -, hrest⟩ := hnamed
    rw [topListed]
    by_cases hsystem : isSystemFolder name = true
    · rw [enumEntries, if_pos hsystem, if_pos hsystem]
      exact ihRest hrest depth count budget
    rw [if_neg hsystem]
    by_cases hleft : maxTopFolders ≤ count ∨ budget = 0
    · rw [enumEntries, if_neg hsystem, if_pos hleft, if_pos hleft]
      rfl
    have hlabel : joinLabel "" name = name := if_pos rfl
    have hbelow : topLevel (enumDeeper depth (budget - 1) (enumDir sortSize readable (budget - 1)
        (enumEntries sortSize inside name (depth - 1) 0)) none).1.1 = [] := by
      apply topLevel_eq_nil
      intro n hn
      exact slash_mem_of_label sortSize hname inside (depth - 1) 0 (budget - 1) n
        (mem_enumDeeper sortSize hn)
    rw [enumEntries_dir_none sortSize hsystem hleft, if_neg hleft, hlabel]
    show topLevel (_ :: _ ++ _) = _
    rw [topLevel_append, topLevel_cons hslash, hbelow, ihRest hrest,
      enumDeeper_left sortSize (enumEntries_left sortSize inside _ _ _ _)]
    rfl

theorem topLevel_perm {l l' : List FolderNode} (h : l.Perm l') :
    (topLevel l).Perm (topLevel l') := h.filter _

/-- Of a directory that can be listed, and of no other one. -/
theorem topLevel_enumFolders {d : Dir} (hnamed : Named d.entries) (depth : ℕ) {budget : ℕ}
    (hbudget : budget ≠ 0) :
    (topLevel (enumFolders sortSize d "" depth budget none).1.1).Perm
      (if d.readable then (topListed d.entries depth 0 budget).map listedNode else []) := by
  obtain ⟨readable, entries⟩ := d
  rw [enumFolders, enumDir, if_neg hbudget, bind_apply]
  cases readable with
  | true =>
    have hlist := topLevel_enumEntries sortSize hnamed depth 0 budget
    rw [if_pos rfl, ← hlist]
    exact topLevel_perm (sortSize.perm _)
  | false => exact List.Perm.refl _

end Argus.Collect
