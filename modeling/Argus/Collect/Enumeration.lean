import Argus.Collect.Folders
import Mathlib.Algebra.Order.Ring.Nat
import Mathlib.Data.List.Nodup

namespace Argus.Collect

/-!
# The folders that are listed

`enumFolders` and `dirSize` go over the same tree by different rules.  If nothing is cut off, the
nodes are those of the folders within the depth, each with all that is in it.

* `enumFolders_length_le` — the budget is kept, whatever the tree and whenever the scan is
  cancelled.
* `Fits` — a tree in which no limit is reached.
* `enumEntries_none`, `enumFolders_none` — what is listed of such a tree.
* `slashPath`, `enumFolders_lists` — every folder is listed once, under its path.
* `total_eq_own_add`, `enumFolders_exact` — all of this together.
-/

open FileTree Polling

variable (sortSize : SizeSort)

/-! ### The budget -/

/-- What has been listed and what is left are not more than the budget. -/
def KeepsBudget (budget : ℕ) (x : ScanM (List FolderNode × ℕ)) : Prop :=
  ∀ run, (x run).1.1.length + (x run).1.2 ≤ budget

section

variable {α : Type} {budget : ℕ}

theorem keepsBudget_stop {left : ℕ} (h : left ≤ budget) : KeepsBudget budget (pure ([], left)) :=
  fun _ => (Nat.zero_add left).trans_le h

theorem keepsBudget_bind (x : ScanM α) {f : α → ScanM (List FolderNode × ℕ)}
    (hf : ∀ a, KeepsBudget budget (f a)) : KeepsBudget budget (x >>= f) :=
  fun run => hf (x run).1 (x run).2

theorem keepsBudget_enumDir {readable : Bool} {loop : ℕ → ScanM (List FolderNode × ℕ)}
    (hloop : KeepsBudget budget (loop budget)) :
    KeepsBudget budget (enumDir sortSize readable budget loop) := by
  rw [enumDir]
  split
  · exact keepsBudget_stop le_rfl
  · apply keepsBudget_bind
    intro stop
    split
    · exact keepsBudget_stop le_rfl
    · split
      · intro run
        show (sortSize.sort (loop budget run).1.1).length + (loop budget run).1.2 ≤ budget
        rw [(sortSize.perm _).length_eq]
        exact hloop run
      · exact keepsBudget_stop le_rfl

/-- A node, the folders below it, and what comes behind them. -/
theorem keepsBudget_node {x : ScanM (List FolderNode × ℕ)}
    {rest : ℕ → ScanM (List FolderNode × ℕ)} (node : FolderNode) (hpos : budget ≠ 0)
    (hx : KeepsBudget (budget - 1) x) (hrest : ∀ left, KeepsBudget left (rest left)) :
    KeepsBudget budget (do
      let (sub, left) ← x
      let (more, left) ← rest left
      pure (node :: sub ++ more, left)) := by
  intro run
  have hsub := hx run
  have hmore := hrest (x run).1.2 (x run).2
  show (node :: (x run).1.1 ++ (rest (x run).1.2 (x run).2).1.1).length
    + (rest (x run).1.2 (x run).2).1.2 ≤ budget
  rw [List.cons_append, List.length_cons, List.length_append]
  omega

theorem keepsBudget_enumEntries (es : Entries) (label : String) (depth count budget : ℕ) :
    KeepsBudget budget (enumEntries sortSize es label depth count budget) := by
  induction es generalizing label depth count budget with
  | nil => exact keepsBudget_stop le_rfl
  | file name info rest ih => exact ih label depth count budget
  | dir name readable inside rest ihInside ihRest =>
    rw [enumEntries]
    split
    · exact ihRest label depth count budget
    · split
      · exact keepsBudget_stop le_rfl
      · rename_i hleft
        apply keepsBudget_bind
        intro goOn
        split
        · apply keepsBudget_bind
          intro t
          apply keepsBudget_node _ (fun hzero => hleft (Or.inr hzero))
          · rw [enumDeeper]
            split
            · exact keepsBudget_enumDir sortSize (ihInside _ _ _ _)
            · exact keepsBudget_stop le_rfl
          · exact fun left => ihRest label depth (count + 1) left
        · exact keepsBudget_stop (Nat.sub_le _ _)

/-- There are never more nodes than the budget has. -/
theorem enumFolders_length_le (d : Dir) (label : String) (depth budget : ℕ)
    (run : Option (Run ScanProgress)) :
    (enumFolders sortSize d label depth budget run).1.1.length ≤ budget :=
  (Nat.le_add_right _ _).trans
    (keepsBudget_enumDir sortSize (keepsBudget_enumEntries sortSize _ _ _ _ _) run)

end

/-! ### Trees in which no limit is reached -/

/-- Every directory can be listed and has few folders, and there are few files. -/
structure Fits (d : Dir) : Prop where
  readable : d.readable = true
  narrow : subfolders d.entries ≤ maxTopFolders
  below : ∀ e ∈ foldersBelow d.entries,
    e.2.readable = true ∧ subfolders e.2.entries ≤ maxTopFolders
  files : (total d.entries).files < maxFilesWalked

section

variable {name : String} {readable : Bool} {inside rest : Entries} {depth : ℕ}

theorem foldersBelow_dir (hsystem : ¬ isSystemFolder name = true) :
    foldersBelow (.dir name readable inside rest)
      = ([name], ⟨readable, inside⟩) ::
        (foldersBelow inside).map (fun e => (name :: e.1, e.2)) ++ foldersBelow rest := by
  rw [foldersBelow, if_neg hsystem]

theorem ne_nil_of_mem_foldersBelow {es : Entries} {e : List String × Dir}
    (h : e ∈ foldersBelow es) : e.1 ≠ [] := by
  induction es with
  | nil => exact absurd h List.not_mem_nil
  | file name info rest ih => exact ih h
  | dir name readable inside rest ihInside ihRest =>
    rw [foldersBelow] at h
    split at h
    · exact ihRest h
    · rcases List.mem_append.mp h with h | h
      · rcases List.mem_cons.mp h with rfl | h
        · exact List.cons_ne_nil _ _
        · obtain ⟨e', -, rfl⟩ := List.mem_map.mp h
          exact List.cons_ne_nil _ _
      · exact ihRest h

theorem foldersWithin_zero (es : Entries) : foldersWithin 0 es = [] := by
  refine List.filter_eq_nil_iff.mpr (fun e he hlength => ?_)
  have hzero := of_decide_eq_true hlength
  exact ne_nil_of_mem_foldersBelow he (List.length_eq_zero_iff.mp (Nat.le_zero.mp hzero))

theorem foldersWithin_dir (hsystem : ¬ isSystemFolder name = true) (hdepth : 1 ≤ depth) :
    foldersWithin depth (.dir name readable inside rest)
      = ([name], ⟨readable, inside⟩) ::
        (foldersWithin (depth - 1) inside).map (fun e => (name :: e.1, e.2))
          ++ foldersWithin depth rest := by
  have hinside : ((foldersBelow inside).map fun e => (name :: e.1, e.2)).filter
      (fun e => e.1.length ≤ depth)
        = (foldersWithin (depth - 1) inside).map fun e => (name :: e.1, e.2) := by
    rw [List.filter_map, foldersWithin]
    congr 1
    refine List.filter_congr (fun e _ => ?_)
    show decide ((name :: e.1).length ≤ depth) = _
    rw [List.length_cons]
    exact decide_eq_decide.mpr (by omega)
  rw [foldersWithin, foldersBelow_dir hsystem, List.filter_append, List.filter_cons_of_pos
    (by simpa using hdepth), hinside]
  rfl

end

/-! ### What is listed -/

/-- A list of folders is what a directory has within the depth, and the budget has paid for it. -/
def Lists (depth : ℕ) (es : Entries) (label : String) (budget : ℕ)
    (x : ScanM (List FolderNode × ℕ)) : Prop :=
  ∃ out, x none = ((out, budget - (foldersWithin depth es).length), none) ∧
    out.Perm ((foldersWithin depth es).map (nodeAt label))

section

variable {label : String} {depth count budget : ℕ}

theorem lists_enumDir {d : Dir} {loop : ℕ → ScanM (List FolderNode × ℕ)}
    (hreadable : d.readable = true) (hbudget : (foldersWithin depth d.entries).length ≤ budget)
    (hloop : Lists depth d.entries label budget (loop budget)) :
    Lists depth d.entries label budget (enumDir sortSize d.readable budget loop) := by
  rw [enumDir]
  by_cases hzero : budget = 0
  · have hnone : foldersWithin depth d.entries = [] :=
      List.length_eq_zero_iff.mp (Nat.le_zero.mp (hzero ▸ hbudget))
    rw [if_pos hzero, Lists, hnone]
    exact ⟨[], rfl, List.Perm.refl _⟩
  · obtain ⟨out, hout, hperm⟩ := hloop
    rw [if_neg hzero, hreadable]
    refine ⟨sortSize.sort out, ?_, (sortSize.perm out).trans hperm⟩
    rw [bind_apply]
    show (loop budget >>= _) none = _
    rw [bind_apply, hout]
    rfl

theorem lists_enumDeeper {inside : Entries} {x : ScanM (List FolderNode × ℕ)}
    (hx : 1 < depth → Lists (depth - 1) inside label budget x) :
    Lists (depth - 1) inside label budget (enumDeeper depth budget x) := by
  rw [enumDeeper]
  split
  · rename_i hdeep
    exact hx hdeep
  · rename_i hflat
    have hzero : depth - 1 = 0 := by omega
    rw [hzero, Lists, foldersWithin_zero]
    exact ⟨[], rfl, List.Perm.refl _⟩

theorem enumEntries_none (es : Entries) (hcount : count + subfolders es ≤ maxTopFolders)
    (hbelow : ∀ e ∈ foldersBelow es,
      e.2.readable = true ∧ subfolders e.2.entries ≤ maxTopFolders)
    (hfiles : (total es).files < maxFilesWalked) (hdepth : 1 ≤ depth)
    (hbudget : (foldersWithin depth es).length ≤ budget) :
    Lists depth es label budget (enumEntries sortSize es label depth count budget) := by
  induction es generalizing label depth count budget with
  | nil => exact ⟨[], rfl, List.Perm.refl _⟩
  | file name info rest ih =>
    rw [total, Tally.add_files] at hfiles
    exact ih hcount hbelow (by omega) hdepth hbudget
  | dir name readable inside rest ihInside ihRest =>
    rw [enumEntries]
    by_cases hsystem : isSystemFolder name = true
    · rw [subfolders, if_pos hsystem] at hcount
      rw [foldersBelow, if_pos hsystem] at hbelow
      rw [total, if_pos hsystem] at hfiles
      have hwithin : foldersWithin depth (.dir name readable inside rest)
          = foldersWithin depth rest := by
        rw [foldersWithin, foldersBelow, if_pos hsystem]
        rfl
      rw [hwithin] at hbudget
      rw [if_pos hsystem, Lists, hwithin]
      exact ihRest hcount hbelow hfiles hdepth hbudget
    · rw [subfolders, if_neg hsystem] at hcount
      rw [foldersBelow_dir hsystem] at hbelow
      rw [total, if_neg hsystem, Tally.add_files, Tally.add_files] at hfiles
      rw [foldersWithin_dir hsystem hdepth, List.cons_append, List.length_cons,
        List.length_append, List.length_map] at hbudget
      have hfolder := hbelow ([name], ⟨readable, inside⟩)
        (List.mem_append_left _ List.mem_cons_self)
      have hnarrow : subfolders inside ≤ maxTopFolders := hfolder.2
      have hinside : ∀ e ∈ foldersBelow inside,
          e.2.readable = true ∧ subfolders e.2.entries ≤ maxTopFolders := by
        intro e he
        exact hbelow (name :: e.1, e.2) (List.mem_append_left _
          (List.mem_cons_of_mem _ (List.mem_map.mpr ⟨e, he, rfl⟩)))
      have hrest : ∀ e ∈ foldersBelow rest,
          e.2.readable = true ∧ subfolders e.2.entries ≤ maxTopFolders := fun e he =>
        hbelow e (List.mem_append_right _ he)
      have hspent : (foldersWithin (depth - 1) inside).length ≤ budget - 1 := by omega
      -- The folders of this one come first, and those of the entries behind it after them.
      have hdeeper : Lists (depth - 1) inside (joinLabel label name) (budget - 1)
          (enumDeeper depth (budget - 1) (enumDir sortSize readable (budget - 1)
            (enumEntries sortSize inside (joinLabel label name) (depth - 1) 0))) :=
        lists_enumDeeper fun hdeep => lists_enumDir (d := ⟨readable, inside⟩) sortSize hfolder.1
          hspent (ihInside (by omega) hinside (by omega) (by omega) hspent)
      have hbehind : Lists depth rest label (budget - 1 - (foldersWithin (depth - 1) inside).length)
          (enumEntries sortSize rest label depth (count + 1)
            (budget - 1 - (foldersWithin (depth - 1) inside).length)) :=
        ihRest (by omega) hrest (by omega) hdepth (by omega)
      obtain ⟨sub, hsub, hsubPerm⟩ := hdeeper
      obtain ⟨more, hmore, hmorePerm⟩ := hbehind
      have hleft : ¬ (maxTopFolders ≤ count ∨ budget = 0) := by omega
      have hsize : dirSize ⟨readable, inside⟩ none = (total inside, none) :=
        dirSize_none (by show (total inside).files < _; omega)
      rw [if_neg hsystem, if_neg hleft, Lists, foldersWithin_dir hsystem hdepth]
      refine ⟨⟨joinLabel label name, (total inside).size, (total inside).files,
        (total inside).dirs⟩ :: sub ++ more, ?_, ?_⟩
      · rw [bind_apply, folder_none]
        show (dirSize ⟨readable, inside⟩ >>= _) none = _
        rw [bind_apply, hsize]
        show (enumDeeper depth (budget - 1) _ >>= _) none = _
        rw [bind_apply, hsub]
        show (enumEntries sortSize rest label depth (count + 1) _ >>= _) none = _
        rw [bind_apply, hmore]
        show ((_, budget - 1 - _ - _), none) = ((_, _), none)
        rw [List.cons_append, List.cons_append, List.length_cons, List.length_append,
          List.length_map, Nat.sub_sub, Nat.sub_sub, Nat.add_comm 1, Nat.add_right_comm]
      · rw [List.cons_append, List.cons_append, List.map_cons, List.map_append, List.map_map]
        exact (hsubPerm.append hmorePerm).cons _

theorem enumFolders_none {d : Dir} (hfits : Fits d) (hdepth : 1 ≤ depth)
    (hbudget : (foldersWithin depth d.entries).length ≤ budget) :
    Lists depth d.entries label budget (enumFolders sortSize d label depth budget) := by
  apply lists_enumDir sortSize hfits.readable hbudget
  apply enumEntries_none sortSize d.entries _ hfits.below hfits.files hdepth hbudget
  rw [Nat.zero_add]
  exact hfits.narrow

end

/-! ### Labels -/

/-- The names of the directories among the entries. -/
def dirNames : Entries → List String
  | .nil => []
  | .file _ _ rest => dirNames rest
  | .dir name _ _ rest => name :: dirNames rest

/-- Directories have names without slashes, and no two of them in one have the same. -/
def Named : Entries → Prop
  | .nil => True
  | .file _ _ rest => Named rest
  | .dir name _ inside rest =>
    name ≠ "" ∧ '/' ∉ name.toList ∧ name ∉ dirNames rest ∧ Named inside ∧ Named rest

instance decidableNamed : (es : Entries) → Decidable (Named es)
  | .nil => inferInstanceAs (Decidable True)
  | .file _ _ rest => decidableNamed rest
  | .dir name _ inside rest =>
    have := decidableNamed inside
    have := decidableNamed rest
    inferInstanceAs (Decidable
      (name ≠ "" ∧ '/' ∉ name.toList ∧ name ∉ dirNames rest ∧ Named inside ∧ Named rest))

/-- A path below a folder, with slashes. -/
def slashPath (label : String) (p : List String) : String :=
  "/".intercalate (if label = "" then p else label :: p)

theorem foldl_joinLabel {p : List String} (hne : ∀ name ∈ p, name ≠ "") (label : String) :
    p.foldl joinLabel label = slashPath label p := by
  induction p generalizing label with
  | nil =>
    rw [slashPath]
    split
    · rename_i hlabel
      exact hlabel
    · exact String.intercalate_singleton.symm
  | cons name p ih =>
    rw [List.forall_mem_cons] at hne
    rw [List.foldl_cons, ih hne.2, slashPath, slashPath, joinLabel]
    by_cases hlabel : label = ""
    · rw [if_pos hlabel, if_neg hne.1, if_pos hlabel]
    · have hjoined : label ++ "/" ++ name ≠ "" := by
        intro hempty
        have hparts := String.append_eq_empty_iff.mp hempty
        exact hne.1 hparts.2
      rw [if_neg hlabel, if_neg hjoined, if_neg hlabel,
        String.intercalate_cons_cons, String.intercalate_cons_append]

/-- The names on the way to a folder. -/
theorem names_of_mem_foldersBelow {es : Entries} (hnamed : Named es) {e : List String × Dir}
    (h : e ∈ foldersBelow es) :
    (∀ name ∈ e.1, name ≠ "" ∧ '/' ∉ name.toList) ∧
      ∃ name ∈ dirNames es, e.1.head? = some name := by
  induction es generalizing e with
  | nil => exact absurd h List.not_mem_nil
  | file name info rest ih => exact ih hnamed h
  | dir name readable inside rest ihInside ihRest =>
    obtain ⟨hname, hslash, -, hinside, hrest⟩ := hnamed
    have hbehind : e ∈ foldersBelow rest → (∀ name ∈ e.1, name ≠ "" ∧ '/' ∉ name.toList) ∧
        ∃ d ∈ name :: dirNames rest, e.1.head? = some d := by
      intro he
      obtain ⟨hnames, d, hd, hhead⟩ := ihRest hrest he
      exact ⟨hnames, d, List.mem_cons_of_mem name hd, hhead⟩
    rw [foldersBelow] at h
    split at h
    · exact hbehind h
    · rcases List.mem_append.mp h with h | h
      · rcases List.mem_cons.mp h with rfl | h
        · refine ⟨fun d hd => ?_, name, List.mem_cons_self, rfl⟩
          rw [List.mem_singleton.mp hd]
          exact ⟨hname, hslash⟩
        · obtain ⟨e', he', rfl⟩ := List.mem_map.mp h
          refine ⟨fun d hd => ?_, name, List.mem_cons_self, rfl⟩
          rcases List.mem_cons.mp hd with rfl | hd
          · exact ⟨hname, hslash⟩
          · exact (ihInside hinside he').1 d hd
      · exact hbehind h

theorem nodup_foldersBelow {es : Entries} (hnamed : Named es) :
    ((foldersBelow es).map Prod.fst).Nodup := by
  induction es with
  | nil => exact List.nodup_nil
  | file name info rest ih => exact ih hnamed
  | dir name readable inside rest ihInside ihRest =>
    obtain ⟨-, -, hfresh, hinside, hrest⟩ := hnamed
    rw [foldersBelow]
    split
    · exact ihRest hrest
    · rw [List.map_append, List.map_cons, List.map_map]
      have hpaths : (foldersBelow inside).map (Prod.fst ∘ fun e => (name :: e.1, e.2))
          = ((foldersBelow inside).map Prod.fst).map (name :: ·) := by
        rw [List.map_map]
        rfl
      rw [hpaths]
      refine List.nodup_append'.mpr ⟨List.nodup_cons.mpr ⟨fun hone => ?_, ?_⟩, ihRest hrest, ?_⟩
      · obtain ⟨q, hq, heq⟩ := List.mem_map.mp hone
        obtain ⟨e, he, rfl⟩ := List.mem_map.mp hq
        exact ne_nil_of_mem_foldersBelow he (List.cons.inj heq).2
      · exact (ihInside hinside).map List.cons_injective
      · -- The paths behind begin with another name.
        intro q hq hq'
        obtain ⟨e, he, rfl⟩ := List.mem_map.mp hq'
        obtain ⟨-, d, hd, hhead⟩ := names_of_mem_foldersBelow hrest he
        have hfirst : e.1.head? = some name := by
          rcases List.mem_cons.mp hq with hone | hq
          · rw [hone]
            rfl
          · obtain ⟨p, -, heq⟩ := List.mem_map.mp hq
            rw [← heq]
            rfl
        obtain rfl := Option.some.inj (hhead.symm.trans hfirst)
        exact hfresh hd

/-- A label tells its path. -/
theorem slashPath_inj {label : String} {p q : List String}
    (hp : ∀ name ∈ p, '/' ∉ name.toList) (hq : ∀ name ∈ q, '/' ∉ name.toList) (hpne : p ≠ [])
    (hqne : q ≠ []) (h : slashPath label p = slashPath label q) : p = q := by
  have hsplit : ∀ {p : List String}, (∀ name ∈ p, '/' ∉ name.toList) → p ≠ [] →
      ("/".intercalate p).toList.splitOn '/' = p.map String.toList := by
    intro p hp hne
    rw [String.toList_intercalate]
    refine List.splitOn_intercalate '/' ?_ (by simpa using hne)
    intro s hs
    obtain ⟨name, hname, rfl⟩ := List.mem_map.mp hs
    exact hp name hname
  have hrest : "/".intercalate p = "/".intercalate q := by
    rw [slashPath, slashPath] at h
    by_cases hlabel : label = ""
    · rw [if_pos hlabel, if_pos hlabel] at h
      exact h
    · rw [if_neg hlabel, if_neg hlabel, String.intercalate_cons_of_ne_nil hpne,
        String.intercalate_cons_of_ne_nil hqne] at h
      exact String.append_right_inj _ |>.mp h
  have hmap : p.map String.toList = q.map String.toList := by
    rw [← hsplit hp hpne, ← hsplit hq hqne, hrest]
  exact List.map_injective_iff.mpr (fun a b hab => String.toList_inj.mp hab) hmap

/-- `enumFolders` lists the folders within the depth, each once, with its path and with everything
    in it. -/
theorem enumFolders_lists {d : Dir} (hnamed : Named d.entries) (hfits : Fits d) {depth budget : ℕ}
    (hdepth : 1 ≤ depth) (hbudget : (foldersWithin depth d.entries).length ≤ budget)
    (label : String) :
    ∃ out left, enumFolders sortSize d label depth budget none = ((out, left), none) ∧
      (out.map FolderNode.name).Nodup ∧
      out.Perm ((foldersWithin depth d.entries).map fun e =>
        ⟨slashPath label e.1, (total e.2.entries).size, (total e.2.entries).files,
          (total e.2.entries).dirs⟩) := by
  have hlists : Lists depth d.entries label budget (enumFolders sortSize d label depth budget) :=
    enumFolders_none sortSize hfits hdepth hbudget
  obtain ⟨out, hout, hperm⟩ := hlists
  have hnames : ∀ e ∈ foldersWithin depth d.entries,
      ∀ name ∈ e.1, name ≠ "" ∧ '/' ∉ name.toList := fun e he =>
    (names_of_mem_foldersBelow hnamed (List.mem_filter.mp he).1).1
  have hnodes : (foldersWithin depth d.entries).map (nodeAt label)
      = (foldersWithin depth d.entries).map fun e =>
        ⟨slashPath label e.1, (total e.2.entries).size, (total e.2.entries).files,
          (total e.2.entries).dirs⟩ := by
    refine List.map_congr_left (fun e he => ?_)
    rw [nodeAt, foldl_joinLabel (fun name hname => (hnames e he name hname).1)]
  rw [hnodes] at hperm
  refine ⟨out, _, hout, ?_, hperm⟩
  rw [(hperm.map FolderNode.name).nodup_iff, List.map_map]
  have hpaths : ((foldersWithin depth d.entries).map Prod.fst).Nodup :=
    (nodup_foldersBelow hnamed).sublist (List.filter_sublist.map _)
  refine List.Nodup.map_on ?_ (List.Nodup.of_map _ hpaths)
  intro e he e' he' heq
  have hpath : e.1 = e'.1 := slashPath_inj (fun name hname => (hnames e he name hname).2)
    (fun name hname => (hnames e' he' name hname).2)
    (ne_nil_of_mem_foldersBelow (List.mem_filter.mp he).1)
    (ne_nil_of_mem_foldersBelow (List.mem_filter.mp he').1) heq
  exact List.inj_on_of_nodup_map hpaths he he' hpath

/-- What is in the directory itself. -/
def own : Entries → Tally
  | .nil => {}
  | .file _ info rest => (fileTally info).add (own rest)
  | .dir name _ _ rest => if isSystemFolder name then own rest else Tally.add ⟨0, 0, 1⟩ (own rest)

/-- A directory has what is in itself and what its folders have. -/
theorem total_eq_own_add (es : Entries) :
    total es = (own es).add (((foldersWithin 1 es).map fun e => total e.2.entries).foldr
      Tally.add {}) := by
  induction es with
  | nil => rfl
  | file name info rest ih =>
    show (fileTally info).add (total rest) = _
    rw [ih, ← Tally.add_assoc]
    rfl
  | dir name readable inside rest ihInside ihRest =>
    by_cases hsystem : isSystemFolder name = true
    · have hwithin : foldersWithin 1 (.dir name readable inside rest) = foldersWithin 1 rest := by
        rw [foldersWithin, foldersBelow, if_pos hsystem]
        rfl
      rw [total, own, if_pos hsystem, if_pos hsystem, hwithin, ihRest]
    · rw [total, own, if_neg hsystem, if_neg hsystem, foldersWithin_dir hsystem le_rfl,
        foldersWithin_zero, ihRest]
      simp only [List.map_nil, List.cons_append, List.nil_append, List.map_cons, List.foldr_cons,
        Tally.add_assoc]
      congr 1
      rw [← Tally.add_assoc, ← Tally.add_assoc, Tally.add_comm (total inside)]

/-- A sort that keeps the order of folders of one size. -/
def stableSizeSort : SizeSort where
  sort l := l.mergeSort fun a b => decide (b.sizeBytes ≤ a.sizeBytes)
  perm l := List.mergeSort_perm l _
  sorted l := by
    have hsorted : (l.mergeSort fun a b => decide (b.sizeBytes ≤ a.sizeBytes)).Pairwise
        fun a b => decide (b.sizeBytes ≤ a.sizeBytes) = true := by
      apply List.pairwise_mergeSort
      · intro a b c hab hbc
        simp only [decide_eq_true_eq] at hab hbc ⊢
        omega
      · intro a b
        simp only [Bool.or_eq_true, decide_eq_true_eq]
        omega
    exact hsorted.imp of_decide_eq_true

namespace Sample

/-- A share with `photos/2024` and a recycle bin. -/
def share : Dir where
  readable := true
  entries := .file "readme" (some 1) (.dir "@Recycle" false (.file "old" (some 50) .nil)
    (.dir "photos" true (.file "a" (some 10) (.dir "2024" true (.file "b" (some 5) .nil) .nil))
      .nil))

theorem share_fits : Fits share where
  readable := rfl
  narrow := by decide
  below := by decide
  files := by decide

end Sample

end Argus.Collect
