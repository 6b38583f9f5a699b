import Argus.Schedulers.FolderTree
import Mathlib.Logic.Relation

namespace Argus.Schedulers

/-!
# Folder sizes

A run of `smbProbe` on a share that stays as it is, from its call to the sample it returns.  An
`ls` may fail, the clock may say anything, and the scan may be paused.

* `Share.Step`, `SmbProbe` — the runs.
* `Share.AtHead` — where a walk stands that has not been cut short.
* `pauseInv_step` — at every pause the walk stands so, or it is flagged.
* `exists_probed` — without failures and in time, the probe comes to its end.
* `exact_folderNode_iff`, `folders_exact_iff` — when the sizes are those of the share.
-/

/-! ### Runs -/

namespace Share

variable (share : Share)

/-- What comes of an `ls`; `none` is a failure. -/
def Answers (path : String) : Option DirListing → Prop
  | none => True
  | some l => (share.cd path).isSome ∧ l = parseDir (share.ls path)

/-- The probe goes on from where it waits. -/
inductive Step (localeLe : String → String → Bool) : Pause → Pause → Prop
  | resume (w : Walk) : Step localeLe (.waiting w) (.woken w)
  | wake (w : Walk) : Step localeLe (.woken w) (.ready w)
  | shift {w : Walk} {isCancelled paused : Bool} {now : ℕ} {next : Pause}
      (h : w.shift isCancelled paused now = some next) : Step localeLe (.ready w) next
  | listed {w : Walk} {rel : String} {depth : ℕ} {answer : Option DirListing}
      {isCancelled paused : Bool} {now : ℕ} {next : Pause}
      (hanswer : share.Answers (w.full rel) answer)
      (h : w.listed isCancelled paused now rel depth answer = some next) :
      Step localeLe (.listing w rel depth) next
  | next {w : Walk} {isCancelled paused : Bool} {now : ℕ} {next : Pause}
      (h : w.next localeLe isCancelled paused now = some next) : Step localeLe (.walked w) next

end Share

/-- `smbProbe` returns this sample. -/
inductive SmbProbe (share : Share) (localeLe : String → String → Bool) (path : String)
    (folders : Bool) (watch : List SmbWatch) : StorageSample → Prop
  | invalid (h : validUnc path = none) :
      SmbProbe share localeLe path folders watch
        (.unreachable "invalid \\\\host\\share path")
  | failed {unc : Unc} (message : String) (h : validUnc path = some unc) :
      SmbProbe share localeLe path folders watch
        (.unreachable (String.ofList ((if message = "" then "smb error" else message).toList.take 200)))
  | walked {unc : Unc} {capacity : Option Capacity} {isCancelled paused : Bool} {now : ℕ}
      {first : Pause} {sample : StorageSample} (h : validUnc path = some unc)
      (hfirst : (Walk.start (shareRoots unc.base folders watch) now capacity).roots localeLe
        isCancelled paused now = some first)
      (hrun : Relation.ReflTransGen (share.Step localeLe) first (.probed sample)) :
      SmbProbe share localeLe path folders watch sample

/-! ### A walk that is not cut short -/

/-- The walk of a root comes to a folder. -/
structure Visit where
  root : Root
  path : List String
deriving DecidableEq, Repr

namespace Visit

variable (v : Visit)

def full : String := v.root.full v.path

def listable : Bool := v.root.listable v.path

def shows : Bool := v.root.shows v.path

end Visit

/-- What the probe shows of a node. -/
def Root.folderNode (r : Root) (n : Node) : FolderNode :=
  let rel := String.ofList (n.rel.toList.map fun c => if c == '\\' then '/' else c)
  { name := if r.label = "" then rel else if n.rel = "" then r.label else r.label ++ "/" ++ rel
    sizeBytes := n.bytes, fileCount := n.files, folderCount := n.subdirs }

namespace Share

variable (share : Share)

def visits (r : Root) : List Visit := (share.order r).map (Visit.mk r)

/-- What the probe shows of a folder, if nothing cuts it short. -/
def folderNode (v : Visit) : FolderNode :=
  v.root.folderNode (share.nodeOf v.root (share.order v.root) v.path)

/-- The same, of all folders of a root. -/
def folderNodes (r : Root) : List FolderNode :=
  ((share.visits r).filter (·.shows)).map share.folderNode

/-- Listing the folder does not cut the walk short. -/
def Sound (v : Visit) : Prop :=
  (share.cd v.full).isSome = true ∧ share.FewFolders v.root v.path

/-- How far a probe has come that nothing has cut short: what it will show, and what it has taken
    from its queues. -/
structure Tracks (w : Walk) (past : List Root) (taken : List Visit) : Prop where
  truncated : w.truncated = false
  folders_eq : w.folders = past.flatMap share.folderNodes
  sound : ∀ v ∈ taken, v.listable = true → share.Sound v
  calls_eq : w.calls + taken.countP (·.listable) = maxLsCalls
  budget : taken.dropLast.countP (·.listable) < maxLsCalls

/-- The walk of a root, at the head of its loop. -/
structure AtHead (roots : List Root) (w : Walk) (past : List Root)
    (done queue : List (List String)) : Prop
    extends Tracks share w past (past.flatMap share.visits ++ done.map (Visit.mk w.root)) where
  roots_eq : roots.filter (subRe ·.sub) = past ++ w.root :: w.later.filter (subRe ·.sub)
  cut : w.cut = false
  between : BreadthFirst.Between (share.kids w.root) [] done queue
  queue_eq : w.queue = queue.map fun p => (relOf p, p.length)
  nodes_eq : w.nodes = (done ++ queue).map (share.nodeOf w.root done) ∨ done = [] ∧ w.nodes = []

variable {share} {roots past : List Root} {w : Walk} {taken : List Visit}
  {done queue : List (List String)} {x : List String}

/-- The next folder is taken, while there are calls left. -/
theorem Tracks.take (h : share.Tracks w past taken) (hcalls : w.calls ≠ 0) {w' : Walk} {v : Visit}
    (hsound : v.listable = true → share.Sound v) (htruncated : w'.truncated = w.truncated)
    (hfolders : w'.folders = w.folders)
    (hspent : w'.calls = w.calls - if v.listable = true then 1 else 0) :
    share.Tracks w' past (taken ++ [v]) where
  truncated := by rw [htruncated, h.truncated]
  folders_eq := by rw [hfolders, h.folders_eq]
  sound := by
    intro u hu
    rcases List.mem_append.mp hu with hu | hu
    · exact h.sound u hu
    · obtain rfl := List.mem_singleton.mp hu
      exact hsound
  calls_eq := by
    have hcount := h.calls_eq
    rw [List.countP_append, List.countP_singleton, hspent]
    split <;> omega
  budget := by
    have hcount := h.calls_eq
    rw [List.dropLast_concat]
    omega

namespace AtHead

theorem root_mem (h : share.AtHead roots w past done queue) :
    w.root ∈ roots.filter (subRe ·.sub) := by
  rw [h.roots_eq]
  exact List.mem_append_right past List.mem_cons_self

theorem root_listable (h : share.AtHead roots w past done queue) :
    w.root.listable [] = true := by
  have hsub := (List.mem_filter.mp h.root_mem).2
  rw [Root.listable, full_nil]
  exact hsub

variable (hbounded : ∀ r ∈ roots, r.Bounded)

include hbounded in
theorem depth_le (h : share.AtHead roots w past done queue) : w.root.depth ≤ 6 :=
  (hbounded _ (List.mem_filter.mp h.root_mem).1).2

theorem taken_concat (past : List Root) (r : Root) (done : List (List String)) (x : List String) :
    past.flatMap share.visits ++ (done ++ [x]).map (Visit.mk r)
      = (past.flatMap share.visits ++ done.map (Visit.mk r)) ++ [⟨r, x⟩] := by
  rw [List.map_append, List.append_assoc]
  rfl

/-- A folder whose name `SUB_RE` does not take is left out. -/
theorem skip (h : share.AtHead roots w past done (x :: queue)) (hcalls : w.calls ≠ 0)
    (hskip : w.root.listable x = false) :
    share.AtHead roots { w with queue := queue.map fun p => (relOf p, p.length) } past
      (done ++ [x]) queue where
  toTracks := by
    rw [taken_concat]
    refine h.toTracks.take hcalls (fun hlistable => ?_) rfl rfl ?_
    · exact absurd hlistable (by simp [Visit.listable, hskip])
    · simp [Visit.listable, hskip]
  roots_eq := h.roots_eq
  cut := h.cut
  between := by
    have hnone : share.kids w.root x = [] := if_neg (fun hkids => by simp [hskip] at hkids)
    have hstep := h.between.step
    rw [hnone, List.append_nil] at hstep
    exact hstep
  queue_eq := rfl
  nodes_eq := by
    rcases h.nodes_eq with hnodes | ⟨rfl, -⟩
    · left
      show w.nodes = _
      rw [hnodes, List.append_assoc, List.singleton_append]
      exact List.map_congr_left (fun p _ => (nodeOf_skip hskip p).symm)
    · have hfirst := h.between.queue_of_nil
      obtain ⟨rfl, -⟩ := List.cons.inj hfirst
      rw [h.root_listable] at hskip
      cases hskip

include hbounded in
/-- A folder is listed. -/
theorem absorb (h : share.AtHead roots w past done (x :: queue)) (hcalls : w.calls ≠ 0)
    (hlistable : w.root.listable x = true) (hsound : share.Sound ⟨w.root, x⟩) :
    share.AtHead roots
      (Walk.absorb { w with
        queue := queue.map fun p => (relOf p, p.length), calls := w.calls - 1 }
        (relOf x) x.length (some (share.own w.root x)))
      past (done ++ [x]) (queue ++ share.kids w.root x) := by
  have hdepth := h.depth_le hbounded
  have hx : x ∈ share.order w.root :=
    (leading_order h.between hdepth).subset (List.mem_append_right done List.mem_cons_self)
  have hchildren := children_eq (w := { w with
    queue := queue.map fun p => (relOf p, p.length), calls := w.calls - 1 })
    hdepth hx hlistable hsound.2
  have hnodes : (ancestors (relOf x).length (relOf x).toList).foldl
        (credit (share.own w.root x)) w.nodes
      = (done ++ x :: queue).map (share.nodeOf w.root (done ++ [x])) := by
    rw [← foldl_credit_ancestors h.between hdepth hlistable]
    rcases h.nodes_eq with hnodes | ⟨rfl, hnodes⟩
    · rw [hnodes]
    · -- The first listing makes the node of the root.
      obtain ⟨rfl, rfl⟩ := List.cons.inj h.between.queue_of_nil
      rw [hnodes]
      rfl
  exact {
    toTracks := by
      rw [taken_concat]
      refine h.toTracks.take hcalls (fun _ => hsound) rfl rfl ?_
      simp [Walk.absorb, Visit.listable, hlistable]
    roots_eq := h.roots_eq
    cut := by
      show (w.cut || _) = false
      rw [h.cut, Bool.false_or, Bool.and_eq_false_iff]
      by_cases hlt : (x.length : ℚ) < w.root.depth
      · exact Or.inr (decide_eq_false (Nat.not_lt.mpr (hsound.2 hlt)))
      · exact Or.inl (decide_eq_false hlt)
    between := h.between.step
    queue_eq := by
      rw [Walk.absorb, hchildren, List.map_append]
    nodes_eq := by
      left
      rw [Walk.absorb, hchildren]
      show List.foldl _ (List.foldl _ w.nodes _) _ = _
      rw [hnodes]
      exact foldl_ensureNode_kids h.between hdepth }

end AtHead

/-! ### Every run -/

variable (share) (roots)

/-- All the folders that the probe comes to. -/
def allVisits : List Visit := (roots.filter (subRe ·.sub)).flatMap share.visits

/-- Nothing but a failure or the clock can keep the probe from being cut short: a folder that is
    not there, one with too many folders, or more folders than there are calls. -/
def CutShort : Prop :=
  (∃ v ∈ share.allVisits roots, v.listable = true ∧ ¬ share.Sound v) ∨
    maxLsCalls ≤ (share.allVisits roots).dropLast.countP (·.listable)

variable (localeLe : String → String → Bool)

/-- The folders in the sample. -/
def shown : List Visit :=
  (((share.allVisits roots).filter (·.shows)).mergeSort fun a b =>
    localeLe (share.folderNode a).name (share.folderNode b).name).take maxFolders

/-- Between two roots. -/
structure AtRoots (w : Walk) (past : List Root) : Prop
    extends Tracks share w past (past.flatMap share.visits) where
  roots_eq : roots.filter (subRe ·.sub) = past ++ w.later.filter (subRe ·.sub)

/-- `partial` has been set. -/
def Flagged (w : Walk) : Prop := w.cut = true ∨ w.truncated = true

/-- Where the probe waits, it has been cut short and says so, or it stands where a probe stands
    that has not been cut short. -/
def PauseInv : Pause → Prop
  | .waiting w | .woken w | .ready w => Flagged w ∨
      ∃ past done x queue, share.AtHead roots w past done (x :: queue) ∧ w.calls ≠ 0
  | .listing v rel depth => Flagged v ∨
      ∃ w past done x queue, share.AtHead roots w past done (x :: queue) ∧ w.calls ≠ 0 ∧
        w.root.listable x = true ∧ rel = relOf x ∧ depth = x.length ∧
        v = { w with queue := queue.map fun p => (relOf p, p.length), calls := w.calls - 1 }
  | .walked w => Flagged w ∨ ∃ past done, share.AtHead roots w past done []
  | .probed sample => sample.error = some truncatedError ∨
      ¬ share.CutShort roots ∧ sample.error = none ∧
        sample.folders.getD [] = (share.shown roots localeLe).map share.folderNode

variable {share roots localeLe} {isCancelled paused : Bool} {now : ℕ} {pause : Pause}

theorem pauseInv_head (hinv : Flagged w ∨ ∃ past done queue, share.AtHead roots w past done queue)
    (h : w.head isCancelled paused now = some pause) : share.PauseInv roots localeLe pause := by
  rw [Walk.head] at h
  split at h
  · rename_i hqueue
    obtain rfl := Option.some.inj h
    refine hinv.imp_right ?_
    rintro ⟨past, done, queue, hat⟩
    have hnil : queue = [] := by
      have hmap := hat.queue_eq
      rw [hqueue] at hmap
      exact List.map_eq_nil_iff.mp hmap.symm
    rw [hnil] at hat
    exact ⟨past, done, hat⟩
  · rename_i hqueue
    split at h
    · obtain rfl := Option.some.inj h
      exact Or.inl (Or.inl rfl)
    · rename_i hbudget
      have hready : Flagged w ∨
          ∃ past done x queue, share.AtHead roots w past done (x :: queue) ∧ w.calls ≠ 0 := by
        refine hinv.imp_right ?_
        rintro ⟨past, done, queue, hat⟩
        cases queue with
        | nil => exact absurd hat.queue_eq hqueue
        | cons x queue => exact ⟨past, done, x, queue, hat, fun hzero => hbudget (Or.inl hzero)⟩
      split at h
      · cases h
      · split at h
        · obtain rfl := Option.some.inj h
          exact hready
        · obtain rfl := Option.some.inj h
          exact hready

theorem pauseInv_shift (hinv : share.PauseInv roots localeLe (.ready w))
    (h : w.shift isCancelled paused now = some pause) : share.PauseInv roots localeLe pause := by
  rcases hinv with hflagged | ⟨past, done, x, queue, hat, hcalls⟩
  · rw [Walk.shift] at h
    split at h
    · obtain rfl := Option.some.inj h
      exact Or.inl hflagged
    · rename_i queue _
      dsimp only at h
      split at h
      · obtain rfl := Option.some.inj h
        exact Or.inl hflagged
      · exact pauseInv_head (w := { w with queue := queue }) (Or.inl hflagged) h
  · rw [Walk.shift_cons hat.queue_eq] at h
    split at h
    · rename_i hsub
      obtain rfl := Option.some.inj h
      exact Or.inr ⟨w, past, done, x, queue, hat, hcalls, hsub, rfl, rfl, rfl⟩
    · rename_i hsub
      have hskip : w.root.listable x = false := Bool.eq_false_iff.mpr hsub
      exact pauseInv_head (Or.inr ⟨past, _, _, hat.skip hcalls hskip⟩) h

theorem pauseInv_listed (hbounded : ∀ r ∈ roots, r.Bounded) {rel : String} {depth : ℕ}
    {answer : Option DirListing} (hinv : share.PauseInv roots localeLe (.listing w rel depth))
    (hanswer : share.Answers (w.full rel) answer)
    (h : w.listed isCancelled paused now rel depth answer = some pause) :
    share.PauseInv roots localeLe pause := by
  refine pauseInv_head ?_ h
  cases answer with
  | none => exact Or.inl (Or.inl rfl)
  | some l =>
    rcases hinv with hflagged | ⟨v, past, done, x, queue, hat, hcalls, hlistable, rfl, rfl, rfl⟩
    · left
      refine hflagged.imp_left (fun hcut => ?_)
      show (w.cut || _) = true
      rw [hcut, Bool.true_or]
    · obtain ⟨hsome, rfl⟩ := hanswer
      have hfull : v.root.full x = joinPath v.root.sub (relOf x) := rfl
      obtain ⟨g, hg⟩ := Option.isSome_iff_exists.mp hsome
      have hlisting : parseDir (share.ls (v.root.full x)) = share.own v.root x := by
        rw [own_eq hg]
        exact share.parseDir_ls hg
      change share.cd (v.root.full x) = some g at hg
      show Flagged (Walk.absorb _ _ _ (some (parseDir (share.ls (v.root.full x))))) ∨
        ∃ past done queue, share.AtHead roots
          (Walk.absorb _ _ _ (some (parseDir (share.ls (v.root.full x))))) past done queue
      rw [hlisting]
      by_cases hfew : share.FewFolders v.root x
      · right
        have hsound : share.Sound ⟨v.root, x⟩ := ⟨hsome, hfew⟩
        exact ⟨past, _, _, hat.absorb hbounded hcalls hlistable hsound⟩
      · left
        left
        obtain ⟨hlt, hmany⟩ := Classical.not_imp.mp hfew
        show (v.cut || (decide ((x.length : ℚ) < v.root.depth) && _)) = true
        rw [decide_eq_true hlt, decide_eq_true (Nat.not_le.mp hmany)]
        simp

/-- The next root is the first one that may be walked. -/
theorem filter_eq_of_dropWhile {later later' : List Root} {root : Root}
    (h : later.dropWhile (!subRe ·.sub) = root :: later') :
    later.filter (subRe ·.sub) = root :: later'.filter (subRe ·.sub) := by
  induction later with
  | nil => exact absurd h (by simp)
  | cons r later ih =>
    cases hr : subRe r.sub with
    | true =>
      rw [List.dropWhile_cons_of_neg (by simp [hr])] at h
      obtain ⟨rfl, rfl⟩ := List.cons.inj h
      exact List.filter_cons_of_pos hr
    | false =>
      rw [List.dropWhile_cons_of_pos (by simp [hr])] at h
      rw [List.filter_cons_of_neg (by simp [hr]), ih h]

theorem AtRoots.nextRoot (h : share.AtRoots roots w past) {root : Root} {later : List Root}
    (hroot : w.later.dropWhile (!subRe ·.sub) = root :: later) :
    share.AtHead roots
      { w with root := root, later := later, queue := [("", 0)], nodes := [], cut := false }
      past [] [[]] where
  truncated := h.truncated
  folders_eq := h.folders_eq
  sound := by
    rw [List.map_nil, List.append_nil]
    exact h.sound
  calls_eq := by
    rw [List.map_nil, List.append_nil]
    exact h.calls_eq
  budget := by
    rw [List.map_nil, List.append_nil]
    exact h.budget
  roots_eq := by rw [h.roots_eq, filter_eq_of_dropWhile hroot]
  cut := rfl
  between := BreadthFirst.Between.start
  queue_eq := rfl
  nodes_eq := Or.inr ⟨rfl, rfl⟩

/-- The sample of a probe that nothing has cut short. -/
theorem AtRoots.result (h : share.AtRoots roots w past)
    (hend : w.later.dropWhile (!subRe ·.sub) = []) :
    ¬ share.CutShort roots ∧ (w.result localeLe).error = none ∧
      (w.result localeLe).folders.getD [] = (share.shown roots localeLe).map share.folderNode := by
  have hpast : past = roots.filter (subRe ·.sub) := by
    have hnone : w.later.filter (subRe ·.sub) = [] := by
      refine List.filter_eq_nil_iff.mpr (fun r hr hsub => ?_)
      have hskip := List.dropWhile_eq_nil_iff.mp hend r hr
      rw [hsub] at hskip
      cases hskip
    rw [h.roots_eq, hnone, List.append_nil]
  have hall : past.flatMap share.visits = share.allVisits roots := by rw [hpast]; rfl
  refine ⟨?_, ?_, ?_⟩
  · rintro (⟨v, hv, hlistable, hunsound⟩ | hbudget)
    · rw [← hall] at hv
      exact hunsound (h.sound v hv hlistable)
    · have hleft := h.budget
      rw [hall] at hleft
      omega
  · rw [Walk.result, h.truncated]
    rfl
  · have hfolders :
        w.folders = ((share.allVisits roots).filter (·.shows)).map share.folderNode := by
      rw [h.folders_eq, ← hall, List.filter_flatMap, List.map_flatMap]
      rfl
    have hsorted : (w.folders.mergeSort fun a b => localeLe a.name b.name).take maxFolders
        = (share.shown roots localeLe).map share.folderNode := by
      rw [shown, List.map_take, hfolders]
      congr 1
      symm
      apply List.map_mergeSort
      intro a _ b _
      rfl
    rw [← hsorted, Walk.result]
    dsimp only
    split
    · rename_i hnone
      rw [hnone, List.mergeSort_nil, List.take_nil]
      rfl
    · rfl

theorem pauseInv_roots (hinv : w.truncated = true ∨ ∃ past, share.AtRoots roots w past)
    (h : w.roots localeLe isCancelled paused now = some pause) :
    share.PauseInv roots localeLe pause := by
  rw [Walk.roots] at h
  split at h
  · rename_i hend
    obtain rfl := Option.some.inj h
    rcases hinv with htruncated | ⟨past, hat⟩
    · left
      rw [Walk.result, htruncated]
      rfl
    · exact Or.inr (hat.result hend)
  · rename_i root later hroot
    refine pauseInv_head ?_ h
    rcases hinv with htruncated | ⟨past, hat⟩
    · exact Or.inl (Or.inr htruncated)
    · exact Or.inr ⟨past, [], [[]], hat.nextRoot hroot⟩

/-- The walk of a root has come to its end. -/
theorem AtHead.rootDone (hbounded : ∀ r ∈ roots, r.Bounded)
    (h : share.AtHead roots w past done []) :
    share.AtRoots roots
      { w with folders := w.folders ++ w.rootFolders, truncated := w.truncated || w.cut }
      (past ++ [w.root]) := by
  have hdone : done = share.order w.root := h.between.finished (level_seven (h.depth_le hbounded))
  have hnodes : w.nodes = (share.order w.root).map (share.nodeOf w.root (share.order w.root)) := by
    rcases h.nodes_eq with hnodes | ⟨hnil, -⟩
    · rw [hnodes, List.append_nil, hdone]
    · have hroot : [] ∈ share.order w.root := nil_mem_order
      rw [← hdone, hnil] at hroot
      exact absurd hroot List.not_mem_nil
  have htaken : past.flatMap share.visits ++ done.map (Visit.mk w.root)
      = (past ++ [w.root]).flatMap share.visits := by
    rw [List.flatMap_append, List.flatMap_singleton, hdone]
    rfl
  exact {
    truncated := by
      show (w.truncated || w.cut) = false
      rw [h.truncated, h.cut]
      rfl
    folders_eq := by
      rw [List.flatMap_append, List.flatMap_singleton, ← h.folders_eq, Walk.rootFolders, hnodes,
        folderNodes, visits, List.filter_map, List.filter_map, List.map_map, List.map_map]
      rfl
    sound := by
      rw [← htaken]
      exact h.sound
    calls_eq := by
      rw [← htaken]
      exact h.calls_eq
    budget := by
      rw [← htaken]
      exact h.budget
    roots_eq := by
      rw [h.roots_eq, List.append_assoc, List.singleton_append] }

theorem pauseInv_next (hbounded : ∀ r ∈ roots, r.Bounded)
    (hinv : share.PauseInv roots localeLe (.walked w))
    (h : w.next localeLe isCancelled paused now = some pause) :
    share.PauseInv roots localeLe pause := by
  refine pauseInv_roots ?_ h
  rcases hinv with hflagged | ⟨past, done, hat⟩
  · left
    show (w.truncated || w.cut) = true
    rcases hflagged with hcut | htruncated
    · rw [hcut, Bool.or_true]
    · rw [htruncated, Bool.true_or]
  · exact Or.inr ⟨_, hat.rootDone hbounded⟩

theorem pauseInv_step (hbounded : ∀ r ∈ roots, r.Bounded) {pause' : Pause}
    (hinv : share.PauseInv roots localeLe pause) (h : share.Step localeLe pause pause') :
    share.PauseInv roots localeLe pause' := by
  cases h with
  | resume w => exact hinv
  | wake w => exact hinv
  | shift h => exact pauseInv_shift hinv h
  | listed hanswer h => exact pauseInv_listed hbounded hinv hanswer h
  | next h => exact pauseInv_next hbounded hinv h

theorem atRoots_start (roots : List Root) (now : ℕ) (capacity : Option Capacity) :
    share.AtRoots roots (Walk.start roots now capacity) [] where
  truncated := rfl
  folders_eq := rfl
  sound := fun v hv => absurd hv List.not_mem_nil
  calls_eq := rfl
  budget := by
    show 0 < maxLsCalls
    decide
  roots_eq := rfl

/-- A probe that has walked its roots reports that it was cut short, or it shows what the walks
    come to. -/
theorem shown_of_run (hbounded : ∀ r ∈ roots, r.Bounded) {capacity : Option Capacity}
    {sample : StorageSample}
    (hfirst : (Walk.start roots now capacity).roots localeLe isCancelled paused now = some pause)
    (hrun : Relation.ReflTransGen (share.Step localeLe) pause (.probed sample)) :
    sample.error = some truncatedError ∨ ¬ share.CutShort roots ∧ sample.error = none ∧
      sample.folders.getD [] = (share.shown roots localeLe).map share.folderNode := by
  have hinv : ∀ last, Relation.ReflTransGen (share.Step localeLe) pause last →
      share.PauseInv roots localeLe last := by
    intro last hrun
    induction hrun with
    | refl => exact pauseInv_roots (Or.inr ⟨[], atRoots_start roots now capacity⟩) hfirst
    | tail _ hstep ih => exact pauseInv_step hbounded ih hstep
  exact hinv _ hrun

/-! ### A run that nothing cuts short -/

/-- What is in front of the queue is the next of all folders. -/
theorem AtHead.leading (hbounded : ∀ r ∈ roots, r.Bounded)
    (h : share.AtHead roots w past done (x :: queue)) :
    (past.flatMap share.visits ++ done.map (Visit.mk w.root)) ++ [⟨w.root, x⟩]
      <+: share.allVisits roots := by
  have hdone : done ++ [x] <+: share.order w.root :=
    List.IsPrefix.trans ⟨queue, by simp⟩ (leading_order h.between (h.depth_le hbounded))
  rw [allVisits, h.roots_eq, List.flatMap_append, List.flatMap_cons, ← AtHead.taken_concat]
  exact (List.prefix_append_right_inj _).mpr ((hdone.map _).trans (List.prefix_append _ _))

theorem AtHead.calls_ne_zero (hbounded : ∀ r ∈ roots, r.Bounded)
    (hcut : ¬ share.CutShort roots) (h : share.AtHead roots w past done (x :: queue)) :
    w.calls ≠ 0 := by
  have hbudget : (share.allVisits roots).dropLast.countP (·.listable) < maxLsCalls :=
    Nat.not_le.mp (fun hle => hcut (Or.inr hle))
  have hleading : past.flatMap share.visits ++ done.map (Visit.mk w.root)
      <+: (share.allVisits roots).dropLast := by
    obtain ⟨rest, hrest⟩ := h.leading hbounded
    rw [← hrest, List.append_assoc, List.dropLast_append_of_ne_nil (by simp)]
    exact List.prefix_append _ _
  have hle := hleading.sublist.countP_le (p := (·.listable))
  have hcalls := h.calls_eq
  omega

theorem AtHead.sound_next (hbounded : ∀ r ∈ roots, r.Bounded)
    (hcut : ¬ share.CutShort roots) (h : share.AtHead roots w past done (x :: queue))
    (hlistable : w.root.listable x = true) : share.Sound ⟨w.root, x⟩ := by
  by_contra hunsound
  have hmem := (h.leading hbounded).subset (List.mem_append_right _ (List.mem_singleton_self _))
  exact hcut (Or.inl ⟨_, hmem, hlistable, hunsound⟩)

theorem head_ready (hqueue : w.queue ≠ []) (hcalls : w.calls ≠ 0) (hnow : now ≤ w.deadline) :
    w.head false false now = some (.ready w) := by
  rw [Walk.head, if_neg hqueue, if_neg (by rintro (h | h) <;> omega)]
  rfl

/-- The walk of a root, when no listing fails and there is time. -/
theorem exists_walked (localeLe : String → String → Bool) (hbounded : ∀ r ∈ roots, r.Bounded)
    (hcut : ¬ share.CutShort roots) (h : share.AtHead roots w past done queue)
    (hnow : now ≤ w.deadline) :
    ∃ pause w', w.head false false now = some pause ∧
      Relation.ReflTransGen (share.Step localeLe) pause (.walked w') ∧
      (∃ done', share.AtHead roots w' past done' []) ∧ w'.later = w.later ∧
      w'.deadline = w.deadline := by
  -- Every turn of the loop takes one more of the folders there are.
  induction hn : (share.order w.root).length - done.length using Nat.strong_induction_on
    generalizing w done queue with
  | _ n ih =>
    cases queue with
    | nil =>
      refine ⟨.walked w, w, ?_, .refl, ⟨done, h⟩, rfl, rfl⟩
      rw [Walk.head]
      exact if_pos h.queue_eq
    | cons x queue =>
      have hcalls := h.calls_ne_zero hbounded hcut
      have hqueue : w.queue ≠ [] := by
        rw [h.queue_eq]
        exact List.cons_ne_nil _ _
      have hless : (share.order w.root).length - (done ++ [x]).length < n := by
        have hle := (leading_order h.between (h.depth_le hbounded)).length_le
        rw [List.length_append, List.length_cons] at hle
        rw [List.length_append, List.length_singleton]
        omega
      cases hlistable : w.root.listable x with
      | true =>
        have hsound := h.sound_next hbounded hcut hlistable
        obtain ⟨pause, w', hhead, hrun, hat, hlater, hdeadline⟩ :=
          ih _ hless (h.absorb hbounded hcalls hlistable hsound) hnow rfl
        obtain ⟨g, hg⟩ := Option.isSome_iff_exists.mp hsound.1
        refine ⟨.ready w, w', head_ready hqueue hcalls hnow, ?_, hat, hlater, hdeadline⟩
        have hshift : w.shift false false now = some (.listing { w with
            queue := queue.map fun p => (relOf p, p.length), calls := w.calls - 1 }
            (relOf x) x.length) := by
          rw [Walk.shift_cons h.queue_eq]
          exact if_pos hlistable
        have hanswer : share.Answers (w.root.full x) (some (share.own w.root x)) := by
          refine ⟨hsound.1, ?_⟩
          rw [own_eq hg]
          exact (share.parseDir_ls hg).symm
        exact .head (.shift hshift) (.head (.listed hanswer hhead) hrun)
      | false =>
        obtain ⟨pause, w', hhead, hrun, hat, hlater, hdeadline⟩ :=
          ih _ hless (h.skip hcalls hlistable) hnow rfl
        refine ⟨.ready w, w', head_ready hqueue hcalls hnow, ?_, hat, hlater, hdeadline⟩
        have hshift : w.shift false false now = some pause := by
          rw [Walk.shift_cons h.queue_eq, if_neg (by exact Bool.eq_false_iff.mp hlistable)]
          exact hhead
        exact .head (.shift hshift) hrun

/-- A probe of a share that does not cut it short, when no listing fails and there is time. -/
theorem exists_probed (localeLe : String → String → Bool) (hbounded : ∀ r ∈ roots, r.Bounded)
    (hcut : ¬ share.CutShort roots) (h : share.AtRoots roots w past) (hnow : now ≤ w.deadline) :
    ∃ pause sample, w.roots localeLe false false now = some pause ∧
      Relation.ReflTransGen (share.Step localeLe) pause (.probed sample) ∧ sample.error = none := by
  induction hn : w.later.length using Nat.strong_induction_on generalizing w past with
  | _ n ih =>
    cases hlater : w.later.dropWhile (!subRe ·.sub) with
    | nil =>
      have herror : (w.result localeLe).error = none := (h.result hlater).2.1
      refine ⟨.probed (w.result localeLe), w.result localeLe, ?_, .refl, herror⟩
      rw [Walk.roots, hlater]
    | cons root later =>
      obtain ⟨pause, w', hhead, hrun, ⟨done, hat⟩, hlater', hdeadline⟩ :=
        exists_walked localeLe hbounded hcut (h.nextRoot hlater) hnow
      have hless : w'.later.length < n := by
        have hle := (List.dropWhile_sublist (l := w.later) (!subRe ·.sub)).length_le
        rw [hlater, List.length_cons] at hle
        rw [hlater']
        show later.length < n
        omega
      obtain ⟨pause', sample, hroots, hrest, herror⟩ :=
        ih _ hless (hat.rootDone hbounded) (hdeadline ▸ hnow) rfl
      refine ⟨pause, sample, ?_, hrun.trans (.head (.next hroots) hrest), herror⟩
      rw [Walk.roots, hlater]
      exact hhead

end Share

/-! ### Exact sizes -/

theorem notMem_normSub (sub : String) : '/' ∉ (normSub sub).toList := by
  have hback : ∀ s : List Char, '/' ∉ backslashes s := by
    intro s hmem
    obtain ⟨c, -, hc⟩ := List.mem_map.mp hmem
    split at hc
    · exact absurd hc (by decide)
    · rename_i hne
      exact hne (by rw [hc]; rfl)
  rw [normSub]
  split
  · exact List.not_mem_nil
  · intro hmem
    rw [String.toList_ofList] at hmem
    exact hback _ ((List.dropWhile_suffix _).subset ((List.rdropWhile_prefix _ _).subset hmem))

theorem watchedRoot_spec {base : String} {watched : SmbWatch} {r : Root}
    (h : watchedRoot base watched = some r) :
    r.Bounded ∧ r.sub = joinPath base r.label ∧ '/' ∉ r.label.toList := by
  have hsix : (1 : ℚ) ≤ 6 := by decide
  rw [watchedRoot] at h
  by_cases hsub : subRe (joinPath base (normSub watched.sub)) = true
  · rw [if_pos hsub] at h
    have hr := Option.some.inj h
    have hdepth : r.Bounded := by
      rw [← hr]
      exact ⟨le_max_left _ _, max_le hsix (min_le_left _ _)⟩
    have hpath : r.sub = joinPath base r.label := by rw [← hr]
    have hlabel : r.label = normSub watched.sub := by rw [← hr]
    refine ⟨hdepth, hpath, ?_⟩
    rw [hlabel]
    exact notMem_normSub watched.sub
  · rw [if_neg hsub] at h
    cases h

/-- What is known of the roots of a probe. -/
theorem shareRoots_spec {base : String} {folders : Bool} {watch : List SmbWatch} {r : Root}
    (h : r ∈ shareRoots base folders watch) :
    r.Bounded ∧ r.sub = joinPath base r.label ∧ '/' ∉ r.label.toList := by
  rw [shareRoots] at h
  split at h
  · have hone : r.Bounded := by
      rw [List.mem_singleton.mp h]
      exact ⟨le_refl (1 : ℚ), (by decide : (1 : ℚ) ≤ 6)⟩
    obtain rfl := List.mem_singleton.mp h
    exact ⟨hone, (joinPath_empty_right base).symm, List.not_mem_nil⟩
  · obtain ⟨watched, -, hroot⟩ := List.mem_filterMap.mp h
    exact watchedRoot_spec hroot

theorem backslashes_of_notMem {s : List Char} (h : '/' ∉ s) : backslashes s = s := by
  refine (List.map_congr_left (fun c hc => ?_)).trans (List.map_id s)
  rw [if_neg]
  · rfl
  · intro heq
    exact h (eq_of_beq heq ▸ hc)

theorem backslashes_slashes {s : List Char} (h : '/' ∉ s) :
    backslashes (s.map fun c => if c == '\\' then '/' else c) = s := by
  rw [backslashes, List.map_map]
  refine (List.map_congr_left (fun c hc => ?_)).trans (List.map_id s)
  show (if (if c == '\\' then '/' else c) == '/' then '\\' else if c == '\\' then '/' else c) = c
  by_cases hback : c = '\\'
  · rw [hback]
    rfl
  · have hslash : c ≠ '/' := fun heq => h (heq ▸ hc)
    simp [hback, hslash]

theorem notMem_relOf {p : List String} (hp : ProperPath p) : '/' ∉ (relOf p).toList := by
  intro hmem
  rw [toList_relOf hp.plain] at hmem
  rcases Segments.mem_intercalate hmem with heq | ⟨s, hs, hmem⟩
  · exact absurd heq (by decide)
  · obtain ⟨name, hname, rfl⟩ := List.mem_map.mp hs
    exact absurd ((hp name hname).2 _ hmem) (by decide)

namespace Share

variable (share : Share)

/-- The folder of that name has this size and this many files. -/
def Exact (base : String) (f : FolderNode) : Prop :=
  ∃ g, share.cd (joinPath base (String.ofList (backslashes f.name.toList))) = some g ∧
    f.sizeBytes = g.bytes ∧ f.fileCount = g.fileCount

/-- The walk reaches every file in the folder. -/
def Complete (v : Visit) : Prop :=
  ∀ g, share.cd v.full = some g → ∀ e ∈ g.within, e.2.files ≠ [] → v.root.Reaches (v.path ++ e.1)

variable {share} {base : String} {v : Visit}

/-- The name of a folder tells its path. -/
theorem path_of_name (hsub : v.root.sub = joinPath base v.root.label)
    (hlabel : '/' ∉ v.root.label.toList) (hp : ProperPath v.path) :
    joinPath base (String.ofList (backslashes (share.folderNode v).name.toList)) = v.full := by
  have hrel := backslashes_slashes (notMem_relOf hp)
  have hname : (share.folderNode v).name
      = if v.root.label = "" then
          String.ofList ((relOf v.path).toList.map fun c => if c == '\\' then '/' else c)
        else if relOf v.path = "" then v.root.label
        else v.root.label ++ "/" ++
          String.ofList ((relOf v.path).toList.map fun c => if c == '\\' then '/' else c) := rfl
  rw [hname, Visit.full, Root.full, hsub, joinPath_assoc]
  congr 1
  by_cases hnone : v.root.label = ""
  · rw [if_pos hnone, hnone, joinPath_empty_left, String.toList_ofList, hrel, String.ofList_toList]
  · rw [if_neg hnone]
    by_cases hroot : relOf v.path = ""
    · rw [if_pos hroot, hroot, joinPath_empty_right, backslashes_of_notMem hlabel,
        String.ofList_toList]
    · rw [if_neg hroot, joinPath_of_ne hnone hroot]
      apply String.toList_inj.mp
      simp only [String.toList_ofList, String.toList_append]
      rw [backslashes, List.map_append, List.map_append]
      congr 1
      congr 1
      exact backslashes_of_notMem hlabel

/-- A walk that is not cut short is exact of the folders in which it reaches every file. -/
theorem exact_folderNode_iff {roots : List Root} (hcut : ¬ share.CutShort roots)
    (hroots : ∀ r ∈ roots, r.Bounded ∧ r.sub = joinPath base r.label ∧ '/' ∉ r.label.toList)
    (hv : v ∈ share.allVisits roots) :
    share.Exact base (share.folderNode v) ↔ share.Complete v := by
  obtain ⟨r, hr, hv⟩ := List.mem_flatMap.mp hv
  obtain ⟨p, hp, rfl⟩ := List.mem_map.mp hv
  obtain ⟨hr', hsub⟩ := List.mem_filter.mp hr
  obtain ⟨hbounded, hpath, hlabel⟩ := hroots r hr'
  -- The root was listed, so it is there, and with it everything the walk comes to.
  have hroot : share.Sound ⟨r, []⟩ := by
    by_contra hunsound
    have hlistable : r.listable [] = true := by
      rw [Root.listable, full_nil]
      exact hsub
    have hmem : (⟨r, []⟩ : Visit) ∈ share.allVisits roots :=
      List.mem_flatMap.mpr ⟨r, hr, List.mem_map_of_mem nil_mem_order⟩
    exact hcut (Or.inl ⟨_, hmem, hlistable, hunsound⟩)
  obtain ⟨root, hroot⟩ := Option.isSome_iff_exists.mp hroot.1
  obtain ⟨g, hmem⟩ := mem_within_of_mem_order (p := []) hroot hp
  rw [Visit.full, full_nil] at hroot
  have hg : share.cd (r.full p) = some g := share.cd_within hroot hmem
  rw [Exact, path_of_name hpath hlabel (properPath_of_mem_order hp), Complete]
  have hnode := nodeOf_eq_iff hbounded hroot hp hg
  constructor
  · rintro ⟨g', hg', hexact⟩ g'' hg''
    obtain rfl : g = g' := Option.some.inj (hg.symm.trans hg')
    obtain rfl : g = g'' := Option.some.inj (hg.symm.trans hg'')
    exact hnode.mp hexact
  · intro hcomplete
    exact ⟨g, hg, hnode.mpr (hcomplete g hg)⟩

variable {roots : List Root} {localeLe : String → String → Bool}

theorem mem_allVisits_of_mem_shown (h : v ∈ share.shown roots localeLe) :
    v ∈ share.allVisits roots := by
  have hsorted := List.mem_mergeSort.mp (List.mem_of_mem_take h)
  exact (List.mem_filter.mp hsorted).1

end Share

/-- The folders of the sample are exact, or it says that the tree is not complete. -/
def StorageSample.ExactUnlessFlagged (sample : StorageSample) (share : Share) (base : String) :
    Prop :=
  (∀ f ∈ sample.folders.getD [], share.Exact base f) ∨ sample.error = some truncatedError

section

variable {share : Share} {localeLe : String → String → Bool} {path : String} {folders : Bool}
  {watch : List SmbWatch} {unc : Unc}

theorem exactUnlessFlagged_of_complete (hunc : validUnc path = some unc)
    (h : share.CutShort (shareRoots unc.base folders watch) ∨
      ∀ v ∈ share.shown (shareRoots unc.base folders watch) localeLe, share.Complete v)
    {sample : StorageSample} (hrun : SmbProbe share localeLe path folders watch sample) :
    sample.ExactUnlessFlagged share unc.base := by
  cases hrun with
  | invalid hnone =>
    rw [hunc] at hnone
    cases hnone
  | failed message _ => exact Or.inl (fun f hf => absurd hf List.not_mem_nil)
  | walked hunc' hfirst hrun =>
    rw [hunc] at hunc'
    obtain rfl := Option.some.inj hunc'
    rcases Share.shown_of_run (fun r hr => (shareRoots_spec hr).1) hfirst hrun with
      herror | ⟨hcut, -, hfolders⟩
    · exact Or.inr herror
    · left
      intro f hf
      rw [hfolders] at hf
      obtain ⟨v, hv, rfl⟩ := List.mem_map.mp hf
      rw [Share.exact_folderNode_iff hcut (fun r hr => shareRoots_spec hr)
        (Share.mem_allVisits_of_mem_shown hv)]
      exact h.resolve_left hcut v hv

theorem complete_of_exactUnlessFlagged (hunc : validUnc path = some unc)
    (h : ∀ sample, SmbProbe share localeLe path folders watch sample →
      sample.ExactUnlessFlagged share unc.base)
    (hcut : ¬ share.CutShort (shareRoots unc.base folders watch)) {v : Visit}
    (hv : v ∈ share.shown (shareRoots unc.base folders watch) localeLe) : share.Complete v := by
  have hbounded : ∀ r ∈ shareRoots unc.base folders watch, r.Bounded := fun r hr =>
    (shareRoots_spec hr).1
  obtain ⟨first, sample, hfirst, hrun, herror⟩ := Share.exists_probed localeLe hbounded hcut
    (Share.atRoots_start (shareRoots unc.base folders watch) 0 none)
    (Nat.zero_le _)
  have hfolders : sample.folders.getD []
      = (share.shown (shareRoots unc.base folders watch) localeLe).map share.folderNode := by
    rcases Share.shown_of_run hbounded hfirst hrun with hflagged | ⟨-, -, hfolders⟩
    · rw [herror] at hflagged
      cases hflagged
    · exact hfolders
  rcases h sample (.walked hunc hfirst hrun) with hexact | hflagged
  · rw [← Share.exact_folderNode_iff hcut (fun r hr => shareRoots_spec hr)
      (Share.mem_allVisits_of_mem_shown hv)]
    refine hexact _ ?_
    rw [hfolders]
    exact List.mem_map_of_mem hv
  · rw [herror] at hflagged
    cases hflagged

end

namespace Sample

def album : Folder := ⟨[100], .nil⟩

def photos : Folder := ⟨[], .cons "2024" album.files album.dirs .nil⟩

/-- A share whose one file is two folders down. -/
def media : Folder := ⟨[], .cons "photos" photos.files photos.dirs .nil⟩

def mediaFolders : List (String × Folder × String) :=
  [("", media, "  photos    D        0  Mon Jan  6 10:00:00 2025"),
    ("photos", photos, "  2024      D        0  Mon Jan  6 10:00:00 2025"),
    ("photos\\2024", album, "  a.jpg     A      100  Mon Jan  6 10:00:00 2025")]

theorem mem_mediaFolders {p : String} {g : Folder}
    (h : (mediaFolders.lookup p).map (·.1) = some g) :
    p = "" ∧ g = media ∨ p = "photos" ∧ g = photos ∨ p = "photos\\2024" ∧ g = album := by
  simp only [mediaFolders, List.lookup_cons, List.lookup_nil] at h
  split at h
  · rename_i hp
    exact Or.inl ⟨eq_of_beq hp, (Option.some.inj h).symm⟩
  · split at h
    · rename_i hp
      exact Or.inr (Or.inl ⟨eq_of_beq hp, (Option.some.inj h).symm⟩)
    · split at h
      · rename_i hp
        exact Or.inr (Or.inr ⟨eq_of_beq hp, (Option.some.inj h).symm⟩)
      · cases h

def mediaShare : Share where
  cd p := (mediaFolders.lookup p).map (·.1)
  ls p := ((mediaFolders.lookup p).map (·.2)).getD ""
  proper h := by
    rcases mem_mediaFolders h with ⟨-, rfl⟩ | ⟨-, rfl⟩ | ⟨-, rfl⟩
    · exact ⟨by decide, List.not_mem_nil, ⟨by decide, List.not_mem_nil, trivial, trivial⟩, trivial⟩
    · exact ⟨by decide, List.not_mem_nil, trivial, trivial⟩
    · exact trivial
  cd_join h hentry := by
    rcases mem_mediaFolders h with ⟨rfl, rfl⟩ | ⟨rfl, rfl⟩ | ⟨rfl, rfl⟩
    · obtain ⟨rfl, rfl⟩ := Prod.mk.inj (List.mem_singleton.mp hentry)
      decide
    · obtain ⟨rfl, rfl⟩ := Prod.mk.inj (List.mem_singleton.mp hentry)
      decide
    · exact absurd hentry List.not_mem_nil
  parseDir_ls h := by
    rcases mem_mediaFolders h with ⟨rfl, rfl⟩ | ⟨rfl, rfl⟩ | ⟨rfl, rfl⟩
    · decide +kernel
    · decide +kernel
    · decide +kernel

end Sample

end Argus.Schedulers
