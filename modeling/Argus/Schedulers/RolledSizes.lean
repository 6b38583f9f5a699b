import Argus.Lib.PathSums
import Argus.Schedulers.FolderTree

namespace Argus.Schedulers

/-!
# Sizes that are rolled up

A run of `walkRoot` in which any `ls` may fail, and which the budget or the deadline may stop at any
turn of its loop.  What it says of a folder need not be what the folder holds, but it adds up.

* `WalkRoot` — the runs, with the listings that came back.
* `RolledUp` — where a walk stands: which folders it has taken, and what the listings credit.
* `walkRoot_rolledUp` — every run stands so, at every turn.
* `walkRoot_adds_up` — a folder is what its own listing says and what its children are.
-/

open PathSums

/-! ### Runs -/

/-- The listings of a tree: names of folders are not empty, have no backslash, and no two of them
    in one folder are the same. -/
structure DirListing.Proper (l : DirListing) : Prop where
  nodup : l.dirs.Nodup
  plain : PlainPath l.dirs

/-- `walkRoot` begins. -/
def Walk.enter (w : Walk) : Walk := { w with queue := [("", 0)], nodes := [], cut := false }

/-- `walkRoot` comes to a pause, after these listings. -/
inductive WalkRoot (start : Walk) : List (String × DirListing) → Pause → Prop
  | enter {isCancelled paused : Bool} {now : ℕ} {next : Pause}
      (h : start.enter.head isCancelled paused now = some next) : WalkRoot start [] next
  | resume {log : List (String × DirListing)} {w : Walk} (hrun : WalkRoot start log (.waiting w)) :
      WalkRoot start log (.woken w)
  | wake {log : List (String × DirListing)} {w : Walk} (hrun : WalkRoot start log (.woken w)) :
      WalkRoot start log (.ready w)
  | shift {log : List (String × DirListing)} {w : Walk} {isCancelled paused : Bool} {now : ℕ}
      {next : Pause} (hrun : WalkRoot start log (.ready w))
      (h : w.shift isCancelled paused now = some next) : WalkRoot start log next
  | failed {log : List (String × DirListing)} {w : Walk} {rel : String} {depth : ℕ}
      {isCancelled paused : Bool} {now : ℕ} {next : Pause}
      (hrun : WalkRoot start log (.listing w rel depth))
      (h : w.listed isCancelled paused now rel depth none = some next) : WalkRoot start log next
  | listed {log : List (String × DirListing)} {w : Walk} {rel : String} {depth : ℕ}
      {l : DirListing} {isCancelled paused : Bool} {now : ℕ} {next : Pause}
      (hrun : WalkRoot start log (.listing w rel depth)) (hproper : l.Proper)
      (h : w.listed isCancelled paused now rel depth (some l) = some next) :
      WalkRoot start (log ++ [(rel, l)]) next

/-! ### Where a walk stands -/

/-- What the listings credit to a folder. -/
def rolledNode (listed : List (List String × DirListing)) (p : List String) : Node where
  rel := relOf p
  bytes := ((belowPath listed p).map (·.2.fileBytes)).sum
  files := ((belowPath listed p).map (·.2.fileCount)).sum
  subdirs := ((belowPath listed p).map (·.2.dirs.length)).sum
  depth := p.length

/-- The walk has taken some folders from its queue and listed some of these. -/
structure RolledUp (start w : Walk) (taken queue : List (List String))
    (listed : List (List String × DirListing)) : Prop where
  queued : w.queue = queue.map fun p => (relOf p, p.length)
  nodup : (taken ++ queue).Nodup
  plain : ∀ p ∈ taken ++ queue, PlainPath p
  root_mem : [] ∈ taken ++ queue
  listed_sublist : (listed.map Prod.fst).Sublist taken
  parent : ∀ p name, p ++ [name] ∈ taken ++ queue → p ∈ listed.map Prod.fst
  nodes : w.nodes = if listed = [] then [] else (taken ++ queue).map (rolledNode listed)
  bytes : w.totals.bytes = start.totals.bytes + (listed.map (·.2.fileBytes)).sum
  files : w.totals.files = start.totals.files + (listed.map (·.2.fileCount)).sum

theorem rolledNode_concat (listed : List (List String × DirListing)) (x : List String)
    (l : DirListing) (p : List String) :
    rolledNode (listed ++ [(x, l)]) p
      = if p <+: x then (rolledNode listed p).add l else rolledNode listed p := by
  split
  · rename_i hprefix
    simp [rolledNode, belowPath, Node.add, List.filter_append,
      List.isPrefixOf_iff_prefix.mpr hprefix]
  · rename_i hprefix
    have hnot : p.isPrefixOf x = false :=
      Bool.eq_false_iff.mpr (fun h => hprefix (List.isPrefixOf_iff_prefix.mp h))
    simp [rolledNode, belowPath, List.filter_append, hnot]

namespace RolledUp

variable {start w : Walk} {taken queue : List (List String)}
  {listed : List (List String × DirListing)}

/-- The folders on the way to a folder have been listed. -/
theorem leading (h : RolledUp start w taken queue listed) {p a : List String}
    (hp : p ∈ taken ++ queue) (ha : a <+: p) : a = p ∨ a ∈ listed.map Prod.fst := by
  induction p using List.reverseRecOn with
  | nil => exact Or.inl (List.prefix_nil.mp ha)
  | append_singleton p name ih =>
    rcases List.prefix_concat_iff.mp ha with rfl | ha
    · exact Or.inl rfl
    · right
      have hparent := h.parent p name hp
      rcases ih (List.mem_append_left queue (h.listed_sublist.subset hparent)) ha with rfl | hlisted
      · exact hparent
      · exact hlisted

theorem leading_mem (h : RolledUp start w taken queue listed) {p a : List String}
    (hp : p ∈ taken ++ queue) (ha : a <+: p) : a ∈ taken ++ queue := by
  rcases h.leading hp ha with rfl | hlisted
  · exact hp
  · exact List.mem_append_left queue (h.listed_sublist.subset hlisted)

/-- As long as nothing has been listed, the root is all there is. -/
theorem only_root (h : RolledUp start w taken queue []) {p : List String}
    (hp : p ∈ taken ++ queue) : p = [] := by
  rcases h.leading hp List.nil_prefix with hroot | hlisted
  · exact hroot.symm
  · exact absurd hlisted List.not_mem_nil

/-- A folder is taken, and nothing is listed. -/
theorem skip {x : List String} (h : RolledUp start w taken (x :: queue) listed) {w' : Walk}
    (hqueue : w'.queue = queue.map fun p => (relOf p, p.length)) (hnodes : w'.nodes = w.nodes)
    (htotals : w'.totals = w.totals) : RolledUp start w' (taken ++ [x]) queue listed := by
  have hsplit : (taken ++ [x]) ++ queue = taken ++ x :: queue := by simp
  constructor
  · exact hqueue
  · rw [hsplit]
    exact h.nodup
  · rw [hsplit]
    exact h.plain
  · rw [hsplit]
    exact h.root_mem
  · exact h.listed_sublist.trans (List.sublist_append_left taken [x])
  · rw [hsplit]
    exact h.parent
  · rw [hsplit, hnodes]
    exact h.nodes
  · rw [htotals]
    exact h.bytes
  · rw [htotals]
    exact h.files

end RolledUp

/-! ### A listing -/

/-- The folders that a listing adds to the queue. -/
def kidsOf (r : Root) (x : List String) (l : DirListing) : List (List String) :=
  if (x.length : ℚ) < r.depth then (l.dirs.take maxSubdirsPerDir).map fun name => x ++ [name]
  else []

section

variable {start w : Walk} {taken queue : List (List String)} {x : List String}
  {listed : List (List String × DirListing)} {l : DirListing} {r : Root}

theorem mem_kidsOf {c : List String} (h : c ∈ kidsOf r x l) :
    ∃ name ∈ l.dirs, c = x ++ [name] := by
  rw [kidsOf] at h
  split at h
  · obtain ⟨name, hname, rfl⟩ := List.mem_map.mp h
    exact ⟨name, List.mem_of_mem_take hname, rfl⟩
  · exact absurd h List.not_mem_nil

theorem nodup_kidsOf (hproper : l.Proper) : (kidsOf r x l).Nodup := by
  rw [kidsOf]
  split
  · refine List.Nodup.map (fun a b hab => by simpa using hab) ?_
    exact hproper.nodup.sublist (List.take_sublist _ _)
  · exact List.nodup_nil

theorem plain_kidsOf (hx : PlainPath x) (hproper : l.Proper) {c : List String}
    (hc : c ∈ kidsOf r x l) : PlainPath c := by
  obtain ⟨name, hname, rfl⟩ := mem_kidsOf hc
  intro d hd
  rcases List.mem_append.mp hd with hd | hd
  · exact hx d hd
  · obtain rfl := List.mem_singleton.mp hd
    exact hproper.plain d hname

theorem children_eq_kidsOf (hproper : l.Proper) :
    w.children (relOf x) x.length l = (kidsOf w.root x l).map fun c => (relOf c, c.length) := by
  rw [Walk.children, kidsOf]
  split
  · rw [List.map_map]
    refine List.map_congr_left (fun name hname => ?_)
    have hne : name ≠ "" := (hproper.plain name (List.mem_of_mem_take hname)).1
    show _ = (relOf (x ++ [name]), (x ++ [name]).length)
    rw [relOf_concat, List.length_append, List.length_singleton, joinPath]
    simp only [if_neg hne]
  · rw [List.map_nil]

namespace RolledUp

/-- A folder that is taken now is not among those that have been listed. -/
theorem notMem_listed (h : RolledUp start w taken (x :: queue) listed) :
    x ∉ listed.map Prod.fst := by
  intro hmem
  have hdisjoint := List.disjoint_of_nodup_append h.nodup
  exact hdisjoint (h.listed_sublist.subset hmem) List.mem_cons_self

theorem kidsOf_fresh (h : RolledUp start w taken (x :: queue) listed) {c : List String}
    (hc : c ∈ kidsOf r x l) : c ∉ taken ++ x :: queue := by
  obtain ⟨name, -, rfl⟩ := mem_kidsOf hc
  intro hmem
  exact h.notMem_listed (h.parent x name hmem)

/-- A listing is credited to its folder and to those that one is in. -/
theorem credited (h : RolledUp start w taken (x :: queue) listed) :
    (ancestors (relOf x).length (relOf x).toList).foldl (credit l) w.nodes
      = (taken ++ x :: queue).map (rolledNode (listed ++ [(x, l)])) := by
  have hx : x ∈ taken ++ x :: queue := List.mem_append_right taken List.mem_cons_self
  -- The node of the root need not be there yet.
  have hnodes : (ancestors (relOf x).length (relOf x).toList).foldl (credit l) w.nodes
      = (ancestors (relOf x).length (relOf x).toList).foldl (credit l)
          ((taken ++ x :: queue).map (rolledNode listed)) := by
    rw [h.nodes]
    split
    · rename_i hnone
      subst hnone
      have hone : taken ++ x :: queue = [[]] := by
        have hmem : ∀ p ∈ taken ++ x :: queue, p = [] := fun p hp => h.only_root hp
        have hlength := List.eq_replicate_of_mem hmem
        have hnodup := h.nodup
        rw [hlength, List.nodup_replicate] at hnodup
        rw [hlength]
        have hpos : 0 < (taken ++ x :: queue).length := List.length_pos_of_mem hx
        have hexact : (taken ++ x :: queue).length = 1 := by omega
        rw [hexact]
        rfl
      have hroot : x = [] := h.only_root hx
      rw [hone, hroot]
      rfl
    · rfl
  have hleading : ∀ a, a <+: x → a ∈ taken ++ x :: queue := fun a ha => h.leading_mem hx ha
  have hrel : ∀ p ∈ taken ++ x :: queue, relOf p ∈ x.inits.reverse.map relOf ↔ p <+: x := by
    intro p hp
    rw [List.mem_map]
    constructor
    · rintro ⟨a, ha, heq⟩
      rw [List.mem_reverse, List.mem_inits] at ha
      rw [← relOf_inj (h.plain a (hleading a ha)) (h.plain p hp) heq]
      exact ha
    · intro hpx
      exact ⟨p, by rw [List.mem_reverse, List.mem_inits]; exact hpx, rfl⟩
  rw [hnodes, ancestors_relOf (h.plain x hx) le_rfl, foldl_credit]
  · rw [List.map_map]
    refine List.map_congr_left (fun p hp => ?_)
    rw [rolledNode_concat]
    show (if relOf p ∈ x.inits.reverse.map relOf then _ else _) = _
    simp only [hrel p hp]
  · refine List.Nodup.map_on ?_ (List.nodup_reverse.mpr (nodup_inits x))
    intro a ha b hb heq
    rw [List.mem_reverse, List.mem_inits] at ha hb
    exact relOf_inj (h.plain a (hleading a ha)) (h.plain b (hleading b hb)) heq
  · intro rel hmem
    obtain ⟨a, ha, rfl⟩ := List.mem_map.mp hmem
    rw [List.mem_reverse, List.mem_inits] at ha
    exact ⟨_, List.mem_map_of_mem (hleading a ha), rfl⟩

/-- The folders of a listing get their nodes. -/
theorem ensured (h : RolledUp start w taken (x :: queue) listed) (hproper : l.Proper) :
    ((kidsOf r x l).map fun c => (relOf c, c.length)).foldl
        (fun nodes c => ensureNode c.1 c.2 nodes)
        ((taken ++ x :: queue).map (rolledNode (listed ++ [(x, l)])))
      = (taken ++ x :: queue ++ kidsOf r x l).map (rolledNode (listed ++ [(x, l)])) := by
  have hx : x ∈ taken ++ x :: queue := List.mem_append_right taken List.mem_cons_self
  have hplain : ∀ c ∈ kidsOf r x l, PlainPath c := fun c hc =>
    plain_kidsOf (h.plain x hx) hproper hc
  rw [foldl_ensureNode, List.map_map]
  · conv_rhs => rw [List.map_append]
    congr 1
    refine List.map_congr_left (fun c hc => ?_)
    -- Nothing has been listed in a folder that is new.
    have hnone : belowPath (listed ++ [(x, l)]) c = [] := by
      refine List.filter_eq_nil_iff.mpr (fun e he hce => ?_)
      have hcd := List.isPrefixOf_iff_prefix.mp hce
      have hmem : e.1 ∈ taken ++ x :: queue := by
        rcases List.mem_append.mp he with he | he
        · exact List.mem_append_left _ (h.listed_sublist.subset (List.mem_map_of_mem he))
        · rw [List.mem_singleton.mp he]
          exact hx
      exact h.kidsOf_fresh hc (h.leading_mem hmem hcd)
    show _ = rolledNode (listed ++ [(x, l)]) c
    rw [rolledNode, hnone]
    rfl
  · rw [List.map_map]
    refine List.Nodup.map_on (fun c hc d hd heq => ?_) (nodup_kidsOf hproper)
    exact relOf_inj (hplain c hc) (hplain d hd) heq
  · intro child hchild n hn
    obtain ⟨c, hc, rfl⟩ := List.mem_map.mp hchild
    obtain ⟨p, hp, rfl⟩ := List.mem_map.mp hn
    intro heq
    have hpc : p = c := relOf_inj (h.plain p hp) (hplain c hc) heq
    rw [hpc] at hp
    exact h.kidsOf_fresh hc hp

/-- A folder is taken and listed. -/
theorem absorb (h : RolledUp start { w with queue := (relOf x, x.length) :: w.queue } taken
      (x :: queue) listed) (hproper : l.Proper) :
    RolledUp start (w.absorb (relOf x) x.length (some l)) (taken ++ [x])
      (queue ++ kidsOf w.root x l) (listed ++ [(x, l)]) := by
  have hsplit : taken ++ [x] ++ (queue ++ kidsOf w.root x l)
      = taken ++ x :: queue ++ kidsOf w.root x l := by simp
  have hx : x ∈ taken ++ x :: queue := List.mem_append_right taken List.mem_cons_self
  have hchildren := children_eq_kidsOf (w := w) (x := x) hproper
  have hlisted : (listed ++ [(x, l)]).map Prod.fst = listed.map Prod.fst ++ [x] := by simp
  constructor
  · have hqueue : w.queue = queue.map fun p => (relOf p, p.length) :=
      (List.cons.inj h.queued).2
    show w.queue ++ w.children (relOf x) x.length l = _
    rw [hqueue, hchildren, List.map_append]
  · rw [hsplit]
    refine List.nodup_append'.mpr ⟨h.nodup, nodup_kidsOf hproper, fun c hc hkid => ?_⟩
    exact h.kidsOf_fresh hkid hc
  · rw [hsplit]
    intro p hp
    rcases List.mem_append.mp hp with hp | hp
    · exact h.plain p hp
    · exact plain_kidsOf (h.plain x hx) hproper hp
  · rw [hsplit]
    exact List.mem_append_left _ h.root_mem
  · rw [hlisted]
    exact h.listed_sublist.append_right [x]
  · rw [hsplit, hlisted]
    intro p name hp
    rcases List.mem_append.mp hp with hp | hp
    · exact List.mem_append_left _ (h.parent p name hp)
    · obtain ⟨name', -, heq⟩ := mem_kidsOf hp
      rw [(List.append_inj' heq rfl).1]
      exact List.mem_append_right _ (List.mem_singleton_self x)
  · rw [if_neg (by simp), hsplit, ← h.ensured hproper, ← h.credited, ← hchildren]
    rfl
  · have hbytes : w.totals.bytes = start.totals.bytes + (listed.map (·.2.fileBytes)).sum := h.bytes
    show w.totals.bytes + l.fileBytes = _
    rw [hbytes, List.map_append, List.sum_append, List.map_singleton, List.sum_singleton,
      Nat.add_assoc]
  · have hfiles : w.totals.files = start.totals.files + (listed.map (·.2.fileCount)).sum := h.files
    show w.totals.files + l.fileCount = _
    rw [hfiles, List.map_append, List.sum_append, List.map_singleton, List.sum_singleton,
      Nat.add_assoc]

end RolledUp

end

/-! ### Every turn of the loop -/

/-- The folders that were listed, by their paths. -/
def Walk.Rolled (start w : Walk) (log : List (String × DirListing)) : Prop :=
  ∃ taken queue listed, log = listed.map (fun e => (relOf e.1, e.2)) ∧
    RolledUp start w taken queue listed

/-- A directory that has been taken from the queue waits for its listing. -/
def Walk.Takes (start w : Walk) (log : List (String × DirListing)) (rel : String) (depth : ℕ) :
    Prop :=
  ∃ taken x queue listed, log = listed.map (fun e => (relOf e.1, e.2)) ∧ rel = relOf x ∧
    depth = x.length ∧
    RolledUp start { w with queue := (relOf x, x.length) :: w.queue } taken (x :: queue) listed

def RolledAt (start : Walk) (log : List (String × DirListing)) : Pause → Prop
  | .waiting w => start.Rolled w log
  | .woken w => start.Rolled w log
  | .ready w => start.Rolled w log
  | .listing w rel depth => start.Takes w log rel depth
  | .walked w => start.Rolled w log
  | .probed _ => True

section

variable {start w : Walk} {log : List (String × DirListing)} {next : Pause}
  {isCancelled paused : Bool} {now : ℕ}

theorem rolled_enter : start.Rolled start.enter [] := by
  refine ⟨[], [[]], [], rfl, ?_⟩
  constructor
  · rfl
  · exact List.nodup_singleton _
  · intro p hp
    obtain rfl := List.mem_singleton.mp hp
    exact fun name hname => absurd hname List.not_mem_nil
  · exact List.mem_singleton_self _
  · exact List.Sublist.slnil
  · intro p name hp
    exact absurd (List.mem_singleton.mp hp) (by simp)
  · rfl
  · rfl
  · rfl

theorem rolledAt_head (h : start.Rolled w log)
    (hnext : w.head isCancelled paused now = some next) : RolledAt start log next := by
  have hcut : start.Rolled { w with cut := true } log := by
    obtain ⟨taken, queue, listed, hlog, hrolled⟩ := h
    exact ⟨taken, queue, listed, hlog, hrolled.1, hrolled.2, hrolled.3, hrolled.4, hrolled.5,
      hrolled.6, hrolled.7, hrolled.8, hrolled.9⟩
  rw [Walk.head] at hnext
  split at hnext
  · obtain rfl := Option.some.inj hnext
    exact h
  · split at hnext
    · obtain rfl := Option.some.inj hnext
      exact hcut
    · split at hnext
      · cases hnext
      · split at hnext
        · obtain rfl := Option.some.inj hnext
          exact h
        · obtain rfl := Option.some.inj hnext
          exact h

theorem rolledAt_shift (h : start.Rolled w log)
    (hnext : w.shift isCancelled paused now = some next) : RolledAt start log next := by
  obtain ⟨taken, queue, listed, hlog, hrolled⟩ := h
  cases queue with
  | nil =>
    rw [Walk.shift, hrolled.queued] at hnext
    obtain rfl := Option.some.inj hnext
    exact ⟨taken, [], listed, hlog, hrolled⟩
  | cons x queue =>
    rw [Walk.shift_cons hrolled.queued] at hnext
    split at hnext
    · obtain rfl := Option.some.inj hnext
      refine ⟨taken, x, queue, listed, hlog, rfl, rfl, ?_⟩
      exact ⟨rfl, hrolled.2, hrolled.3, hrolled.4, hrolled.5, hrolled.6, hrolled.7, hrolled.8,
        hrolled.9⟩
    · refine rolledAt_head ?_ hnext
      exact ⟨taken ++ [x], queue, listed, hlog, hrolled.skip rfl rfl rfl⟩

theorem rolledAt_listed {rel : String} {depth : ℕ} {l : DirListing}
    (h : start.Takes w log rel depth) (hproper : l.Proper)
    (hnext : w.listed isCancelled paused now rel depth (some l) = some next) :
    RolledAt start (log ++ [(rel, l)]) next := by
  obtain ⟨taken, x, queue, listed, hlog, rfl, rfl, hrolled⟩ := h
  refine rolledAt_head ?_ hnext
  refine ⟨taken ++ [x], _, listed ++ [(x, l)], ?_, hrolled.absorb hproper⟩
  rw [hlog, List.map_append]
  rfl

theorem rolledAt_failed {rel : String} {depth : ℕ} (h : start.Takes w log rel depth)
    (hnext : w.listed isCancelled paused now rel depth none = some next) :
    RolledAt start log next := by
  obtain ⟨taken, x, queue, listed, hlog, rfl, rfl, hrolled⟩ := h
  refine rolledAt_head ?_ hnext
  exact ⟨taken ++ [x], queue, listed, hlog,
    hrolled.skip (List.cons.inj hrolled.queued).2 rfl rfl⟩

theorem walkRoot_rolledUp (hrun : WalkRoot start log next) : RolledAt start log next := by
  induction hrun with
  | enter h => exact rolledAt_head rolled_enter h
  | resume _ ih => exact ih
  | wake _ ih => exact ih
  | shift _ h ih => exact rolledAt_shift ih h
  | failed _ h ih => exact rolledAt_failed ih h
  | listed _ hproper h ih => exact rolledAt_listed ih hproper h

end

/-! ### What adds up -/

/-- The folder `child` lies in the folder `rel`, not in one further down. -/
def liesIn (rel child : String) : Bool :=
  let name := child.toList.rtakeWhile (· != '\\')
  decide (name ≠ []) && child == joinPath rel (String.ofList name)

/-- What the listing of a folder said; nothing if it never came. -/
def ownListing (log : List (String × DirListing)) (rel : String) : DirListing :=
  (log.lookup rel).getD ⟨[], 0, 0⟩

/-- What is said of the folders of a root adds up. -/
structure Walk.AddsUp (start w : Walk) (log : List (String × DirListing)) : Prop where
  listed_once : (log.map Prod.fst).Nodup
  once : (w.nodes.map Node.rel).Nodup
  sums : ∀ n ∈ w.nodes,
    n.bytes = (ownListing log n.rel).fileBytes
        + ((w.nodes.filter fun c => liesIn n.rel c.rel).map Node.bytes).sum ∧
      n.files = (ownListing log n.rel).fileCount
        + ((w.nodes.filter fun c => liesIn n.rel c.rel).map Node.files).sum ∧
      n.subdirs = (ownListing log n.rel).dirs.length
        + ((w.nodes.filter fun c => liesIn n.rel c.rel).map Node.subdirs).sum
  root : ∀ n ∈ w.nodes, n.rel = "" →
    w.totals.bytes = start.totals.bytes + n.bytes ∧ w.totals.files = start.totals.files + n.files
  no_root : (∀ n ∈ w.nodes, n.rel ≠ "") →
    w.totals.bytes = start.totals.bytes ∧ w.totals.files = start.totals.files

theorem liesIn_relOf {p c : List String} (hp : PlainPath p) (hc : PlainPath c) :
    liesIn (relOf p) (relOf c) = true ↔ IsChild p c := by
  rw [liesIn, Bool.and_eq_true, decide_eq_true_eq, beq_iff_eq]
  constructor
  · rintro ⟨hne, heq⟩
    rw [← relOf_concat] at heq
    refine ⟨_, relOf_inj hc ?_ heq⟩
    intro d hd
    rcases List.mem_append.mp hd with hd | hd
    · exact hp d hd
    · obtain rfl := List.mem_singleton.mp hd
      refine ⟨fun hempty => hne (String.ofList_eq_empty_iff.mp hempty), fun hmem => ?_⟩
      rw [String.toList_ofList] at hmem
      have hsep := List.mem_rtakeWhile_imp hmem
      simp at hsep
  · rintro ⟨name, rfl⟩
    obtain ⟨hne, hplain⟩ := hc.last
    have hname : ∀ d ∈ name.toList, (d != '\\') = true := by
      intro d hd
      simp only [bne_iff_ne]
      rintro rfl
      exact hplain hd
    have hlast : (relOf (p ++ [name])).toList.rtakeWhile (· != '\\') = name.toList := by
      rw [relOf_concat]
      by_cases hempty : relOf p = ""
      · rw [hempty, joinPath_empty_left]
        exact List.rtakeWhile_eq_self_iff.mpr hname
      · have htext : (relOf p ++ "\\" ++ name).toList
            = ((relOf p).toList ++ ['\\']) ++ name.toList := by simp
        rw [joinPath_of_ne hempty hne, htext, List.rtakeWhile, List.reverse_append,
          List.takeWhile_append_of_pos (fun d hd => hname d (List.mem_reverse.mp hd)),
          List.reverse_concat, List.takeWhile_cons_of_neg (by simp), List.append_nil,
          List.reverse_reverse]
    rw [hlast, String.ofList_toList, relOf_concat]
    exact ⟨by simpa using hne, rfl⟩

/-- What was listed at a path is what its listing said. -/
theorem sum_atPath_own {listed : List (List String × DirListing)} {p : List String}
    (hnodup : (listed.map Prod.fst).Nodup) (hplain : ∀ e ∈ listed, PlainPath e.1)
    (hp : PlainPath p) (v : DirListing → ℕ) (hv : v ⟨[], 0, 0⟩ = 0) :
    ((atPath listed p).map fun e => v e.2).sum
      = v (ownListing (listed.map fun e => (relOf e.1, e.2)) (relOf p)) := by
  induction listed with
  | nil => exact hv.symm
  | cons e listed ih =>
    rw [List.map_cons, List.nodup_cons] at hnodup
    rw [List.forall_mem_cons] at hplain
    rw [sum_atPath_cons, ih hnodup.2 hplain.2, ownListing, ownListing, List.map_cons]
    by_cases heq : e.1 = p
    · have hrest : (listed.map fun e => (relOf e.1, e.2)).lookup (relOf p) = none := by
        rw [List.lookup_eq_none_iff]
        intro e' he'
        obtain ⟨e'', he'', rfl⟩ := List.mem_map.mp he'
        simp only [bne_iff_ne]
        intro hrel
        have hsame := relOf_inj hp (hplain.2 e'' he'') hrel
        rw [heq, hsame] at hnodup
        exact hnodup.1 (List.mem_map_of_mem he'')
      rw [if_pos heq, hrest, heq, List.lookup_cons, beq_self_eq_true]
      exact (congrArg (v e.2 + ·) hv).trans (Nat.add_zero _)
    · have hrel : (relOf p == relOf e.1) = false := by
        simp only [beq_eq_false_iff_ne]
        intro hrel
        exact heq (relOf_inj hp hplain.1 hrel).symm
      rw [if_neg heq, Nat.zero_add, List.lookup_cons, hrel]

/-- A folder has what its listing said and what its children have. -/
theorem sum_rolledNode {listed : List (List String × DirListing)} {paths : List (List String)}
    (hnodup : (listed.map Prod.fst).Nodup) (hpaths : paths.Nodup)
    (hplain : ∀ p ∈ paths, PlainPath p) (hclosed : ∀ e ∈ listed, ∀ a, a <+: e.1 → a ∈ paths)
    {p : List String} (hp : p ∈ paths) (v : DirListing → ℕ) (hv : v ⟨[], 0, 0⟩ = 0)
    (field : Node → ℕ)
    (hfield : ∀ q, field (rolledNode listed q) = ((belowPath listed q).map fun e => v e.2).sum) :
    field (rolledNode listed p)
      = v (ownListing (listed.map fun e => (relOf e.1, e.2)) (relOf p))
        + (((paths.map (rolledNode listed)).filter fun c => liesIn (relOf p) c.rel).map
          field).sum := by
  have hlisted : ∀ e ∈ listed, PlainPath e.1 := fun e he =>
    hplain e.1 (hclosed e he e.1 (List.prefix_refl _))
  have hchildren : (paths.map (rolledNode listed)).filter (fun c => liesIn (relOf p) c.rel)
      = (paths.filter fun c => IsChild p c).map (rolledNode listed) := by
    rw [List.filter_map]
    congr 1
    refine List.filter_congr (fun c hc => ?_)
    exact Bool.eq_iff_iff.mpr ((liesIn_relOf (hplain p hp) (hplain c hc)).trans
      decide_eq_true_iff.symm)
  rw [hfield, sum_belowPath hpaths hclosed p, sum_atPath_own hnodup hlisted (hplain p hp) v hv,
    hchildren, List.map_map]
  congr 2
  exact List.map_congr_left (fun c _ => (hfield c).symm)

/-- Wherever the budget, the deadline or a failure stops a walk, what it says of its folders adds
    up, and the root has what the walk added to the totals. -/
theorem walkRoot_adds_up {start w : Walk} {log : List (String × DirListing)}
    (hrun : WalkRoot start log (.walked w)) : start.AddsUp w log := by
  obtain ⟨taken, queue, listed, rfl, h⟩ := walkRoot_rolledUp hrun
  have hlisted : (listed.map Prod.fst).Nodup :=
    (List.nodup_append'.mp h.nodup).1.sublist h.listed_sublist
  have hclosed : ∀ e ∈ listed, ∀ a, a <+: e.1 → a ∈ taken ++ queue := by
    intro e he a ha
    have hmem : e.1 ∈ taken ++ queue :=
      List.mem_append_left queue (h.listed_sublist.subset (List.mem_map_of_mem he))
    exact h.leading_mem hmem ha
  have hinj : ∀ p ∈ taken ++ queue, ∀ q ∈ taken ++ queue, relOf p = relOf q → p = q :=
    fun p hp q hq heq => relOf_inj (h.plain p hp) (h.plain q hq) heq
  have hall : ∀ v : List String × DirListing → ℕ,
      ((belowPath listed []).map v).sum = (listed.map v).sum := by
    intro v
    have hbelow : belowPath listed [] = listed := List.filter_eq_self.mpr (fun e _ => rfl)
    rw [hbelow]
  constructor
  · rw [List.map_map]
    have hpaths : listed.map (Prod.fst ∘ fun e => (relOf e.1, e.2))
        = (listed.map Prod.fst).map relOf := by
      rw [List.map_map]
      rfl
    rw [hpaths]
    refine List.Nodup.map_on (fun p hp q hq heq => ?_) hlisted
    exact hinj p (List.mem_append_left _ (h.listed_sublist.subset hp)) q
      (List.mem_append_left _ (h.listed_sublist.subset hq)) heq
  · rw [h.nodes]
    split
    · exact List.nodup_nil
    · rw [List.map_map]
      exact List.Nodup.map_on (fun p hp q hq heq => hinj p hp q hq heq) h.nodup
  · intro n hn
    rw [h.nodes] at hn ⊢
    split at hn
    · exact absurd hn List.not_mem_nil
    · rename_i hsome
      obtain ⟨p, hp, rfl⟩ := List.mem_map.mp hn
      rw [if_neg hsome]
      refine ⟨?_, ?_, ?_⟩
      · exact sum_rolledNode hlisted h.nodup h.plain hclosed hp (·.fileBytes) rfl Node.bytes
          (fun _ => rfl)
      · exact sum_rolledNode hlisted h.nodup h.plain hclosed hp (·.fileCount) rfl Node.files
          (fun _ => rfl)
      · exact sum_rolledNode hlisted h.nodup h.plain hclosed hp (·.dirs.length) rfl Node.subdirs
          (fun _ => rfl)
  · intro n hn hroot
    rw [h.nodes] at hn
    split at hn
    · exact absurd hn List.not_mem_nil
    · obtain ⟨p, hp, rfl⟩ := List.mem_map.mp hn
      obtain rfl : p = [] := (relOf_eq_empty (h.plain p hp)).mp hroot
      rw [h.bytes, h.files]
      exact ⟨congrArg (start.totals.bytes + ·) (hall _).symm,
        congrArg (start.totals.files + ·) (hall _).symm⟩
  · intro hnone
    have hempty : listed = [] := by
      by_contra hsome
      rw [h.nodes, if_neg hsome] at hnone
      exact hnone _ (List.mem_map_of_mem h.root_mem) rfl
    rw [h.bytes, h.files, hempty]
    exact ⟨rfl, rfl⟩

namespace Sample

/-- A walk that may list two directories. -/
def budgetOfTwo : Walk := { Walk.start [] 0 none with root := ⟨"media", 2, ""⟩, calls := 2 }

def mediaListing : DirListing := ⟨["a", "b"], 10, 1⟩

def aListing : DirListing := ⟨["c"], 5, 1⟩

theorem mediaListing_proper : mediaListing.Proper where
  nodup := by decide
  plain := by
    intro name hname
    rcases List.mem_pair.mp hname with rfl | rfl
    · decide
    · decide

theorem aListing_proper : aListing.Proper where
  nodup := by decide
  plain := by
    intro name hname
    obtain rfl := List.mem_singleton.mp hname
    decide

end Sample

open Sample in
/-- The budget is used up before `b` and `a\c` are listed. -/
theorem walkRoot_adds_up_two :
    ∃ w, w.nodes.map (fun n => (n.rel, n.bytes)) = [("", 15), ("a", 5), ("b", 0), ("a\\c", 0)] ∧
      budgetOfTwo.AddsUp w [("", mediaListing), ("a", aListing)] := by
  have hroot : WalkRoot budgetOfTwo [] (.ready budgetOfTwo.enter) :=
    @WalkRoot.enter _ false false 0 _ rfl
  have hmedia := @WalkRoot.shift _ _ _ false false 0 (.listing _ "" 0) hroot rfl
  have hsecond := @WalkRoot.listed _ _ _ _ _ _ false false 0 (.ready _) hmedia
    mediaListing_proper rfl
  have ha := @WalkRoot.shift _ _ _ false false 0 (.listing _ "a" 1) hsecond rfl
  have hdone := @WalkRoot.listed _ _ _ _ _ _ false false 0 (.walked _) ha aListing_proper rfl
  exact ⟨_, by decide, walkRoot_adds_up hdone⟩

end Argus.Schedulers
