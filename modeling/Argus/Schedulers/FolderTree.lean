import Argus.Lib.BreadthFirst
import Argus.Schedulers.Shares
import Mathlib.Algebra.Order.BigOperators.Group.List
import Mathlib.Algebra.Order.Ring.Nat

namespace Argus.Schedulers

/-!
# The folders of a walk

The walk of a root, as far as it depends on the share: which folders it comes to, in which order,
and what it says of them.

* `Share.order` — the folders below a root in the order in which the walk comes to them; it lists
  the `Root.listable` ones.
* `Root.Reaches` — a folder that the walk lists, by its path (`Share.mem_order_iff`).
* `Share.nodeOf` — what the walk says of a folder when it has taken some from its queue.
* `Share.nodeOf_eq_iff` — at the end it is exact if the walk reaches every file in the folder.
* `Share.foldl_credit_ancestors`, `Share.foldl_ensureNode_kids` — how a listing changes the nodes.
-/

/-! ### The order of the walk -/

namespace Root

variable (r : Root)

def full (p : List String) : String := joinPath r.sub (relOf p)

/-- The walk lists the folder when it comes to it. -/
def listable (p : List String) : Bool := subRe (r.full p)

/-- The files of the folder count: no name on the way is left out, and it is not too deep. -/
def Reaches (p : List String) : Prop :=
  (∀ a ∈ p.inits, r.listable a = true) ∧ (p.length : ℚ) < r.depth + 1

instance (p : List String) : Decidable (r.Reaches p) := inferInstanceAs (Decidable (_ ∧ _))

/-- The folder is among those that are shown. -/
def shows (p : List String) : Bool := !(r.label == "" && p.length < 1)

end Root

namespace Share

variable (share : Share) (r : Root)

/-- What the folder at the path holds itself. -/
def own (p : List String) : DirListing :=
  ((share.cd (r.full p)).map Folder.listing).getD ⟨[], 0, 0⟩

/-- What the walk comes to from the folder. -/
def kids (p : List String) : List (List String) :=
  if r.listable p = true ∧ (p.length : ℚ) < r.depth then
    (share.own r p).dirs.map fun name => p ++ [name]
  else []

/-- The folders the walk of a root comes to.  There are none more than six levels down. -/
def order : List (List String) := BreadthFirst.before (share.kids r) [] 7

/-- What the walk says of a folder after it has taken some from its queue. -/
def nodeOf (done : List (List String)) (p : List String) : Node :=
  let credited := (done.filter fun d => r.listable d && p.isPrefixOf d).map (share.own r)
  { rel := relOf p
    bytes := (credited.map (·.fileBytes)).sum
    files := (credited.map (·.fileCount)).sum
    subdirs := (credited.map (·.dirs.length)).sum
    depth := p.length }

end Share

/-! ### What the walk comes to -/

namespace Share

variable {share : Share} {r : Root} {p q : List String} {name : String} {g : Folder}

theorem own_eq (hg : share.cd (r.full p) = some g) : share.own r p = g.listing := by
  rw [own, hg]
  rfl

theorem mem_kids : q ∈ share.kids r p ↔ r.listable p = true ∧ (p.length : ℚ) < r.depth ∧
    ∃ name ∈ (share.own r p).dirs, q = p ++ [name] := by
  rw [kids]
  split
  · rename_i h
    simp [h.1, h.2, eq_comm]
  · rename_i h
    constructor
    · exact fun hq => absurd hq List.not_mem_nil
    · rintro ⟨hlistable, hdepth, -⟩
      exact absurd ⟨hlistable, hdepth⟩ h

theorem nodup_kids (p : List String) : (share.kids r p).Nodup := by
  rw [kids]
  split
  · refine List.Nodup.map (fun a b hab => by simpa using hab) ?_
    rw [own]
    cases hg : share.cd (r.full p) with
    | none => exact List.nodup_nil
    | some g => exact (Forest.nodup_names (share.proper hg)).filter _
  · exact List.nodup_nil

theorem length_of_mem_level {n : ℕ} (h : p ∈ BreadthFirst.level (share.kids r) [] n) :
    p.length = n := by
  have hrank := BreadthFirst.rank_of_mem_level List.length
    (fun x y hy => by
      obtain ⟨-, -, name, -, rfl⟩ := mem_kids.mp hy
      exact List.length_append) h
  rw [hrank]
  exact Nat.zero_add n

variable (hdepth : r.depth ≤ 6)

include hdepth in
theorem level_seven : BreadthFirst.level (share.kids r) [] 7 = [] := by
  rw [List.eq_nil_iff_forall_not_mem]
  intro q hq
  obtain ⟨p, hp, hq⟩ := BreadthFirst.mem_level_succ.mp hq
  obtain ⟨-, hlt, -⟩ := mem_kids.mp hq
  rw [length_of_mem_level hp] at hlt
  rw [Nat.cast_ofNat] at hlt
  exact absurd (hlt.trans_le hdepth) (lt_irrefl 6)

theorem nodup_order : (share.order r).Nodup := by
  refine BreadthFirst.nodup_before List.length ?_ nodup_kids ?_ 7
  · intro p q hq
    obtain ⟨-, -, name, -, rfl⟩ := mem_kids.mp hq
    exact List.length_append
  · intro p p' q hq hq'
    obtain ⟨-, -, name, -, rfl⟩ := mem_kids.mp hq
    obtain ⟨-, -, name', -, heq⟩ := mem_kids.mp hq'
    exact (List.append_inj' heq rfl).1

theorem nil_mem_order : [] ∈ share.order r :=
  BreadthFirst.mem_before.mpr ⟨0, by omega, List.mem_singleton_self []⟩

/-- The walk comes to a folder from the one it is in. -/
theorem mem_kids_of_mem_order (h : p ++ [name] ∈ share.order r) :
    p ∈ share.order r ∧ p ++ [name] ∈ share.kids r p := by
  obtain ⟨k, hk, hlevel⟩ := BreadthFirst.mem_before.mp h
  cases k with
  | zero => exact absurd (List.mem_singleton.mp hlevel) (by simp)
  | succ k =>
    obtain ⟨p', hp', hkid⟩ := BreadthFirst.mem_level_succ.mp hlevel
    obtain ⟨-, -, name', -, heq⟩ := mem_kids.mp hkid
    obtain ⟨rfl, -⟩ := List.append_inj' heq rfl
    exact ⟨BreadthFirst.mem_before.mpr ⟨k, by omega, hp'⟩, hkid⟩

include hdepth in
theorem mem_order_of_mem_kids (hp : p ∈ share.order r) (h : q ∈ share.kids r p) :
    q ∈ share.order r := by
  obtain ⟨k, hk, hlevel⟩ := BreadthFirst.mem_before.mp hp
  have hnext : q ∈ BreadthFirst.level (share.kids r) [] (k + 1) :=
    BreadthFirst.mem_level_succ.mpr ⟨p, hlevel, h⟩
  refine BreadthFirst.mem_before.mpr ⟨k + 1, ?_, hnext⟩
  by_contra hge
  have hseven : k + 1 = 7 := by omega
  rw [hseven, level_seven hdepth] at hnext
  exact absurd hnext List.not_mem_nil

theorem full_append (p q : List String) : r.full (p ++ q) = joinPath (r.full p) (relOf q) := by
  rw [Root.full, Root.full, relOf_append, joinPath_assoc]

/-- What the walk comes to below a folder is within it. -/
theorem mem_within_of_mem_order (hg : share.cd (r.full p) = some g)
    (h : p ++ q ∈ share.order r) : ∃ h, (q, h) ∈ g.within := by
  induction q using List.reverseRecOn with
  | nil => exact ⟨g, Folder.nil_mem_within.mpr rfl⟩
  | append_singleton q name ih =>
    rw [← List.append_assoc] at h
    obtain ⟨hq, hkid⟩ := mem_kids_of_mem_order h
    obtain ⟨k, hk⟩ := ih hq
    obtain ⟨-, -, name', hname, heq⟩ := mem_kids.mp hkid
    obtain ⟨-, heq⟩ := List.append_inj' heq rfl
    obtain rfl := (List.cons.inj heq).1
    have hcd := share.cd_within hg hk
    rw [← full_append] at hcd
    rw [own_eq hcd, Folder.mem_listing_dirs] at hname
    obtain ⟨⟨h, hentry⟩, hsystem⟩ := hname
    exact ⟨h, Folder.append_mem_within hk hentry hsystem⟩

theorem full_nil (r : Root) : r.full [] = r.sub := joinPath_empty_right r.sub

end Share

/-! ### What the walk says of a folder -/

theorem inits_concat (p : List String) (name : String) :
    (p ++ [name]).inits = p.inits ++ [p ++ [name]] := by
  rw [List.inits_append]
  rfl

theorem nodup_inits (p : List String) : p.inits.Nodup := by
  induction p using List.reverseRecOn with
  | nil => exact List.nodup_singleton []
  | append_singleton p name ih =>
    rw [inits_concat]
    refine List.nodup_append'.mpr ⟨ih, List.nodup_singleton _, fun a ha ha' => ?_⟩
    obtain rfl := List.mem_singleton.mp ha'
    have hlength := ((List.mem_inits _ _).mp ha).length_le
    simp at hlength

/-- A sum is that over a part exactly if there is nothing in the other one. -/
theorem sum_filter_eq_iff {α : Type*} (l : List α) (keep : α → Bool) (f : α → ℕ) :
    ((l.filter keep).map f).sum = (l.map f).sum ↔ ∀ a ∈ l, keep a = false → f a = 0 := by
  induction l with
  | nil => simp
  | cons a l ih =>
    have hle : ((l.filter keep).map f).sum ≤ (l.map f).sum :=
      (List.filter_sublist.map f).sum_le_sum (fun _ _ => Nat.zero_le _)
    rw [List.forall_mem_cons, ← ih]
    cases ha : keep a with
    | true => simp [ha]
    | false =>
      rw [List.filter_cons_of_neg (by simp [ha]), List.map_cons, List.sum_cons]
      constructor
      · intro h
        exact ⟨fun _ => by omega, by omega⟩
      · rintro ⟨hzero, h⟩
        rw [hzero rfl, h, Nat.zero_add]

/-- The depths that the probe gives its roots. -/
def Root.Bounded (r : Root) : Prop := 1 ≤ r.depth ∧ r.depth ≤ 6

namespace Share

variable {share : Share} {r : Root} {p q : List String} {root g : Folder}

/-- The walk comes to a folder and lists it exactly if it reaches it. -/
theorem mem_order_iff (hbounded : r.Bounded) (hroot : share.cd r.sub = some root)
    (hmem : (p, g) ∈ root.within) :
    p ∈ share.order r ∧ r.listable p = true ↔ r.Reaches p := by
  induction p using List.reverseRecOn generalizing g with
  | nil =>
    have hdepth : ((0 : ℕ) : ℚ) < r.depth + 1 := by
      rw [Nat.cast_zero]
      exact (zero_lt_one.trans_le hbounded.1).trans (lt_add_one r.depth)
    constructor
    · rintro ⟨-, hlistable⟩
      refine ⟨fun a ha => ?_, hdepth⟩
      obtain rfl := List.mem_singleton.mp ha
      exact hlistable
    · rintro ⟨hinits, -⟩
      exact ⟨nil_mem_order, hinits [] (List.mem_singleton_self [])⟩
  | append_singleton p name ih =>
    obtain ⟨k, hk, hentry, hsystem⟩ := Folder.mem_within_of_append hmem
    have hparent := ih hk
    have hname : name ∈ (share.own r p).dirs := by
      rw [own_eq (share.cd_within hroot hk)]
      exact Folder.mem_listing_dirs.mpr ⟨⟨g, hentry⟩, hsystem⟩
    have hlength : (((p ++ [name]).length : ℕ) : ℚ) < r.depth + 1 ↔ (p.length : ℚ) < r.depth := by
      rw [List.length_append, List.length_singleton, Nat.cast_add, Nat.cast_one]
      exact add_lt_add_iff_right 1
    rw [Root.Reaches, inits_concat, hlength]
    constructor
    · rintro ⟨horder, hlistable⟩
      obtain ⟨hp, hkid⟩ := mem_kids_of_mem_order horder
      obtain ⟨hlist, hdepth, -⟩ := mem_kids.mp hkid
      refine ⟨fun a ha => ?_, hdepth⟩
      rcases List.mem_append.mp ha with ha | ha
      · exact (hparent.mp ⟨hp, hlist⟩).1 a ha
      · obtain rfl := List.mem_singleton.mp ha
        exact hlistable
    · rintro ⟨hinits, hdepth⟩
      have hreaches : r.Reaches p :=
        ⟨fun a ha => hinits a (List.mem_append_left _ ha), hdepth.trans (lt_add_one r.depth)⟩
      obtain ⟨hp, hlist⟩ := hparent.mpr hreaches
      have hkid : p ++ [name] ∈ share.kids r p := mem_kids.mpr ⟨hlist, hdepth, name, hname, rfl⟩
      exact ⟨mem_order_of_mem_kids hbounded.2 hp hkid,
        hinits _ (List.mem_append_right _ (List.mem_singleton_self _))⟩

/-- The folders credited to one that the walk comes to. -/
theorem perm_credited (hbounded : r.Bounded) (hroot : share.cd r.sub = some root)
    (hp : p ∈ share.order r) (hg : share.cd (r.full p) = some g) :
    ((share.order r).filter fun d => r.listable d && p.isPrefixOf d).Perm
      ((g.within.filter fun e => decide (r.Reaches (p ++ e.1))).map fun e => p ++ e.1) := by
  have hmem : (p, g) ∈ root.within := by
    obtain ⟨g', hg'⟩ := mem_within_of_mem_order (p := []) (by rw [full_nil]; exact hroot) hp
    have hcd : share.cd (r.full p) = some g' := share.cd_within hroot hg'
    rw [hg] at hcd
    obtain rfl := Option.some.inj hcd
    exact hg'
  refine (List.perm_ext_iff_of_nodup (nodup_order.filter _) ?_).mpr (fun d => ?_)
  · have hnodup := (Folder.nodup_within (share.proper hg)).map (List.append_right_injective p)
    rw [List.map_map] at hnodup
    exact hnodup.sublist (List.filter_sublist.map _)
  · simp only [List.mem_filter, Bool.and_eq_true, List.isPrefixOf_iff_prefix, List.mem_map,
      decide_eq_true_eq]
    constructor
    · rintro ⟨hd, hlistable, q, rfl⟩
      obtain ⟨h, hh⟩ := mem_within_of_mem_order hg hd
      have hreaches := (mem_order_iff hbounded hroot (Folder.within_trans hmem hh)).mp
        ⟨hd, hlistable⟩
      exact ⟨(q, h), ⟨hh, hreaches⟩, rfl⟩
    · rintro ⟨⟨q, h⟩, ⟨hh, hreaches⟩, rfl⟩
      obtain ⟨hd, hlistable⟩ := (mem_order_iff hbounded hroot (Folder.within_trans hmem hh)).mpr
        hreaches
      exact ⟨hd, hlistable, List.prefix_append p q⟩

theorem sum_credited (hbounded : r.Bounded) (hroot : share.cd r.sub = some root)
    (hp : p ∈ share.order r) (hg : share.cd (r.full p) = some g) (field : DirListing → ℕ) :
    ((((share.order r).filter fun d => r.listable d && p.isPrefixOf d).map (share.own r)).map
        field).sum
      = ((g.within.filter fun e => decide (r.Reaches (p ++ e.1))).map
          fun e => field e.2.listing).sum := by
  rw [List.map_map, ((perm_credited hbounded hroot hp hg).map _).sum_eq, List.map_map]
  congr 1
  refine List.map_congr_left (fun e he => ?_)
  have hcd := share.cd_within hg (List.mem_filter.mp he).1
  rw [← full_append] at hcd
  show field (share.own r (p ++ e.1)) = field e.2.listing
  rw [own_eq hcd]

/-- The walk says of a folder what it holds exactly if it reaches all the files in it. -/
theorem nodeOf_eq_iff (hbounded : r.Bounded) (hroot : share.cd r.sub = some root)
    (hp : p ∈ share.order r) (hg : share.cd (r.full p) = some g) :
    (share.nodeOf r (share.order r) p).bytes = g.bytes ∧
        (share.nodeOf r (share.order r) p).files = g.fileCount ↔
      ∀ e ∈ g.within, e.2.files ≠ [] → r.Reaches (p ++ e.1) := by
  have hbytes : (share.nodeOf r (share.order r) p).bytes = g.bytes ↔
      ∀ e ∈ g.within, decide (r.Reaches (p ++ e.1)) = false → e.2.files.sum = 0 := by
    rw [Folder.bytes, Folder.total_eq_sum_within, ← sum_filter_eq_iff]
    exact Eq.congr_left (sum_credited hbounded hroot hp hg (·.fileBytes))
  have hfiles : (share.nodeOf r (share.order r) p).files = g.fileCount ↔
      ∀ e ∈ g.within, decide (r.Reaches (p ++ e.1)) = false → e.2.files.length = 0 := by
    rw [Folder.fileCount, Folder.total_eq_sum_within, ← sum_filter_eq_iff]
    exact Eq.congr_left (sum_credited hbounded hroot hp hg (·.fileCount))
  rw [hbytes, hfiles]
  constructor
  · rintro ⟨-, hlength⟩ e he hne
    by_contra hmissed
    exact hne (List.length_eq_zero_iff.mp (hlength e he (decide_eq_false hmissed)))
  · intro hreaches
    have hempty : ∀ e ∈ g.within, decide (r.Reaches (p ++ e.1)) = false → e.2.files = [] := by
      intro e he hmissed
      by_contra hne
      exact of_decide_eq_false hmissed (hreaches e he hne)
    refine ⟨fun e he hmissed => ?_, fun e he hmissed => ?_⟩
    · rw [hempty e he hmissed, List.sum_nil]
    · rw [hempty e he hmissed, List.length_nil]

end Share

/-! ### Nodes -/

/-- A listing is credited to a node. -/
def Node.add (l : DirListing) (n : Node) : Node :=
  { n with
    bytes := n.bytes + l.fileBytes
    files := n.files + l.fileCount
    subdirs := n.subdirs + l.dirs.length }

@[simp] theorem Node.add_rel (l : DirListing) (n : Node) : (n.add l).rel = n.rel := rfl

theorem ensureNode_of_mem {nodes : List Node} {rel : String} (h : ∃ n ∈ nodes, n.rel = rel)
    (depth : ℕ) : ensureNode rel depth nodes = nodes := by
  obtain ⟨n, hn, rfl⟩ := h
  exact if_pos (List.any_eq_true.mpr ⟨n, hn, beq_self_eq_true n.rel⟩)

theorem ensureNode_of_notMem {nodes : List Node} {rel : String} (h : ∀ n ∈ nodes, n.rel ≠ rel)
    (depth : ℕ) : ensureNode rel depth nodes = nodes ++ [{ rel := rel, depth := depth }] := by
  refine if_neg (fun hany => ?_)
  obtain ⟨n, hn, hrel⟩ := List.any_eq_true.mp hany
  exact h n hn (eq_of_beq hrel)

theorem foldl_credit {l : DirListing} {nodes : List Node} {rels : List String}
    (hnodup : rels.Nodup) (hmem : ∀ rel ∈ rels, ∃ n ∈ nodes, n.rel = rel) :
    rels.foldl (credit l) nodes = nodes.map fun n => if n.rel ∈ rels then n.add l else n := by
  induction rels generalizing nodes with
  | nil => simp
  | cons rel rels ih =>
    obtain ⟨hfresh, hnodup⟩ := List.nodup_cons.mp hnodup
    have hcredit : credit l nodes rel = nodes.map fun n => if n.rel = rel then n.add l else n := by
      rw [credit, ensureNode_of_mem (hmem rel List.mem_cons_self)]
      rfl
    have hkept : ∀ n : Node, (if n.rel = rel then n.add l else n).rel = n.rel := by
      intro n
      split
      · exact Node.add_rel l n
      · rfl
    rw [List.foldl_cons, hcredit, ih hnodup]
    · rw [List.map_map]
      refine List.map_congr_left (fun n _ => ?_)
      show (if (if n.rel = rel then n.add l else n).rel ∈ rels then _ else _) = _
      rw [hkept n]
      by_cases hrel : n.rel = rel
      · rw [if_neg (by rw [hrel]; exact hfresh), if_pos hrel, if_pos (by rw [hrel]; simp)]
      · simp [hrel]
    · intro rel' hrel'
      obtain ⟨n, hn, hn'⟩ := hmem rel' (List.mem_cons_of_mem rel hrel')
      exact ⟨_, List.mem_map_of_mem hn, (hkept n).trans hn'⟩

theorem foldl_ensureNode {nodes : List Node} {children : List (String × ℕ)}
    (hnodup : (children.map (·.1)).Nodup)
    (hfresh : ∀ c ∈ children, ∀ n ∈ nodes, n.rel ≠ c.1) :
    children.foldl (fun nodes c => ensureNode c.1 c.2 nodes) nodes
      = nodes ++ children.map fun c => { rel := c.1, depth := c.2 } := by
  induction children generalizing nodes with
  | nil => simp
  | cons c children ih =>
    rw [List.map_cons, List.nodup_cons] at hnodup
    rw [List.foldl_cons, ensureNode_of_notMem (hfresh c List.mem_cons_self), ih hnodup.2]
    · simp
    · intro c' hc' n hn
      rcases List.mem_append.mp hn with hn | hn
      · exact hfresh c' (List.mem_cons_of_mem c hc') n hn
      · obtain rfl := List.mem_singleton.mp hn
        intro heq
        exact hnodup.1 (List.mem_map.mpr ⟨c', hc', heq.symm⟩)

namespace Share

variable {share : Share} {r : Root} {done queue : List (List String)} {p x : List String}

theorem properPath_of_mem_order (h : p ∈ share.order r) : ProperPath p := by
  induction p using List.reverseRecOn with
  | nil => exact fun d hd => absurd hd List.not_mem_nil
  | append_singleton p name ih =>
    obtain ⟨hp, hkid⟩ := mem_kids_of_mem_order h
    obtain ⟨-, -, name', hname, heq⟩ := mem_kids.mp hkid
    obtain ⟨-, heq⟩ := List.append_inj' heq rfl
    obtain rfl := (List.cons.inj heq).1
    refine (ih hp).append ?_
    cases hg : share.cd (r.full p) with
    | none =>
      rw [own, hg] at hname
      exact absurd hname List.not_mem_nil
    | some g =>
      rw [own_eq hg] at hname
      exact Forest.properName_of_mem (share.proper hg) (List.mem_filter.mp hname).1

theorem nodeOf_skip (h : r.listable x = false) (p : List String) :
    share.nodeOf r (done ++ [x]) p = share.nodeOf r done p := by
  simp [nodeOf, List.filter_append, h]

theorem nodeOf_listed (h : r.listable x = true) (p : List String) :
    share.nodeOf r (done ++ [x]) p
      = if p <+: x then (share.nodeOf r done p).add (share.own r x) else share.nodeOf r done p := by
  split
  · rename_i hprefix
    simp [nodeOf, Node.add, List.filter_append, h, List.isPrefixOf_iff_prefix.mpr hprefix]
  · rename_i hprefix
    have hnot : p.isPrefixOf x = false :=
      Bool.eq_false_iff.mpr (fun h => hprefix (List.isPrefixOf_iff_prefix.mp h))
    simp [nodeOf, List.filter_append, h, hnot]

section

variable (hbetween : BreadthFirst.Between (share.kids r) [] done queue)

include hbetween in
/-- The folders that one is in have been taken. -/
theorem mem_done_of_leading {a : List String} (hp : p ∈ done ++ queue) (ha : a <+: p) :
    a = p ∨ a ∈ done := by
  induction p using List.reverseRecOn with
  | nil => exact Or.inl (List.prefix_nil.mp ha)
  | append_singleton p name ih =>
    rcases List.prefix_concat_iff.mp ha with rfl | ha
    · exact Or.inl rfl
    · right
      rcases hbetween.parent hp with hnil | ⟨p', hp', hkid⟩
      · exact absurd hnil (by simp)
      · obtain ⟨-, -, name', -, heq⟩ := mem_kids.mp hkid
        obtain ⟨rfl, -⟩ := List.append_inj' heq rfl
        rcases ih (List.mem_append_left queue hp') ha with rfl | hdone
        · exact hp'
        · exact hdone

variable (hdepth : r.depth ≤ 6)

include hbetween hdepth in
theorem leading_order : done ++ queue <+: share.order r := hbetween.leading (level_seven hdepth)

include hbetween hdepth in
theorem nodup_between : (done ++ queue).Nodup :=
  nodup_order.sublist (leading_order hbetween hdepth).sublist

end

/-- A listing is credited to the folder and to those it is in. -/
theorem foldl_credit_ancestors
    (hbetween : BreadthFirst.Between (share.kids r) [] done (x :: queue)) (hdepth : r.depth ≤ 6)
    (hlistable : r.listable x = true) :
    (ancestors (relOf x).length (relOf x).toList).foldl (credit (share.own r x))
        ((done ++ x :: queue).map (share.nodeOf r done))
      = (done ++ x :: queue).map (share.nodeOf r (done ++ [x])) := by
  have hproper : ∀ p ∈ done ++ x :: queue, PlainPath p := fun p hp =>
    (properPath_of_mem_order ((leading_order hbetween hdepth).subset hp)).plain
  have hx : x ∈ done ++ x :: queue := List.mem_append_right done List.mem_cons_self
  have hleading : ∀ a, a <+: x → a ∈ done ++ x :: queue := by
    intro a ha
    rcases mem_done_of_leading hbetween hx ha with rfl | hdone
    · exact hx
    · exact List.mem_append_left _ hdone
  have hrel : ∀ p ∈ done ++ x :: queue,
      relOf p ∈ x.inits.reverse.map relOf ↔ p <+: x := by
    intro p hp
    rw [List.mem_map]
    constructor
    · rintro ⟨a, ha, heq⟩
      rw [List.mem_reverse, List.mem_inits] at ha
      rw [← relOf_inj (hproper a (hleading a ha)) (hproper p hp) heq]
      exact ha
    · intro hpx
      exact ⟨p, by rw [List.mem_reverse, List.mem_inits]; exact hpx, rfl⟩
  rw [ancestors_relOf (hproper x hx) le_rfl, foldl_credit]
  · rw [List.map_map]
    refine List.map_congr_left (fun p hp => ?_)
    rw [nodeOf_listed hlistable p]
    show (if relOf p ∈ x.inits.reverse.map relOf then _ else _) = _
    simp only [hrel p hp]
  · refine List.Nodup.map_on ?_ (List.nodup_reverse.mpr (nodup_inits x))
    intro a ha b hb heq
    rw [List.mem_reverse, List.mem_inits] at ha hb
    exact relOf_inj (hproper a (hleading a ha)) (hproper b (hleading b hb)) heq
  · intro rel hmem
    obtain ⟨a, ha, rfl⟩ := List.mem_map.mp hmem
    rw [List.mem_reverse, List.mem_inits] at ha
    exact ⟨_, List.mem_map_of_mem (hleading a ha), rfl⟩

/-- The listing has fewer folders than the walk takes from one. -/
def FewFolders (share : Share) (r : Root) (p : List String) : Prop :=
  (p.length : ℚ) < r.depth → (share.own r p).dirs.length ≤ maxSubdirsPerDir

theorem properPath_of_mem_kids (hdepth : r.depth ≤ 6) (hx : x ∈ share.order r)
    (h : p ∈ share.kids r x) : ProperPath p :=
  properPath_of_mem_order (mem_order_of_mem_kids hdepth hx h)

theorem children_eq {w : Walk} (hdepth : w.root.depth ≤ 6) (hx : x ∈ share.order w.root)
    (hlistable : w.root.listable x = true) (hfew : share.FewFolders w.root x) :
    w.children (relOf x) x.length (share.own w.root x)
      = (share.kids w.root x).map fun c => (relOf c, c.length) := by
  rw [Walk.children, kids]
  by_cases hlt : (x.length : ℚ) < w.root.depth
  · rw [if_pos hlt, if_pos ⟨hlistable, hlt⟩, List.take_of_length_le (hfew hlt), List.map_map]
    refine List.map_congr_left (fun name hname => ?_)
    have hkid : x ++ [name] ∈ share.kids w.root x :=
      mem_kids.mpr ⟨hlistable, hlt, name, hname, rfl⟩
    have hne : name ≠ "" := (properPath_of_mem_kids hdepth hx hkid).last.1
    show _ = (relOf (x ++ [name]), (x ++ [name]).length)
    rw [relOf_concat, List.length_append, List.length_singleton, joinPath]
    simp only [if_neg hne]
  · rw [if_neg hlt, if_neg (fun h => hlt h.2), List.map_nil]

/-- The folders in it are new. -/
theorem foldl_ensureNode_kids
    (hbetween : BreadthFirst.Between (share.kids r) [] done (x :: queue)) (hdepth : r.depth ≤ 6) :
    ((share.kids r x).map fun c => (relOf c, c.length)).foldl
        (fun nodes c => ensureNode c.1 c.2 nodes)
        ((done ++ x :: queue).map (share.nodeOf r (done ++ [x])))
      = ((done ++ [x]) ++ (queue ++ share.kids r x)).map (share.nodeOf r (done ++ [x])) := by
  have hstep := hbetween.step
  have hnodup := nodup_between hstep hdepth
  have hproper : ∀ p ∈ (done ++ [x]) ++ (queue ++ share.kids r x), PlainPath p := fun p hp =>
    (properPath_of_mem_order ((leading_order hstep hdepth).subset hp)).plain
  have hkids : ∀ c ∈ share.kids r x, c ∈ (done ++ [x]) ++ (queue ++ share.kids r x) := fun c hc =>
    List.mem_append_right _ (List.mem_append_right _ hc)
  have hsplit : done ++ x :: queue = (done ++ [x]) ++ queue := by simp
  rw [← List.append_assoc] at hnodup
  have hdisjoint := List.disjoint_of_nodup_append hnodup
  rw [hsplit, foldl_ensureNode]
  · conv_rhs => rw [← List.append_assoc, List.map_append]
    rw [List.map_map]
    congr 1
    refine List.map_congr_left (fun c hc => ?_)
    -- Nothing has been listed in a folder that was not taken.
    have hnone : (done ++ [x]).filter (fun d => r.listable d && c.isPrefixOf d) = [] := by
      refine List.filter_eq_nil_iff.mpr (fun d hd hcd => ?_)
      simp only [Bool.and_eq_true, List.isPrefixOf_iff_prefix] at hcd
      have hc' : c ∈ (done ++ [x]) ++ queue := by
        rcases mem_done_of_leading hstep (List.mem_append_left _ hd) hcd.2 with rfl | hdone
        · exact List.mem_append_left _ hd
        · exact List.mem_append_left _ hdone
      exact hdisjoint hc' hc
    show _ = share.nodeOf r (done ++ [x]) c
    rw [nodeOf, hnone]
    rfl
  · rw [List.map_map]
    refine List.Nodup.map_on (fun c hc d hd heq => ?_) (nodup_kids x)
    exact relOf_inj (hproper c (hkids c hc)) (hproper d (hkids d hd)) heq
  · intro child hchild n hn
    obtain ⟨c, hc, rfl⟩ := List.mem_map.mp hchild
    obtain ⟨p, hp, rfl⟩ := List.mem_map.mp hn
    intro heq
    have hp' : p ∈ (done ++ [x]) ++ (queue ++ share.kids r x) := by
      rw [← List.append_assoc]
      exact List.mem_append_left _ hp
    have heq' := relOf_inj (hproper p hp') (hproper c (hkids c hc)) heq
    rw [heq'] at hp
    exact hdisjoint hp hc

end Share

end Argus.Schedulers
