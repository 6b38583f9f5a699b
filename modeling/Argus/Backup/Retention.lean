import Argus.Backup.Tables
import Argus.Backup.Stamps
import Argus.Lib.Ranking

namespace Argus.Backup

open Calendar Ranking

/-!
# Backup — retention

`backupsToPrune` keeps, in each scope, the newest backups and the newest one of each of the
most recent days, weeks and months.

* `Protected` — this rule, in the words of the calendar.  Of backups with equal stamps the one
  that is listed first counts as newer.
* `kept_iff` — what the code keeps, by the position in the sorted list of the scope.
* `Retention` — the rule is met, pruning twice prunes nothing more, scopes do not influence
  each other and greater numbers prune less.
* `retention_iff` — all of this holds for a list and every policy if and only if the keys of
  the weeks single out the same backups as the ISO weeks do (`WeeksAgree`), as they do from the
  year `0100` on.
-/

structure BackupMeta where
  name : String
  createdAt : Stamp
  scope : BackupScope
deriving DecidableEq

structure BackupRetention where
  keepAll : ℕ
  keepConfig : ℕ
  keepData : ℕ
  daily : ℕ
  weekly : ℕ
  monthly : ℕ

/-- `keepLatest`. -/
def BackupRetention.keepLatest (policy : BackupRetention) : BackupScope → ℕ
  | .all => policy.keepAll
  | .config => policy.keepConfig
  | .data => policy.keepData

/-- `BACKUP_SCOPES`. -/
def backupScopes : List BackupScope := [.all, .config, .data]

/-! ### Selection -/

/-- The comparison of the sort: `a` does not have to move behind `b`. -/
def newestFirst (a b : BackupMeta) : Prop :=
  localeCompare b.createdAt.toISOString a.createdAt.toISOString ≠ .gt

instance : DecidableRel newestFirst := fun _ _ => inferInstanceAs (Decidable (_ ≠ _))

/-- The backups of a scope, newest first. -/
def sortedDesc (backups : List BackupMeta) (scope : BackupScope) : List BackupMeta :=
  (backups.filter (fun b => decide (b.scope = scope))).insertionSort newestFirst

/-- The loop that fills the map `newestPerBucket`: a bucket is set once, in the order the
    buckets are met. -/
def newestPerBucket (keyOf : Stamp → List Char) (sorted : List BackupMeta) :
    List (List Char × String) :=
  sorted.foldl (fun m b =>
    if m.any (fun e => e.1 == keyOf b.createdAt) then m
    else m ++ [(keyOf b.createdAt, b.name)]) []

/-- `protectBuckets`: the names it adds to the set `keep`. -/
def protectBuckets (sorted : List BackupMeta) (count : ℕ) (keyOf : Stamp → List Char) :
    List String :=
  if count ≤ 0 then [] else ((newestPerBucket keyOf sorted).take count).map Prod.snd

/-- The names that are kept for one scope. -/
def keepOf (backups : List BackupMeta) (policy : BackupRetention) (scope : BackupScope) :
    List String :=
  let list := sortedDesc backups scope
  (list.take (max 0 (policy.keepLatest scope))).map BackupMeta.name
    ++ protectBuckets list policy.daily dayKey
    ++ protectBuckets list policy.weekly weekKey
    ++ protectBuckets list policy.monthly monthKey

/-- `backupsToPrune`. -/
def backupsToPrune (backups : List BackupMeta) (policy : BackupRetention) : List String :=
  let keep := backupScopes.flatMap (keepOf backups policy)
  (backups.filter (fun b => !keep.contains b.name)).map BackupMeta.name

/-! ### The rule -/

/-- `a` is newer than `b`: created later, or at the same time and listed first. -/
def Newer (backups : List BackupMeta) (a b : BackupMeta) : Prop :=
  b.createdAt.time < a.createdAt.time ∨
    a.createdAt.time = b.createdAt.time ∧ [a, b].Sublist backups

instance (backups : List BackupMeta) : DecidableRel (Newer backups) :=
  fun _ _ => inferInstanceAs (Decidable (_ ∨ _))

/-- The backups of its scope that are newer than `b`. -/
def newer (backups : List BackupMeta) (b : BackupMeta) : List BackupMeta :=
  backups.filter (fun a => decide (a.scope = b.scope ∧ Newer backups a b))

/-- `b` is the newest backup of its bucket, and less than `count` later buckets hold a backup
    of its scope. -/
def NewestOfBucket (backups : List BackupMeta) (bucket : Stamp → ℤ) (count : ℕ)
    (b : BackupMeta) : Prop :=
  (∀ a ∈ newer backups b, bucket a.createdAt ≠ bucket b.createdAt) ∧
    ((backups.filter (fun a => decide (a.scope = b.scope ∧
      bucket b.createdAt < bucket a.createdAt))).map
        (fun a => bucket a.createdAt)).toFinset.card < count

/-- A rule of the policy protects `b`. -/
def Protected (backups : List BackupMeta) (policy : BackupRetention) (b : BackupMeta) : Prop :=
  (newer backups b).length < policy.keepLatest b.scope ∨
    NewestOfBucket backups Stamp.day policy.daily b ∨
    NewestOfBucket backups Stamp.week policy.weekly b ∨
    NewestOfBucket backups Stamp.month policy.monthly b

/-! ### The sorted list of a scope -/

theorem newestFirst_iff {a b : BackupMeta} :
    newestFirst a b ↔ b.createdAt.time ≤ a.createdAt.time := by
  rw [newestFirst, Ne, localeCompare_eq_gt_iff]
  omega

instance : Std.Total newestFirst where
  total a b := by
    simp only [newestFirst_iff]
    omega

instance : IsTrans BackupMeta newestFirst where
  trans a b c := by
    simp only [newestFirst_iff]
    omega

/-- `Newer` is the order of a stable sort. -/
theorem precedes_iff {backups : List BackupMeta} {a b : BackupMeta} :
    Precedes newestFirst backups a b ↔ Newer backups a b := by
  rw [Precedes, newestFirst_iff, newestFirst_iff, Newer]
  constructor
  · rintro ⟨hle, htie⟩
    by_cases hge : a.createdAt.time ≤ b.createdAt.time
    · exact Or.inr ⟨by omega, htie hge⟩
    · exact Or.inl (by omega)
  · rintro (hlt | ⟨heq, hsub⟩)
    · exact ⟨by omega, fun hge => by omega⟩
    · exact ⟨by omega, fun _ => hsub⟩

variable {backups : List BackupMeta} {policy : BackupRetention} {scope : BackupScope}

theorem mem_sortedDesc {b : BackupMeta} :
    b ∈ sortedDesc backups scope ↔ b ∈ backups ∧ b.scope = scope := by
  rw [sortedDesc, List.mem_insertionSort, List.mem_filter, decide_eq_true_eq]

theorem nodup_sortedDesc (hnodup : backups.Nodup) : (sortedDesc backups scope).Nodup :=
  (List.perm_insertionSort newestFirst _).nodup_iff.mpr (hnodup.sublist List.filter_sublist)

theorem pairwise_sortedDesc (hnodup : backups.Nodup) :
    (sortedDesc backups scope).Pairwise (Newer backups) := by
  have hsub : (backups.filter (fun b => decide (b.scope = scope))).Sublist backups :=
    List.filter_sublist
  refine (pairwise_insertionSort newestFirst (hnodup.sublist hsub)).imp (fun h => ?_)
  exact precedes_iff.mp (h.of_sublist hsub)

theorem Newer.asymm (hnodup : backups.Nodup) {a b : BackupMeta} (h : Newer backups a b) :
    ¬ Newer backups b a := by
  rw [← precedes_iff] at h ⊢
  exact h.asymm hnodup

/-- In front of a backup stand the newer ones of its scope. -/
theorem mem_ahead_sortedDesc (hnodup : backups.Nodup) {a b : BackupMeta} (hb : b ∈ backups) :
    a ∈ ahead (sortedDesc backups b.scope) b ↔ a ∈ newer backups b := by
  rw [mem_ahead_iff (fun _ _ => Newer.asymm hnodup) (pairwise_sortedDesc hnodup)
    (mem_sortedDesc.mpr ⟨hb, rfl⟩), mem_sortedDesc, newer, List.mem_filter, decide_eq_true_eq,
    and_assoc]

theorem length_ahead_sortedDesc (hnodup : backups.Nodup) {b : BackupMeta} (hb : b ∈ backups) :
    (ahead (sortedDesc backups b.scope) b).length = (newer backups b).length := by
  refine List.Perm.length_eq ((List.perm_ext_iff_of_nodup ?_ ?_).mpr
    (fun a => mem_ahead_sortedDesc hnodup hb))
  · exact (nodup_sortedDesc hnodup).sublist (List.takeWhile_sublist _)
  · exact hnodup.sublist List.filter_sublist

/-! ### What the code keeps -/

/-- The map lists the first backup of each bucket. -/
theorem newestPerBucket_eq (keyOf : Stamp → List Char) (sorted : List BackupMeta) :
    newestPerBucket keyOf sorted = (firsts (fun b => keyOf b.createdAt) sorted).map
      (fun b => (keyOf b.createdAt, b.name)) := by
  have hgen : ∀ (m : List (List Char × String)) (xs : List BackupMeta),
      xs.foldl (fun m b => if m.any (fun e => e.1 == keyOf b.createdAt) then m
        else m ++ [(keyOf b.createdAt, b.name)]) m
      = m ++ (firstsAfter (fun b => keyOf b.createdAt) (m.map Prod.fst) xs).map
        (fun b => (keyOf b.createdAt, b.name)) := by
    intro m xs
    induction xs generalizing m with
    | nil => simp [firstsAfter]
    | cons b xs ih =>
      have hany : m.any (fun e => e.1 == keyOf b.createdAt) = true ↔
          keyOf b.createdAt ∈ m.map Prod.fst := by
        simp [List.any_eq_true, List.mem_map]
      rw [List.foldl_cons, firstsAfter]
      by_cases hseen : keyOf b.createdAt ∈ m.map Prod.fst
      · rw [if_pos (hany.mpr hseen), if_pos hseen, ih]
      · rw [if_neg (fun h => hseen (hany.mp h)), if_neg hseen, ih]
        simp
  exact hgen [] sorted

/-- Backups with different names. -/
def DistinctNames (backups : List BackupMeta) : Prop := (backups.map BackupMeta.name).Nodup

theorem DistinctNames.nodup (h : DistinctNames backups) : backups.Nodup := List.Nodup.of_map _ h

theorem DistinctNames.eq_of_name (h : DistinctNames backups) {a b : BackupMeta}
    (ha : a ∈ backups) (hb : b ∈ backups) (hname : a.name = b.name) : a = b :=
  List.inj_on_of_nodup_map h ha hb hname

/-- The backups whose names a rule adds are those that are among its first ones. -/
theorem name_mem_map {xs : List BackupMeta} (h : DistinctNames backups) (hsub : xs ⊆ backups)
    {b : BackupMeta} (hb : b ∈ backups) : b.name ∈ xs.map BackupMeta.name ↔ b ∈ xs := by
  refine ⟨fun hmem => ?_, List.mem_map_of_mem⟩
  obtain ⟨a, ha, hname⟩ := List.mem_map.mp hmem
  rwa [← h.eq_of_name (hsub ha) hb hname]

theorem mem_protectBuckets (h : DistinctNames backups) (count : ℕ) (keyOf : Stamp → List Char)
    {b : BackupMeta} (hb : b ∈ backups) :
    b.name ∈ protectBuckets (sortedDesc backups scope) count keyOf ↔
      b ∈ sortedDesc backups scope ∧
        Bucketed (fun a => keyOf a.createdAt) count (sortedDesc backups scope) b := by
  have hnames : protectBuckets (sortedDesc backups scope) count keyOf
      = ((firsts (fun a => keyOf a.createdAt) (sortedDesc backups scope)).take count).map
        BackupMeta.name := by
    rw [protectBuckets, newestPerBucket_eq]
    split
    · rename_i hzero
      rw [Nat.le_zero.mp hzero]
      rfl
    · rw [← List.map_take, List.map_map]
      rfl
  have hsub : (firsts (fun a => keyOf a.createdAt) (sortedDesc backups scope)).take count
      ⊆ sortedDesc backups scope :=
    List.Subset.trans (List.take_subset _ _) firstsAfter_sublist.subset
  rw [hnames, name_mem_map h (fun a ha => (mem_sortedDesc.mp (hsub ha)).1) hb]
  constructor
  · intro hmem
    exact ⟨hsub hmem, (mem_take_firsts (hsub hmem) count).mp hmem⟩
  · rintro ⟨hsorted, hbucketed⟩
    exact (mem_take_firsts hsorted count).mpr hbucketed

/-- A rule of the code keeps `b`, by its place in the sorted list of its scope. -/
def Kept (backups : List BackupMeta) (policy : BackupRetention) (b : BackupMeta) : Prop :=
  (ahead (sortedDesc backups b.scope) b).length < policy.keepLatest b.scope ∨
    Bucketed (fun a => dayKey a.createdAt) policy.daily (sortedDesc backups b.scope) b ∨
    Bucketed (fun a => weekKey a.createdAt) policy.weekly (sortedDesc backups b.scope) b ∨
    Bucketed (fun a => monthKey a.createdAt) policy.monthly (sortedDesc backups b.scope) b

theorem mem_keepOf (h : DistinctNames backups) {b : BackupMeta} (hb : b ∈ backups) :
    b.name ∈ keepOf backups policy scope ↔ b.scope = scope ∧ Kept backups policy b := by
  have hlatest : b.name ∈ ((sortedDesc backups scope).take
      (max 0 (policy.keepLatest scope))).map BackupMeta.name ↔
      b ∈ sortedDesc backups scope ∧
        (ahead (sortedDesc backups scope) b).length < policy.keepLatest scope := by
    have hsub : (sortedDesc backups scope).take (max 0 (policy.keepLatest scope)) ⊆ backups :=
      fun a ha => (mem_sortedDesc.mp (List.mem_of_mem_take ha)).1
    rw [name_mem_map h hsub hb, Nat.zero_max]
    constructor
    · intro hmem
      exact ⟨List.mem_of_mem_take hmem, (mem_take_iff (List.mem_of_mem_take hmem) _).mp hmem⟩
    · rintro ⟨hsorted, hrank⟩
      exact (mem_take_iff hsorted _).mpr hrank
  simp only [keepOf, List.mem_append, hlatest, mem_protectBuckets h _ _ hb, mem_sortedDesc, hb,
    true_and, or_assoc, ← and_or_left]
  constructor
  · rintro ⟨rfl, hkept⟩
    exact ⟨rfl, hkept⟩
  · rintro ⟨rfl, hkept⟩
    exact ⟨rfl, hkept⟩

/-- The names that are pruned are those of the backups that no rule keeps. -/
theorem mem_backupsToPrune (h : DistinctNames backups) (name : String) :
    name ∈ backupsToPrune backups policy ↔
      ∃ b ∈ backups, b.name = name ∧ ¬ Kept backups policy b := by
  have hkeep : ∀ b ∈ backups, b.name ∈ backupScopes.flatMap (keepOf backups policy) ↔
      Kept backups policy b := by
    intro b hb
    simp only [List.mem_flatMap, mem_keepOf h hb]
    constructor
    · rintro ⟨scope, -, -, hkept⟩
      exact hkept
    · intro hkept
      have hscope : b.scope ∈ backupScopes := by cases b.scope <;> decide
      exact ⟨b.scope, hscope, rfl, hkept⟩
  simp only [backupsToPrune, List.mem_map, List.mem_filter, Bool.not_eq_true',
    List.contains_eq_mem, decide_eq_false_iff_not]
  constructor
  · rintro ⟨b, ⟨hb, hnot⟩, hname⟩
    exact ⟨b, hb, hname, fun hkept => hnot ((hkeep b hb).mpr hkept)⟩
  · rintro ⟨b, hb, hname, hnot⟩
    exact ⟨b, ⟨hb, fun hmem => hnot ((hkeep b hb).mp hmem)⟩, hname⟩

theorem name_mem_backupsToPrune (h : DistinctNames backups) {b : BackupMeta} (hb : b ∈ backups) :
    b.name ∈ backupsToPrune backups policy ↔ ¬ Kept backups policy b := by
  rw [mem_backupsToPrune h]
  constructor
  · rintro ⟨a, ha, hname, hnot⟩
    rwa [← h.eq_of_name ha hb hname]
  · exact fun hnot => ⟨b, hb, rfl, hnot⟩

/-! ### Pruning again, other scopes, greater numbers -/

/-- The backups that pruning leaves. -/
def survivors (backups : List BackupMeta) (policy : BackupRetention) : List BackupMeta :=
  backups.filter (fun b => !(backupsToPrune backups policy).contains b.name)

theorem mem_survivors (h : DistinctNames backups) {b : BackupMeta} :
    b ∈ survivors backups policy ↔ b ∈ backups ∧ Kept backups policy b := by
  rw [survivors, List.mem_filter]
  refine and_congr_right (fun hb => ?_)
  rw [Bool.not_eq_true', List.contains_eq_mem, decide_eq_false_iff_not,
    name_mem_backupsToPrune h hb, not_not]

theorem sortedDesc_filter_sublist (hnodup : backups.Nodup) (p : BackupMeta → Bool) :
    (sortedDesc (backups.filter p) scope).Sublist (sortedDesc backups scope) := by
  have hcomm : (backups.filter p).filter (fun b => decide (b.scope = scope))
      = (backups.filter (fun b => decide (b.scope = scope))).filter p := by
    rw [List.filter_filter, List.filter_filter]
    simp only [Bool.and_comm]
  rw [sortedDesc, sortedDesc, hcomm,
    insertionSort_filter newestFirst (hnodup.sublist List.filter_sublist)]
  exact List.filter_sublist

/-- A kept backup stays kept when others go. -/
theorem Kept.of_filter (hnodup : backups.Nodup) {p : BackupMeta → Bool} {b : BackupMeta}
    (hkept : Kept backups policy b) (hb : b ∈ backups.filter p) :
    Kept (backups.filter p) policy b := by
  have hsub : (sortedDesc (backups.filter p) b.scope).Sublist (sortedDesc backups b.scope) :=
    sortedDesc_filter_sublist hnodup p
  have hsorted : (sortedDesc backups b.scope).Nodup := nodup_sortedDesc hnodup
  have hmem : b ∈ sortedDesc (backups.filter p) b.scope := mem_sortedDesc.mpr ⟨hb, rfl⟩
  rcases hkept with hrank | hday | hweek | hmonth
  · exact Or.inl (lt_of_le_of_lt (ahead_sublist hsub hsorted hmem).length_le hrank)
  · exact Or.inr (Or.inl (hday.of_sublist hsub hsorted hmem))
  · exact Or.inr (Or.inr (Or.inl (hweek.of_sublist hsub hsorted hmem)))
  · exact Or.inr (Or.inr (Or.inr (hmonth.of_sublist hsub hsorted hmem)))

/-- Pruning what pruning has left prunes nothing. -/
theorem backupsToPrune_survivors (h : DistinctNames backups) :
    backupsToPrune (survivors backups policy) policy = [] := by
  have hnames : DistinctNames (survivors backups policy) :=
    h.sublist (List.filter_sublist.map BackupMeta.name)
  rw [List.eq_nil_iff_forall_not_mem]
  intro name hname
  obtain ⟨b, hb, -, hnot⟩ := (mem_backupsToPrune hnames name).mp hname
  exact hnot (((mem_survivors h).mp hb).2.of_filter h.nodup hb)

/-- The backups of a scope are kept or pruned by themselves. -/
theorem kept_congr {backups' : List BackupMeta}
    (hscope : backups'.filter (fun b => decide (b.scope = scope))
      = backups.filter (fun b => decide (b.scope = scope))) {b : BackupMeta}
    (hb : b.scope = scope) : Kept backups' policy b ↔ Kept backups policy b := by
  have hsorted : sortedDesc backups' b.scope = sortedDesc backups b.scope := by
    rw [sortedDesc, sortedDesc, hb, hscope]
  rw [Kept, Kept, hsorted]

/-- No number of the first policy is greater than that of the second. -/
structure BackupRetention.Le (policy policy' : BackupRetention) : Prop where
  keepLatest : ∀ scope, policy.keepLatest scope ≤ policy'.keepLatest scope
  daily : policy.daily ≤ policy'.daily
  weekly : policy.weekly ≤ policy'.weekly
  monthly : policy.monthly ≤ policy'.monthly

theorem Kept.mono {policy' : BackupRetention} (hle : policy.Le policy') {b : BackupMeta}
    (hkept : Kept backups policy b) : Kept backups policy' b := by
  rcases hkept with hrank | hday | hweek | hmonth
  · exact Or.inl (lt_of_lt_of_le hrank (hle.keepLatest b.scope))
  · exact Or.inr (Or.inl (hday.mono hle.daily))
  · exact Or.inr (Or.inr (Or.inl (hweek.mono hle.weekly)))
  · exact Or.inr (Or.inr (Or.inr (hmonth.mono hle.monthly)))

/-! ### The code and the calendar -/

/-- The newest of its bucket, among backups whose buckets follow the time. -/
theorem bucketed_iff (hnodup : backups.Nodup) {bucket : Stamp → ℤ}
    (hmono : ∀ s t : Stamp, s.time ≤ t.time → bucket s ≤ bucket t) (count : ℕ)
    {b : BackupMeta} (hb : b ∈ backups) :
    Bucketed (fun a => bucket a.createdAt) count (sortedDesc backups b.scope) b ↔
      NewestOfBucket backups bucket count b := by
  have hfirst : bucket b.createdAt ∉ (ahead (sortedDesc backups b.scope) b).map
      (fun a => bucket a.createdAt) ↔
      ∀ a ∈ newer backups b, bucket a.createdAt ≠ bucket b.createdAt := by
    simp only [List.mem_map, mem_ahead_sortedDesc hnodup hb, not_exists, not_and, ne_eq]
  rw [Bucketed, NewestOfBucket, hfirst]
  refine and_congr_right (fun hnewest => ?_)
  -- the buckets in front are the later ones
  have hbuckets : ((ahead (sortedDesc backups b.scope) b).map
      (fun a => bucket a.createdAt)).toFinset
      = ((backups.filter (fun a => decide (a.scope = b.scope ∧
        bucket b.createdAt < bucket a.createdAt))).map (fun a => bucket a.createdAt)).toFinset := by
    ext k
    simp only [List.mem_toFinset, List.mem_map, mem_ahead_sortedDesc hnodup hb, List.mem_filter,
      decide_eq_true_eq]
    constructor
    · rintro ⟨a, ha, rfl⟩
      have hne := hnewest a ha
      rw [newer, List.mem_filter, decide_eq_true_eq] at ha
      have htime : b.createdAt.time ≤ a.createdAt.time := by
        rcases ha.2.2 with hlt | ⟨heq, -⟩ <;> omega
      have hle := hmono _ _ htime
      exact ⟨a, ⟨ha.1, ha.2.1, by omega⟩, rfl⟩
    · rintro ⟨a, ⟨ha, hscope, hlt⟩, rfl⟩
      have htime : b.createdAt.time < a.createdAt.time := by
        by_contra hnot
        have hle := hmono a.createdAt b.createdAt (by omega)
        omega
      refine ⟨a, ?_, rfl⟩
      rw [newer, List.mem_filter, decide_eq_true_eq]
      exact ⟨ha, hscope, Or.inl htime⟩
  rw [hbuckets]

/-- The keys and the buckets single out the same backups: a newer backup of the scope has the
    key of `b` if and only if one lies in the bucket of `b`. -/
def Agree (backups : List BackupMeta) (keyOf : Stamp → List Char) (bucket : Stamp → ℤ) : Prop :=
  ∀ b ∈ backups, (∃ a ∈ newer backups b, keyOf a.createdAt = keyOf b.createdAt) ↔
    ∃ a ∈ newer backups b, bucket a.createdAt = bucket b.createdAt

/-- The week keys single out the backups that the ISO weeks do. -/
def WeeksAgree (backups : List BackupMeta) : Prop := Agree backups weekKey Stamp.week

theorem keyed_iff (hnodup : backups.Nodup) {keyOf : Stamp → List Char} {bucket : Stamp → ℤ}
    (hmono : ∀ s t : Stamp, s.time ≤ t.time → bucket s ≤ bucket t)
    (hagree : Agree backups keyOf bucket) (count : ℕ) {b : BackupMeta} (hb : b ∈ backups) :
    Bucketed (fun a => keyOf a.createdAt) count (sortedDesc backups b.scope) b ↔
      NewestOfBucket backups bucket count b := by
  rw [← bucketed_iff hnodup hmono count hb]
  refine bucketed_congr (nodup_sortedDesc hnodup) (fun a ha => ?_)
    (mem_sortedDesc.mpr ⟨hb, rfl⟩) count
  obtain ⟨hmem, hscope⟩ := mem_sortedDesc.mp ha
  simp only [List.mem_map, ← hscope, mem_ahead_sortedDesc hnodup hmem]
  exact hagree a hmem

theorem agree_of_eq_iff {keyOf : Stamp → List Char} {bucket : Stamp → ℤ}
    (h : ∀ a ∈ backups, ∀ b ∈ backups,
      keyOf a.createdAt = keyOf b.createdAt ↔ bucket a.createdAt = bucket b.createdAt) :
    Agree backups keyOf bucket := by
  intro b hb
  refine exists_congr (fun a => and_congr_right (fun ha => ?_))
  exact h a (List.mem_filter.mp ha).1 b hb

/-- From the year `0100` on the weeks agree. -/
theorem weeksAgree_of_year (h : ∀ b ∈ backups, 100 ≤ b.createdAt.date.year) :
    WeeksAgree backups := by
  refine agree_of_eq_iff (fun a ha b hb => ?_)
  rw [weekKey_eq_iff, utcDay_eq (h a ha), utcDay_eq (h b hb)]
  rfl

/-- What the code keeps is what the policy protects, where the weeks agree or do not count. -/
theorem kept_iff (hnodup : backups.Nodup) (hweeks : policy.weekly = 0 ∨ WeeksAgree backups)
    {b : BackupMeta} (hb : b ∈ backups) :
    Kept backups policy b ↔ Protected backups policy b := by
  have hday := keyed_iff hnodup (fun _ _ => day_mono)
    (agree_of_eq_iff (fun a _ b _ => dayKey_eq_iff a.createdAt b.createdAt)) policy.daily hb
  have hmonth := keyed_iff hnodup (fun _ _ => month_mono)
    (agree_of_eq_iff (fun a _ b _ => monthKey_eq_iff a.createdAt b.createdAt)) policy.monthly hb
  have hweek : Bucketed (fun a => weekKey a.createdAt) policy.weekly
      (sortedDesc backups b.scope) b ↔ NewestOfBucket backups Stamp.week policy.weekly b := by
    rcases hweeks with hzero | hagree
    · rw [hzero, Bucketed, NewestOfBucket]
      simp
    · exact keyed_iff hnodup (fun _ _ => week_mono) hagree policy.weekly hb
  rw [Kept, Protected, length_ahead_sortedDesc hnodup hb, hday, hweek, hmonth]

/-- What retention is to do with a list of backups. -/
structure Retention (backups : List BackupMeta) (policy : BackupRetention) : Prop where
  selects : ∀ name, name ∈ backupsToPrune backups policy ↔
    ∃ b ∈ backups, b.name = name ∧ ¬ Protected backups policy b
  idempotent : backupsToPrune (survivors backups policy) policy = []
  independent : ∀ backups' scope, DistinctNames backups' →
    backups'.filter (fun b => decide (b.scope = scope))
      = backups.filter (fun b => decide (b.scope = scope)) →
    ∀ b ∈ backups, b.scope = scope →
      (b.name ∈ backupsToPrune backups' policy ↔ b.name ∈ backupsToPrune backups policy)
  monotone : ∀ policy', policy.Le policy' →
    ∀ name ∈ backupsToPrune backups policy', name ∈ backupsToPrune backups policy

/-- Only the selection depends on the calendar. -/
theorem retention_of_kept_iff (h : DistinctNames backups)
    (hkept : ∀ b ∈ backups, Kept backups policy b ↔ Protected backups policy b) :
    Retention backups policy where
  selects := by
    intro name
    rw [mem_backupsToPrune h]
    refine exists_congr (fun b => and_congr_right (fun hb => and_congr_right (fun _ => ?_)))
    rw [hkept b hb]
  idempotent := backupsToPrune_survivors h
  independent := by
    intro backups' scope h' hscope b hb hbscope
    have hb' : b ∈ backups' := by
      have hmem : b ∈ backups.filter (fun b => decide (b.scope = scope)) :=
        List.mem_filter.mpr ⟨hb, decide_eq_true hbscope⟩
      rw [← hscope] at hmem
      exact (List.mem_filter.mp hmem).1
    rw [name_mem_backupsToPrune h' hb', name_mem_backupsToPrune h hb, kept_congr hscope hbscope]
  monotone := by
    intro policy' hle name hname
    obtain ⟨b, hb, rfl, hnot⟩ := (mem_backupsToPrune h name).mp hname
    exact (mem_backupsToPrune h _).mpr ⟨b, hb, rfl, fun hkept => hnot (hkept.mono hle)⟩

/-- Under a policy of weeks only, the code keeps the first backup of every week key. -/
theorem kept_weekly {weekly : ℕ} {b : BackupMeta} :
    Kept backups ⟨0, 0, 0, 0, weekly, 0⟩ b ↔
      Bucketed (fun a => weekKey a.createdAt) weekly (sortedDesc backups b.scope) b := by
  have hnone : ¬ (ahead (sortedDesc backups b.scope) b).length
      < BackupRetention.keepLatest ⟨0, 0, 0, 0, weekly, 0⟩ b.scope := by
    cases b.scope <;> exact Nat.not_lt_zero _
  simp [Kept, hnone, Bucketed]

theorem protected_weekly {weekly : ℕ} {b : BackupMeta} :
    Protected backups ⟨0, 0, 0, 0, weekly, 0⟩ b ↔
      NewestOfBucket backups Stamp.week weekly b := by
  have hnone : ¬ (newer backups b).length
      < BackupRetention.keepLatest ⟨0, 0, 0, 0, weekly, 0⟩ b.scope := by
    cases b.scope <;> exact Nat.not_lt_zero _
  simp [Protected, hnone, NewestOfBucket]

/-- Under a policy that has room for every week, the code is right only if the weeks agree. -/
theorem weeksAgree_of_retention (h : DistinctNames backups)
    (hweekly : Retention backups ⟨0, 0, 0, 0, backups.length + 1, 0⟩) : WeeksAgree backups := by
  intro b hb
  have hkept : Kept backups ⟨0, 0, 0, 0, backups.length + 1, 0⟩ b ↔
      Protected backups ⟨0, 0, 0, 0, backups.length + 1, 0⟩ b := by
    rw [← not_iff_not, ← name_mem_backupsToPrune h hb, hweekly.selects]
    constructor
    · rintro ⟨a, ha, hname, hnot⟩
      rwa [← h.eq_of_name ha hb hname]
    · exact fun hnot => ⟨b, hb, rfl, hnot⟩
  have hsorted : (sortedDesc backups b.scope).length < backups.length + 1 := by
    have hle := List.length_filter_le (fun a => decide (a.scope = b.scope)) backups
    rw [sortedDesc, List.length_insertionSort]
    omega
  have hlater : ((backups.filter (fun a => decide (a.scope = b.scope ∧
      b.createdAt.week < a.createdAt.week))).map (fun a => a.createdAt.week)).toFinset.card
      < backups.length + 1 := by
    have hcard := List.toFinset_card_le ((backups.filter (fun a => decide (a.scope = b.scope ∧
      b.createdAt.week < a.createdAt.week))).map (fun a => a.createdAt.week))
    have hle := List.length_filter_le (fun a => decide (a.scope = b.scope ∧
      b.createdAt.week < a.createdAt.week)) backups
    rw [List.length_map] at hcard
    omega
  rw [kept_weekly, protected_weekly, bucketed_of_length_lt hsorted, NewestOfBucket,
    and_iff_left hlater] at hkept
  rw [← not_iff_not]
  simpa only [List.mem_map, mem_ahead_sortedDesc h.nodup hb, not_exists, not_and, ne_eq] using hkept

/-- **Retention.**  For backups of different names the code does what it is to do under every
    policy if and only if the week keys agree with the ISO weeks; it does so in any case under
    a policy without weeks, and for stamps from the year `0100` on. -/
theorem retention_iff (h : DistinctNames backups) :
    ((∀ policy, Retention backups policy) ↔ WeeksAgree backups) ∧
      (∀ policy, policy.weekly = 0 → Retention backups policy) ∧
      ((∀ b ∈ backups, 100 ≤ b.createdAt.date.year) → WeeksAgree backups) := by
  refine ⟨⟨fun hall => weeksAgree_of_retention h (hall _), fun hagree policy => ?_⟩,
    fun policy hzero => ?_, weeksAgree_of_year⟩
  · exact retention_of_kept_iff h (fun b hb => kept_iff h.nodup (Or.inr hagree) hb)
  · exact retention_of_kept_iff h (fun b hb => kept_iff h.nodup (Or.inl hzero) hb)

def firstOf2026 : BackupMeta :=
  ⟨"argus-backup-all-2026-01-01.json",
    ⟨⟨2026, ⟨0, by decide⟩, 1, by decide, by decide, by decide⟩, 0, by decide⟩, .all⟩

def secondOf2026 : BackupMeta :=
  ⟨"argus-backup-all-2026-01-02.json",
    ⟨⟨2026, ⟨0, by decide⟩, 2, by decide, by decide, by decide⟩, 0, by decide⟩, .all⟩

/-- `DEFAULT_BACKUP_RETENTION`. -/
def defaultBackupRetention : BackupRetention := ⟨3, 3, 3, 10, 5, 3⟩

/-- Two backups of one week of 2026. -/
theorem retention_2026 : Retention [firstOf2026, secondOf2026] defaultBackupRetention := by
  have hnames : DistinctNames [firstOf2026, secondOf2026] := by
    unfold DistinctNames
    decide
  obtain ⟨hiff, -, hyear⟩ := retention_iff hnames
  exact hiff.mpr (hyear (by decide)) defaultBackupRetention

def saturday : BackupMeta :=
  ⟨"argus-backup-all-0050-01-01.json",
    ⟨⟨50, ⟨0, by decide⟩, 1, by decide, by decide, by decide⟩, 0, by decide⟩, .all⟩

def sunday : BackupMeta :=
  ⟨"argus-backup-all-0050-01-02.json",
    ⟨⟨50, ⟨0, by decide⟩, 2, by decide, by decide, by decide⟩, 0, by decide⟩, .all⟩

/-- Saturday and Sunday, the first two days of the year 50, lie in one week; `weekKey` takes
    them for the first two days of 1950, which lie in two. -/
theorem retention_first_century :
    ¬ ∀ (backups : List BackupMeta) (policy : BackupRetention), DistinctNames backups →
      Retention backups policy := by
  intro hall
  have hnames : DistinctNames [saturday, sunday] := by
    unfold DistinctNames
    decide
  have hselects := (hall [saturday, sunday] ⟨0, 0, 0, 0, 2, 0⟩ hnames).selects saturday.name
  have hnot : ¬ Protected [saturday, sunday] ⟨0, 0, 0, 0, 2, 0⟩ saturday := by
    unfold Protected NewestOfBucket
    decide +kernel
  have hpruned := hselects.mpr ⟨saturday, by simp, rfl, hnot⟩
  exact absurd hpruned (by decide +kernel)

end Argus.Backup
