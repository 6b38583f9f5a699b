import Argus.Core.Rollup
import Argus.Lib.Grouping
import Argus.Lib.JsNumber
import Argus.Lib.JsText

namespace Argus.Reports

open Core (HealthStatus HealthUnit rollup severity)

/-!
# The public status page

What `buildPublicStatus` of `public-status.ts` shows of the configured items: each in its group,
every group with its status, and the status of them all.

* `Resolved` — what is found out about one item (`resolveItem`); any outcome is possible.
* `buildPublicStatus` — the page, which rolls the statuses up twice.
* `WorstOfGroups` — the overall status is the worst of the groups', and hangs on nothing else.
-/

/-! ### The page -/

inductive PublicItemKind
  | agent | monitor
deriving DecidableEq, Repr

structure PublicItemConfig where
  kind : PublicItemKind
  refId : String
  label : String
  group : Option String
deriving DecidableEq, Repr

inductive PublicNoticeLevel
  | info | maintenance | incident
deriving DecidableEq, Repr

structure PublicNotice where
  level : PublicNoticeLevel
  message : String
deriving DecidableEq, Repr

/-- The fields that the page shows as they are or goes by. -/
structure PublicConfigDTO where
  enabled : Bool
  title : String
  description : Option String
  notice : Option PublicNotice
  items : List PublicItemConfig
deriving DecidableEq, Repr

/-- The status of an item, its uptime and its days. -/
structure Resolved where
  status : HealthStatus
  uptimePct : Option JsNumber
  history : Option (List (Option JsNumber))

structure PublicStatusItem where
  label : String
  status : HealthStatus
  uptimePct : Option JsNumber
  history : Option (List (Option JsNumber))

structure PublicStatusGroup where
  name : String
  status : HealthStatus
  items : List PublicStatusItem

structure PublicStatusDTO where
  title : String
  description : Option String
  notice : Option PublicNotice
  overall : HealthStatus
  groups : List PublicStatusGroup
  generatedAt : String

/-- What the loop over the items keeps: the groups, in the order of `order`, and the units. -/
structure Sections where
  groups : List (String × List PublicStatusItem)
  units : List HealthUnit

def publicItem (cfg : PublicItemConfig) (r : Resolved) : PublicStatusItem where
  label := cfg.label
  status := r.status
  uptimePct := r.uptimePct
  history := r.history

/-- `cfg.group?.trim() ?? ""`. -/
def groupName (cfg : PublicItemConfig) : String := (cfg.group.map JsText.trim).getD ""

def Sections.add (resolveItem : PublicItemConfig → Resolved) (s : Sections)
    (cfg : PublicItemConfig) : Sections where
  groups := Grouping.push s.groups (groupName cfg) (publicItem cfg (resolveItem cfg))
  units := s.units ++ [⟨(resolveItem cfg).status, false⟩]

def statusGroup (g : String × List PublicStatusItem) : PublicStatusGroup where
  name := g.1
  status := rollup (g.2.map fun it => ⟨it.status, false⟩)
  items := g.2

/-- `if (text?.trim()) … = text.trim()`. -/
def trimmed (text : Option String) : Option String :=
  (text.map JsText.trim).filter (fun t => t != "")

def buildPublicStatus (config : PublicConfigDTO) (resolveItem : PublicItemConfig → Resolved)
    (now : String) : Option PublicStatusDTO :=
  if !config.enabled then none
  else
    let sections := config.items.foldl (Sections.add resolveItem) ⟨[], []⟩
    some {
      title := config.title
      description := trimmed config.description
      notice := config.notice.filter (fun n => JsText.trim n.message != "")
      overall := rollup sections.units
      groups := sections.groups.map statusGroup
      generatedAt := now }

/-! ### What the loop keeps -/

/-- The item of the page, with the group it goes into. -/
def shown (resolveItem : PublicItemConfig → Resolved) (cfg : PublicItemConfig) :
    String × PublicStatusItem :=
  (groupName cfg, publicItem cfg (resolveItem cfg))

section

variable {resolveItem : PublicItemConfig → Resolved}

theorem sections_eq (items : List PublicItemConfig) :
    items.foldl (Sections.add resolveItem) ⟨[], []⟩
      = ⟨Grouping.grouped (items.map (shown resolveItem)),
        items.map fun cfg => ⟨(resolveItem cfg).status, false⟩⟩ := by
  induction items using List.reverseRecOn with
  | nil => rfl
  | append_singleton items cfg ih =>
    rw [List.foldl_append, ih, List.map_append, List.map_append, List.map_singleton,
      Grouping.grouped_concat]
    rfl

theorem buildPublicStatus_eq_some {config : PublicConfigDTO} {now : String}
    {dto : PublicStatusDTO} (h : buildPublicStatus config resolveItem now = some dto) :
    dto.groups = (Grouping.grouped (config.items.map (shown resolveItem))).map statusGroup
      ∧ dto.overall = rollup (config.items.map fun cfg => ⟨(resolveItem cfg).status, false⟩) := by
  rw [buildPublicStatus, sections_eq] at h
  split at h
  · cases h
  · obtain rfl := Option.some.inj h
    exact ⟨rfl, rfl⟩

/-- The groups roll up to what all items do. -/
theorem severity_groups_le_iff (items : List PublicItemConfig) (n : ℕ) :
    (∀ g ∈ (Grouping.grouped (items.map (shown resolveItem))).map statusGroup,
      severity g.status ≤ n)
      ↔ ∀ u ∈ items.map fun cfg => (⟨(resolveItem cfg).status, false⟩ : HealthUnit),
        severity u.worth ≤ n := by
  have hgroup : ∀ g ∈ Grouping.grouped (items.map (shown resolveItem)),
      (severity (statusGroup g).status ≤ n
        ↔ ∀ it ∈ g.2, severity (HealthUnit.worth ⟨it.status, false⟩) ≤ n) := by
    intro g hg
    have hne : (g.2.map fun it => (⟨it.status, false⟩ : HealthUnit)) ≠ [] := fun h =>
      Grouping.ne_nil_of_mem_grouped _ g hg (List.map_eq_nil_iff.mp h)
    rw [statusGroup, Core.severity_rollup_le_iff hne, List.forall_mem_map]
  -- every item is in a group, and every item of a group is one of the page
  rw [List.forall_mem_map, List.forall_mem_map]
  constructor
  · intro h cfg hcfg
    obtain ⟨g, hg, hit⟩ := Grouping.mem_grouped.mpr
      ⟨shown resolveItem cfg, List.mem_map_of_mem hcfg, rfl⟩
    exact (hgroup g hg).mp (h g hg) _ hit
  · intro h g hg
    refine (hgroup g hg).mpr fun it hit => ?_
    obtain ⟨e, he, rfl⟩ := Grouping.mem_grouped.mp ⟨g, hg, hit⟩
    obtain ⟨cfg, hcfg, rfl⟩ := List.mem_map.mp he
    exact h cfg hcfg

/-! ### The overall status -/

/-- The overall status of a page is the worst of the statuses of its groups. -/
structure IsWorst (dto : PublicStatusDTO) : Prop where
  mem : ∃ g ∈ dto.groups, g.status = dto.overall
  le : ∀ g ∈ dto.groups, severity g.status ≤ severity dto.overall

/-- A bound that is the least one is met. -/
theorem exists_eq_of_le_iff {α : Type*} {f : α → ℕ} {xs : List α} {k : ℕ} (hne : xs ≠ [])
    (h : ∀ n, k ≤ n ↔ ∀ x ∈ xs, f x ≤ n) : ∃ x ∈ xs, f x = k := by
  by_contra hnone
  push Not at hnone
  have hle := (h k).mp (Nat.le_refl k)
  obtain ⟨x, hx⟩ := List.exists_mem_of_ne_nil xs hne
  have hpos : 0 < k := Nat.pos_of_ne_zero fun hk =>
    hnone x hx (Nat.le_antisymm (hle x hx) (hk ▸ Nat.zero_le _))
  have hlower : k ≤ k - 1 := (h _).mpr fun x hx =>
    Nat.le_sub_one_of_lt (Nat.lt_of_le_of_ne (hle x hx) (hnone x hx))
  omega

theorem isWorst_of_build {config : PublicConfigDTO} {now : String} {dto : PublicStatusDTO}
    (h : buildPublicStatus config resolveItem now = some dto) (hne : config.items ≠ []) :
    IsWorst dto := by
  obtain ⟨hgroups, hoverall⟩ := buildPublicStatus_eq_some h
  have hbound (n : ℕ) : severity dto.overall ≤ n ↔ ∀ g ∈ dto.groups, severity g.status ≤ n := by
    have hunits : (config.items.map fun cfg =>
        (⟨(resolveItem cfg).status, false⟩ : HealthUnit)) ≠ [] := fun h =>
      hne (List.map_eq_nil_iff.mp h)
    rw [hoverall, hgroups, Core.severity_rollup_le_iff hunits, severity_groups_le_iff]
  have hgroupsNe : dto.groups ≠ [] := by
    intro hnil
    obtain ⟨cfg, hcfg⟩ := List.exists_mem_of_ne_nil _ hne
    obtain ⟨g, hg, -⟩ := Grouping.mem_grouped.mpr
      ⟨shown resolveItem cfg, List.mem_map_of_mem hcfg, rfl⟩
    rw [hgroups, List.map_eq_nil_iff] at hnil
    rw [hnil] at hg
    cases hg
  obtain ⟨g, hg, hseverity⟩ := exists_eq_of_le_iff hgroupsNe hbound
  exact ⟨⟨g, hg, Core.severity_injective hseverity⟩, (hbound _).mp (Nat.le_refl _)⟩

end

/-- The overall status is the worst of the groups', and the same for the same statuses in any
    order and under any headings. -/
structure WorstOfGroups (config : PublicConfigDTO) (resolveItem : PublicItemConfig → Resolved)
    (now : String) : Prop where
  enabled : config.enabled = true → (buildPublicStatus config resolveItem now).isSome = true
  worst : ∀ dto, buildPublicStatus config resolveItem now = some dto → config.items ≠ [] →
    IsWorst dto
  same : ∀ config' resolveItem' now' dto dto',
    buildPublicStatus config resolveItem now = some dto →
    buildPublicStatus config' resolveItem' now' = some dto' →
    (config.items.map fun cfg => (resolveItem cfg).status).Perm
      (config'.items.map fun cfg => (resolveItem' cfg).status) →
    dto.overall = dto'.overall

/-- `rollup` does not go by the order of the units, and rolls up parts. -/
structure RollupLaws : Prop where
  perm : ∀ us vs : List HealthUnit, us.Perm vs → rollup us = rollup vs
  append : ∀ xs ys : List HealthUnit, xs ≠ [] → ys ≠ [] →
    rollup (xs ++ ys) = Core.worst (rollup xs) (rollup ys)

theorem publicStatus_worst (config : PublicConfigDTO)
    (resolveItem : PublicItemConfig → Resolved) (now : String) :
    WorstOfGroups config resolveItem now ∧ RollupLaws where
  left := {
    enabled := fun h => by
      rw [buildPublicStatus, h]
      rfl
    worst := fun _ h hne => isWorst_of_build h hne
    same := fun config' resolveItem' now' dto dto' h h' hperm => by
      rw [(buildPublicStatus_eq_some h).2, (buildPublicStatus_eq_some h').2]
      apply Core.rollup_perm
      have hmap := hperm.map fun status => (⟨status, false⟩ : HealthUnit)
      rwa [List.map_map, List.map_map] at hmap }
  right := ⟨fun _ _ => Core.rollup_perm, fun _ _ => Core.rollup_append⟩

end Argus.Reports
