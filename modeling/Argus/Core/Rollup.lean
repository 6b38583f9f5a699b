import Argus.Core.Diff
import Mathlib.Data.List.Perm.Basic
import Mathlib.Tactic.SplitIfs

namespace Argus.Core

/-!
# The rollup of units

`rollup` of `state.ts`, a cascade of passes over the units, is the worst of what the units are one
by one.

* `severity` — the order UP < UNKNOWN < DEGRADED < DOWN.
* `severity_rollup_le_iff` — the rollup is the least status that is no better than any unit's.
* `rollup_perm`, `rollup_append` — so the order of the units does not matter, and the parts of a list
  may be rolled up first.
-/

/-- `Unit`: a monitored item; an outage of a critical one is one of the whole. -/
structure HealthUnit where
  status : HealthStatus
  critical : Bool
deriving DecidableEq, Repr

def isBad (status : HealthStatus) : Bool := status == .down || status == .hang

def rollup (units : List HealthUnit) : HealthStatus :=
  if units.length = 0 then .unknown
  else if units.any (fun unit => unit.critical && isBad unit.status) then .down
  else if units.any (fun unit => !unit.critical && isBad unit.status) then .degraded
  else if units.all (fun u => u.status == .up) then .up
  else .unknown

/-- How bad a status is; nothing is rolled up to HANG. -/
def severity : HealthStatus → ℕ
  | .up => 0
  | .unknown => 1
  | .degraded => 2
  | .down => 3
  | .hang => 4

theorem severity_injective : Function.Injective severity := by
  intro s t h
  cases s <;> cases t <;> first | rfl | cases h

/-- The worse of two. -/
def worst (s t : HealthStatus) : HealthStatus := if severity s ≤ severity t then t else s

theorem severity_worst_le_iff {s t : HealthStatus} {n : ℕ} :
    severity (worst s t) ≤ n ↔ severity s ≤ n ∧ severity t ≤ n := by
  rw [worst]
  split
  · next h =>
    constructor
    · intro ht
      exact ⟨Nat.le_trans h ht, ht⟩
    · exact And.right
  · next h =>
    constructor
    · intro hs
      exact ⟨hs, Nat.le_trans (Nat.le_of_not_le h) hs⟩
    · exact And.left

/-- A status is known by what it is no worse than. -/
theorem eq_of_severity_le_iff {s t : HealthStatus} (h : ∀ n, severity s ≤ n ↔ severity t ≤ n) :
    s = t :=
  severity_injective (Nat.le_antisymm ((h _).mpr (Nat.le_refl _)) ((h _).mp (Nat.le_refl _)))

/-- What a unit alone is rolled up to. -/
def HealthUnit.worth (u : HealthUnit) : HealthStatus :=
  if isBad u.status then (if u.critical then .down else .degraded)
  else if u.status = .up then .up else .unknown

theorem worth_of_bad {u : HealthUnit} (h : isBad u.status = true) :
    u.worth = if u.critical then .down else .degraded := if_pos h

theorem worth_of_not_bad {u : HealthUnit} (h : isBad u.status = false) :
    u.worth = if u.status = .up then .up else .unknown :=
  if_neg (Bool.eq_false_iff.mp h)

/-- The greatest of some numbers is their least upper bound. -/
theorem le_iff_of_greatest {α : Type*} {f : α → ℕ} {xs : List α} {k : ℕ}
    (hmem : ∃ x ∈ xs, k ≤ f x) (hle : ∀ x ∈ xs, f x ≤ k) (n : ℕ) :
    k ≤ n ↔ ∀ x ∈ xs, f x ≤ n := by
  constructor
  · intro hk x hx
    exact Nat.le_trans (hle x hx) hk
  · intro h
    obtain ⟨x, hx, hkx⟩ := hmem
    exact Nat.le_trans hkx (h x hx)

/-- A cascade that looks for the worst first finds the least upper bound. -/
theorem severity_rollup_le_iff {units : List HealthUnit} (hne : units ≠ []) (n : ℕ) :
    severity (rollup units) ≤ n ↔ ∀ u ∈ units, severity u.worth ≤ n := by
  have hcases (u : HealthUnit) : severity u.worth ≤ 3 := by
    rw [HealthUnit.worth]
    split_ifs <;> decide
  rw [rollup, if_neg (fun h => hne (List.eq_nil_of_length_eq_zero h))]
  split_ifs with hdown hdegraded hup
  · -- a critical unit is bad
    obtain ⟨u, hu, hbad⟩ := List.any_eq_true.mp hdown
    rw [Bool.and_eq_true] at hbad
    refine le_iff_of_greatest ⟨u, hu, ?_⟩ (fun u _ => hcases u) n
    rw [worth_of_bad hbad.2, if_pos hbad.1]
    exact Nat.le_refl _
  · obtain ⟨u, hu, hbad⟩ := List.any_eq_true.mp hdegraded
    rw [Bool.and_eq_true, Bool.not_eq_true'] at hbad
    refine le_iff_of_greatest ⟨u, hu, ?_⟩ (fun v hv => ?_) n
    · rw [worth_of_bad hbad.2, hbad.1]
      exact Nat.le_refl _
    · -- no critical unit is bad any more
      cases hv' : isBad v.status with
      | true =>
        have hcritical : v.critical = false := by
          rw [Bool.eq_false_iff]
          intro h
          exact hdown (List.any_eq_true.mpr ⟨v, hv, by rw [h, hv']; rfl⟩)
        rw [worth_of_bad hv', hcritical]
        exact Nat.le_refl _
      | false =>
        rw [worth_of_not_bad hv']
        split <;> decide
  · -- all are up
    refine le_iff_of_greatest ?_ (fun u hu => ?_) n
    · obtain ⟨u, hu⟩ := List.exists_mem_of_ne_nil units hne
      exact ⟨u, hu, Nat.zero_le _⟩
    · have hstatus : u.status = .up := beq_iff_eq.mp (List.all_eq_true.mp hup u hu)
      have hworth : u.worth = .up := by
        rw [worth_of_not_bad (by rw [hstatus]; rfl), if_pos hstatus]
      exact Nat.le_of_eq (congrArg severity hworth)
  · have hgood {u : HealthUnit} (hu : u ∈ units) : isBad u.status = false := by
      rw [Bool.eq_false_iff]
      intro hbad
      cases hcritical : u.critical with
      | true => exact hdown (List.any_eq_true.mpr ⟨u, hu, by rw [hcritical, hbad]; rfl⟩)
      | false => exact hdegraded (List.any_eq_true.mpr ⟨u, hu, by rw [hcritical, hbad]; rfl⟩)
    refine le_iff_of_greatest ?_ (fun u hu => ?_) n
    · rw [Bool.not_eq_true, List.all_eq_false] at hup
      obtain ⟨u, hu, hstatus⟩ := hup
      refine ⟨u, hu, ?_⟩
      have hworth : u.worth = .unknown := by
        rw [worth_of_not_bad (hgood hu), if_neg (fun h => hstatus (beq_iff_eq.mpr h))]
      exact Nat.le_of_eq (congrArg severity hworth.symm)
    · rw [worth_of_not_bad (hgood hu)]
      split <;> decide

theorem rollup_perm {us vs : List HealthUnit} (h : us.Perm vs) : rollup us = rollup vs := by
  by_cases hus : us = []
  · rw [hus] at h ⊢
    rw [h.nil_eq]
  · have hvs : vs ≠ [] := fun hnil => hus (hnil ▸ h).eq_nil
    refine eq_of_severity_le_iff fun n => ?_
    rw [severity_rollup_le_iff hus, severity_rollup_le_iff hvs]
    exact forall_congr' fun u => by rw [h.mem_iff]

theorem rollup_append {xs ys : List HealthUnit} (hxs : xs ≠ []) (hys : ys ≠ []) :
    rollup (xs ++ ys) = worst (rollup xs) (rollup ys) := by
  refine eq_of_severity_le_iff fun n => ?_
  rw [severity_worst_le_iff, severity_rollup_le_iff (List.append_ne_nil_of_left_ne_nil hxs ys),
    severity_rollup_le_iff hxs, severity_rollup_le_iff hys, List.forall_mem_append]

end Argus.Core
