import Mathlib.Data.List.Nodup
import Mathlib.Data.List.Pairwise

/-!
# Families of disjoint chains

A family of chains is a list of lists without a common element: every element has one place.
The two ways such a family grows are a new chain of one element and a successor at the end
of the chain that holds a given element (`extend`).

* `eq_of_mem` — an element lies in one chain only.
* `mem_flatten_extend`, `nodup_flatten_extend` — `extend` adds the one element and keeps the
  chains disjoint.
-/

namespace Chains

variable {α : Type*} [DecidableEq α] {chains : List (List α)} {old new x : α} {ch ch' : List α}

/-- Append `new` to the chain that holds `old`. -/
def extend (old new : α) (chains : List (List α)) : List (List α) :=
  chains.map (fun ch => if old ∈ ch then ch ++ [new] else ch)

/-- Two chains with a common element are the same chain. -/
theorem eq_of_mem (h : chains.flatten.Nodup) (hch : ch ∈ chains) (hch' : ch' ∈ chains)
    (hx : x ∈ ch) (hx' : x ∈ ch') : ch = ch' := by
  obtain ⟨-, hdisj⟩ := List.nodup_flatten.mp h
  by_contra hne
  have hsymm : Std.Symm (List.Disjoint : List α → List α → Prop) := ⟨fun _ _ h _ ha hb => h hb ha⟩
  exact hdisj.forall hch hch' hne hx hx'

theorem mem_extend :
    ch ∈ extend old new chains ↔
      ∃ ch₀ ∈ chains, (old ∈ ch₀ ∧ ch = ch₀ ++ [new]) ∨ (old ∉ ch₀ ∧ ch = ch₀) := by
  unfold extend
  rw [List.mem_map]
  constructor
  · rintro ⟨ch₀, hmem, rfl⟩
    refine ⟨ch₀, hmem, ?_⟩
    by_cases hold : old ∈ ch₀
    · exact Or.inl ⟨hold, if_pos hold⟩
    · exact Or.inr ⟨hold, if_neg hold⟩
  · rintro ⟨ch₀, hmem, ⟨hold, rfl⟩ | ⟨hold, rfl⟩⟩
    · exact ⟨ch₀, hmem, if_pos hold⟩
    · exact ⟨ch, hmem, if_neg hold⟩

theorem mem_flatten_extend (hold : old ∈ chains.flatten) :
    x ∈ (extend old new chains).flatten ↔ x ∈ chains.flatten ∨ x = new := by
  simp only [List.mem_flatten, mem_extend]
  constructor
  · rintro ⟨ch, ⟨ch₀, hmem, ⟨-, rfl⟩ | ⟨-, rfl⟩⟩, hx⟩
    · rw [List.mem_append, List.mem_singleton] at hx
      rcases hx with hx | hx
      · exact Or.inl ⟨ch₀, hmem, hx⟩
      · exact Or.inr hx
    · exact Or.inl ⟨ch, hmem, hx⟩
  · rintro (⟨ch, hmem, hx⟩ | rfl)
    · by_cases hch : old ∈ ch
      · exact ⟨ch ++ [new], ⟨ch, hmem, Or.inl ⟨hch, rfl⟩⟩, List.mem_append_left _ hx⟩
      · exact ⟨ch, ⟨ch, hmem, Or.inr ⟨hch, rfl⟩⟩, hx⟩
    · obtain ⟨ch, hmem, hch⟩ := List.mem_flatten.mp hold
      exact ⟨ch ++ [x], ⟨ch, hmem, Or.inl ⟨hch, rfl⟩⟩, by simp⟩

theorem nodup_flatten_extend (h : chains.flatten.Nodup) (hnew : new ∉ chains.flatten) :
    (extend old new chains).flatten.Nodup := by
  obtain ⟨hnodup, hdisj⟩ := List.nodup_flatten.mp h
  have hout : ∀ ch ∈ chains, new ∉ ch := fun ch hch hx => hnew (List.mem_flatten.mpr ⟨ch, hch, hx⟩)
  rw [List.nodup_flatten]
  constructor
  · intro ch hch
    obtain ⟨ch₀, hmem, ⟨-, rfl⟩ | ⟨-, rfl⟩⟩ := mem_extend.mp hch
    · rw [List.nodup_append]
      refine ⟨hnodup ch₀ hmem, by simp, fun a ha b hb => ?_⟩
      rintro rfl
      exact hout ch₀ hmem (List.mem_singleton.mp hb ▸ ha)
    · exact hnodup ch hmem
  · unfold extend
    rw [List.pairwise_map]
    refine hdisj.imp_of_mem (fun {a b} ha hb hab => ?_)
    -- at most one of the two chains holds `old` and has grown
    have hnew_a : new ∉ a := hout a ha
    have hnew_b : new ∉ b := hout b hb
    intro x hx hx'
    by_cases hold_a : old ∈ a
    · have hold_b : old ∉ b := hab hold_a
      rw [if_pos hold_a, List.mem_append, List.mem_singleton] at hx
      rw [if_neg hold_b] at hx'
      rcases hx with hx | rfl
      · exact hab hx hx'
      · exact hnew_b hx'
    · rw [if_neg hold_a] at hx
      by_cases hold_b : old ∈ b
      · rw [if_pos hold_b, List.mem_append, List.mem_singleton] at hx'
        rcases hx' with hx' | rfl
        · exact hab hx hx'
        · exact hnew_a hx
      · rw [if_neg hold_b] at hx'
        exact hab hx hx'

end Chains
