import Mathlib.Data.List.Infix

/-!
# Texts in segments

A text that a separator divides into segments, such as a path or an object identifier.  The
segments are those of `List.splitOn`, so a text without a separator is one segment.

* `append_prefix_iff` — a text followed by a separator is a prefix exactly if its segments are the
  first ones, and not all.
* `splitOn_prefix_iff` — what it takes for the segments to be the first ones.
* `length_le_length_iff` — of two texts that are such prefixes of one text, the longer one has more
  segments.
-/

namespace Segments

variable {α : Type*} [BEq α] [LawfulBEq α] {x : α}

theorem splitOn_injective {s t : List α} (h : s.splitOn x = t.splitOn x) : s = t := by
  have hs : [x].intercalate (s.splitOn x) = s := List.intercalate_splitOn x
  rw [← hs, h, List.intercalate_splitOn]

omit [LawfulBEq α] in
/-- Every separator makes one more segment. -/
theorem length_splitOn (s : List α) : (s.splitOn x).length = s.count x + 1 := by
  induction s with
  | nil => rfl
  | cons a s ih =>
    rw [List.splitOn] at ih ⊢
    rw [List.splitOnP_cons_eq_if_modifyHead, List.count_cons]
    split
    · rw [List.length_cons, ih]
    · rw [List.length_modifyHead, ih, Nat.add_zero]

omit [BEq α] [LawfulBEq α] in
theorem intercalate_append {ss ts : List (List α)} (hs : ss ≠ []) (ht : ts ≠ []) :
    [x].intercalate (ss ++ ts) = [x].intercalate ss ++ x :: [x].intercalate ts := by
  induction ss with
  | nil => exact absurd rfl hs
  | cons s ss ih =>
    cases ss with
    | nil =>
      obtain ⟨t, ts, rfl⟩ := List.exists_cons_of_ne_nil ht
      simp
    | cons s' ss =>
      have hrest := ih (List.cons_ne_nil _ _)
      simp only [List.cons_append, List.intercalate_cons_cons, List.append_assoc] at hrest ⊢
      rw [hrest]

omit [BEq α] [LawfulBEq α] in
/-- Everything in a text is a separator or in a segment. -/
theorem mem_intercalate {ss : List (List α)} {a : α} (h : a ∈ [x].intercalate ss) :
    a = x ∨ ∃ s ∈ ss, a ∈ s := by
  induction ss with
  | nil => exact absurd h List.not_mem_nil
  | cons s ss ih =>
    cases ss with
    | nil =>
      rw [List.intercalate_singleton] at h
      exact Or.inr ⟨s, List.mem_singleton_self s, h⟩
    | cons s' ss =>
      rw [List.intercalate_cons_cons, List.append_assoc, List.mem_append, List.singleton_append,
        List.mem_cons] at h
      rcases h with hs | rfl | hrest
      · exact Or.inr ⟨s, List.mem_cons_self, hs⟩
      · exact Or.inl rfl
      · rcases ih hrest with hsep | ⟨t, ht, ha⟩
        · exact Or.inl hsep
        · exact Or.inr ⟨t, List.mem_cons_of_mem s ht, ha⟩

theorem append_prefix_iff {s t : List α} :
    (s ++ [x]) <+: t ↔ ∃ ss, ss ≠ [] ∧ t.splitOn x = s.splitOn x ++ ss := by
  constructor
  · rintro ⟨r, rfl⟩
    refine ⟨r.splitOn x, List.splitOn_ne_nil x r, ?_⟩
    rw [List.append_assoc, List.singleton_append, List.splitOn_append_cons_self]
  · rintro ⟨ss, hne, hsplit⟩
    refine ⟨[x].intercalate ss, ?_⟩
    have ht : [x].intercalate (t.splitOn x) = t := List.intercalate_splitOn x
    rw [← ht, hsplit, intercalate_append (List.splitOn_ne_nil x s) hne, List.intercalate_splitOn,
      List.append_assoc, List.singleton_append]

theorem splitOn_prefix_iff {s t : List α} :
    s.splitOn x <+: t.splitOn x ↔ t = s ∨ (s ++ [x]) <+: t := by
  rw [append_prefix_iff]
  constructor
  · rintro ⟨ss, hss⟩
    by_cases hnil : ss = []
    · rw [hnil, List.append_nil] at hss
      exact Or.inl (splitOn_injective hss.symm)
    · exact Or.inr ⟨ss, hnil, hss.symm⟩
  · rintro (rfl | ⟨ss, -, hss⟩)
    · exact List.prefix_rfl
    · exact ⟨ss, hss.symm⟩

theorem length_le_of_leading_splitOn {s t : List α} (h : s.splitOn x <+: t.splitOn x) :
    s.length ≤ t.length := by
  rcases splitOn_prefix_iff.mp h with rfl | hprefix
  · exact le_rfl
  · exact ((List.prefix_append s [x]).trans hprefix).length_le

/-- A text with as many characters as another one whose segments begin it is that text. -/
theorem eq_of_leading_splitOn {s t : List α} (h : s.splitOn x <+: t.splitOn x)
    (hlen : t.length ≤ s.length) : t = s := by
  rcases splitOn_prefix_iff.mp h with rfl | hprefix
  · rfl
  · have hlt := hprefix.length_le
    rw [List.length_append, List.length_singleton] at hlt
    omega

/-- Of two prefixes by segments, the longer text has more segments. -/
theorem length_le_length_iff {s s' t : List α} (h : s.splitOn x <+: t.splitOn x)
    (h' : s'.splitOn x <+: t.splitOn x) :
    s.length ≤ s'.length ↔ (s.splitOn x).length ≤ (s'.splitOn x).length := by
  constructor
  · intro hlen
    rcases Nat.le_total (s.splitOn x).length (s'.splitOn x).length with hle | hle
    · exact hle
    · have hprefix := List.prefix_of_prefix_length_le h' h hle
      rw [eq_of_leading_splitOn hprefix hlen]
  · intro hle
    exact length_le_of_leading_splitOn (List.prefix_of_prefix_length_le h h' hle)

end Segments
