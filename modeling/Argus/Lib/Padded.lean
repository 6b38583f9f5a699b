import Mathlib.Algebra.GroupWithZero.Nat
import Mathlib.Order.PiLex
import Mathlib.Order.WithBot

/-!
# Lists that are compared component by component

Components are compared in turn until two of them differ; behind the end of a list they are
zero.

* `firstSome` — a loop `for (i = 0; i < n; i++)` that is left with a result.
* `components` — a list with zeros behind its end; lists with their zeros in other places
  (`components_filter_of_pairwise`, `pairwise_of_components_filter`).
* `settle` — a sequence where nothing counts behind an infinite component; with it, a
  comparison that stops at two of them is that of the lexicographic order (`settle_lt_iff`).
* `TotalPreorder` — total and transitive, as is every comparison by a key.
-/

namespace Padded

variable {α β : Type*}

/-! ### Loops -/

/-- The first result below `n`. -/
def firstSome (n : ℕ) (g : ℕ → Option β) : Option β := (List.range n).findSome? g

theorem firstSome_eq_some_iff {n : ℕ} {g : ℕ → Option β} {r : β} :
    firstSome n g = some r ↔ ∃ i < n, g i = some r ∧ ∀ j < i, g j = none := by
  induction n with
  | zero => simp [firstSome]
  | succ n ih =>
    rw [firstSome] at ih ⊢
    rw [List.range_succ, List.findSome?_append]
    cases hfirst : (List.range n).findSome? g with
    | some r' =>
      rw [hfirst] at ih
      rw [Option.some_or, ih]
      constructor
      · rintro ⟨i, hi, hrest⟩
        exact ⟨i, by omega, hrest⟩
      · rintro ⟨i, hi, hr, hnone⟩
        refine ⟨i, ?_, hr, hnone⟩
        -- the loop has ended before `n`
        by_contra hge
        have hall : (List.range n).findSome? g = none := by
          rw [List.findSome?_eq_none_iff]
          intro j hj
          exact hnone j (by rw [List.mem_range] at hj; omega)
        rw [hall] at hfirst
        cases hfirst
    | none =>
      rw [List.findSome?_eq_none_iff] at hfirst
      rw [Option.none_or, List.findSome?_singleton]
      constructor
      · intro hr
        exact ⟨n, by omega, hr, fun j hj => hfirst j (List.mem_range.mpr hj)⟩
      · rintro ⟨i, hi, hr, -⟩
        rcases Nat.lt_succ_iff_lt_or_eq.mp hi with hlt | rfl
        · rw [hfirst i (List.mem_range.mpr hlt)] at hr
          cases hr
        · exact hr

/-- A loop that compares two sequences until they differ: it comes to its result for a smaller
    component where this is the first difference, and `P` holds of all that is equal before. -/
theorem firstSome_lt_iff {α : Type*} [LinearOrder α] {f h : ℕ → α} {P : α → Prop} {n : ℕ}
    {g : ℕ → Option β} {less : β} (hless : ∀ i, g i = some less ↔ f i < h i)
    (hnone : ∀ i, g i = none ↔ f i = h i ∧ P (f i)) (hbound : ∀ i, n ≤ i → f i = h i) :
    firstSome n g = some less ↔ ∃ i, (∀ j < i, f j = h j ∧ P (f j)) ∧ f i < h i := by
  rw [firstSome_eq_some_iff]
  constructor
  · rintro ⟨i, -, hi, hbefore⟩
    exact ⟨i, fun j hj => (hnone j).mp (hbefore j hj), (hless i).mp hi⟩
  · rintro ⟨i, hbefore, hi⟩
    refine ⟨i, ?_, (hless i).mpr hi, fun j hj => (hnone j).mpr (hbefore j hj)⟩
    by_contra hge
    exact hi.ne (hbound i (not_lt.mp hge))

/-! ### Components -/

section Components

variable [Zero α]

/-- A list with zeros behind its end. -/
def components (l : List α) : ℕ → α := fun i => l.getD i 0

theorem components_nil : components ([] : List α) = fun _ => 0 := by
  funext i
  simp [components]

@[simp] theorem components_cons_zero (a : α) (l : List α) : components (a :: l) 0 = a := rfl

@[simp] theorem components_cons_succ (a : α) (l : List α) (i : ℕ) :
    components (a :: l) (i + 1) = components l i := by
  simp [components]

theorem components_of_le {l : List α} {i : ℕ} (h : l.length ≤ i) : components l i = 0 := by
  rw [components, List.getD_eq_getElem?_getD, List.getElem?_eq_none h, Option.getD_none]

theorem components_map {γ : Type*} {v : γ → α} {d : γ} (hd : v d = 0) (l : List γ) (i : ℕ) :
    components (l.map v) i = v (l.getD i d) := by
  rw [components, ← hd, List.getD_eq_getElem?_getD, List.getElem?_map, Option.getD_map,
    List.getD_eq_getElem?_getD]

theorem components_induction {P : α → Prop} (hzero : P 0) {l : List α} (h : ∀ a ∈ l, P a) (i : ℕ) :
    P (components l i) := by
  induction l generalizing i with
  | nil => rwa [components_nil]
  | cons a l ih =>
    cases i with
    | zero => exact h a List.mem_cons_self
    | succ i =>
      rw [components_cons_succ]
      exact ih (fun b hb => h b (List.mem_cons_of_mem a hb)) i

theorem components_eq_zero {l : List α} (h : ∀ a ∈ l, a = 0) (i : ℕ) : components l i = 0 :=
  components_induction (P := fun a : α => a = 0) rfl h i

/-! A list without some of its members, which are zero.  Nothing moves if and only if what stands
    behind one of them is zero too. -/

variable {γ : Type*} (drop : γ → Bool)

theorem components_filter_of_pairwise {v : γ → α} {l : List γ}
    (hdrop : ∀ s, drop s = true → v s = 0)
    (h : l.Pairwise (fun s t => drop s = true → v t = 0)) :
    components (l.map v) = components ((l.filter (fun s => !drop s)).map v) := by
  induction l with
  | nil => rfl
  | cons s l ih =>
    obtain ⟨hhead, htail⟩ := List.pairwise_cons.mp h
    funext i
    cases hs : drop s with
    | false =>
      rw [List.filter_cons_of_pos (by simp [hs]), List.map_cons, List.map_cons]
      cases i with
      | zero => rfl
      | succ i => rw [components_cons_succ, components_cons_succ, ih htail]
    | true =>
      have hzero : ∀ t ∈ l, v t = 0 := fun t ht => hhead t ht hs
      rw [List.filter_cons_of_neg (by simp [hs]), List.map_cons, components_eq_zero,
        components_eq_zero]
      · intro a ha
        obtain ⟨t, ht, rfl⟩ := List.mem_map.mp ha
        exact hzero t (List.mem_filter.mp ht).1
      · intro a ha
        rcases List.mem_cons.mp ha with rfl | ha
        · exact hdrop s hs
        · obtain ⟨t, ht, rfl⟩ := List.mem_map.mp ha
          exact hzero t ht

end Components

section Shifts

variable {γ : Type*} (drop : γ → Bool) {p q : γ → ℕ}

/-- What is found further to the front has vanished altogether. -/
private theorem eq_zero_of_shift (hq : ∀ s, q s ≤ p s) (hdrop : ∀ s, drop s = true → p s = 0)
    {l : List γ} {k : ℕ}
    (h : ∀ i, components ((l.filter (fun s => !drop s)).map q) (i + (k + 1))
      = components (l.map p) i) : ∀ s ∈ l, p s = 0 := by
  induction l generalizing k with
  | nil => exact fun s hs => absurd hs List.not_mem_nil
  | cons s l ih =>
    cases hs : drop s with
    | true =>
      rw [List.filter_cons_of_neg (by simp [hs])] at h
      have htail := ih (k := k + 1) (fun i => by
        have hi := h (i + 1)
        rw [List.map_cons, components_cons_succ] at hi
        rw [← hi]
        congr 1
        omega)
      exact List.forall_mem_cons.mpr ⟨hdrop s hs, htail⟩
    | false =>
      rw [List.filter_cons_of_pos (by simp [hs])] at h
      have htail := ih (k := k) (fun i => by
        have hi := h (i + 1)
        rw [List.map_cons, List.map_cons, components_cons_succ] at hi
        have hindex : i + 1 + (k + 1) = i + (k + 1) + 1 := by omega
        rw [← hi, hindex, components_cons_succ])
      have hzero : ∀ a ∈ (l.filter (fun s => !drop s)).map q, a = 0 := by
        intro a ha
        obtain ⟨t, ht, rfl⟩ := List.mem_map.mp ha
        have hle := hq t
        rw [htail t (List.mem_filter.mp ht).1] at hle
        omega
      have hhead := h 0
      rw [List.map_cons, List.map_cons, components_cons_zero, Nat.zero_add, components_cons_succ,
        components_eq_zero hzero] at hhead
      exact List.forall_mem_cons.mpr ⟨hhead.symm, htail⟩

/-- Two readings of a list, of which the second one leaves members out and never reads more, give
    the same components only if they read all that is left alike, and nothing stands behind what
    is left out. -/
theorem pairwise_of_components_filter (hq : ∀ s, q s ≤ p s) (hdrop : ∀ s, drop s = true → p s = 0)
    {l : List γ}
    (h : components (l.map p) = components ((l.filter (fun s => !drop s)).map q)) :
    (∀ s ∈ l, drop s = false → p s = q s) ∧ l.Pairwise (fun s t => drop s = true → p t = 0) := by
  induction l with
  | nil => exact ⟨fun s hs => absurd hs List.not_mem_nil, List.Pairwise.nil⟩
  | cons s l ih =>
    cases hs : drop s with
    | false =>
      rw [List.filter_cons_of_pos (by simp [hs]), List.map_cons, List.map_cons] at h
      have htail : components (l.map p) = components ((l.filter (fun s => !drop s)).map q) := by
        funext i
        have hi := congrFun h (i + 1)
        rwa [components_cons_succ, components_cons_succ] at hi
      obtain ⟨hread, hpair⟩ := ih htail
      refine ⟨List.forall_mem_cons.mpr ⟨fun _ => congrFun h 0, hread⟩, List.pairwise_cons.mpr
        ⟨fun t _ ht => ?_, hpair⟩⟩
      rw [hs] at ht
      cases ht
    | true =>
      rw [List.filter_cons_of_neg (by simp [hs]), List.map_cons] at h
      have hzero := eq_zero_of_shift drop hq hdrop (l := l) (k := 0) (fun i => by
        have hi := congrFun h (i + 1)
        rw [components_cons_succ] at hi
        exact hi.symm)
      refine ⟨List.forall_mem_cons.mpr ⟨fun hfalse => ?_, fun t ht _ => ?_⟩,
        List.pairwise_cons.mpr ⟨fun t ht _ => hzero t ht, ?_⟩⟩
      · rw [hs] at hfalse
        cases hfalse
      · have hle := hq t
        rw [hzero t ht] at hle ⊢
        omega
      · exact List.pairwise_of_forall_mem_list (fun t _ u hu _ => hzero u hu)

end Shifts

/-! ### The lexicographic order -/

section Lex

variable [LinearOrder α]

theorem lex_lt_iff {f g : ℕ → α} :
    toLex f < toLex g ↔ ∃ i, (∀ j < i, f j = g j) ∧ f i < g i := Iff.rfl

variable [OrderTop α] (zero : α)

/-- Nothing counts behind an infinite component. -/
def settle (f : ℕ → α) : ℕ → α := fun i => if ∃ j < i, f j = ⊤ then zero else f i

theorem settle_of_forall {f : ℕ → α} {i : ℕ} (h : ∀ j < i, f j ≠ ⊤) : settle zero f i = f i := by
  refine if_neg ?_
  rintro ⟨j, hj, htop⟩
  exact h j hj htop

/-- Where two settled sequences are the same so far and differ next, there is no infinite
    component yet. -/
private theorem ne_top_of_settle {f g : ℕ → α} {i : ℕ}
    (heq : ∀ j < i, settle zero f j = settle zero g j)
    (hne : settle zero f i ≠ settle zero g i) : ∀ j < i, f j ≠ ⊤ ∧ g j ≠ ⊤ := by
  intro j
  induction j using Nat.strong_induction_on with
  | _ j ih =>
    intro hj
    have hf : settle zero f j = f j :=
      settle_of_forall zero (fun k hk => (ih k hk (by omega)).1)
    have hg : settle zero g j = g j :=
      settle_of_forall zero (fun k hk => (ih k hk (by omega)).2)
    have hsame := heq j hj
    rw [hf, hg] at hsame
    by_contra htop
    have hboth : f j = ⊤ ∧ g j = ⊤ := by
      by_cases h : f j = ⊤
      · exact ⟨h, hsame ▸ h⟩
      · refine absurd ⟨h, fun hg => h (hsame.trans hg)⟩ htop
    refine hne ?_
    rw [settle, settle, if_pos ⟨j, hj, hboth.1⟩, if_pos ⟨j, hj, hboth.2⟩]

theorem settle_lt_iff {f g : ℕ → α} : toLex (settle zero f) < toLex (settle zero g) ↔
    ∃ i, (∀ j < i, f j = g j ∧ f j ≠ ⊤) ∧ f i < g i := by
  rw [lex_lt_iff]
  constructor
  · rintro ⟨i, heq, hlt⟩
    have hfinite := ne_top_of_settle zero heq hlt.ne
    have hself : ∀ j ≤ i, settle zero f j = f j ∧ settle zero g j = g j := fun j hj =>
      ⟨settle_of_forall zero (fun k hk => (hfinite k (by omega)).1),
        settle_of_forall zero (fun k hk => (hfinite k (by omega)).2)⟩
    refine ⟨i, fun j hj => ⟨?_, (hfinite j hj).1⟩, ?_⟩
    · have hsame := heq j hj
      rwa [(hself j hj.le).1, (hself j hj.le).2] at hsame
    · rwa [(hself i le_rfl).1, (hself i le_rfl).2] at hlt
  · rintro ⟨i, heq, hlt⟩
    have hself : ∀ j ≤ i, settle zero f j = f j ∧ settle zero g j = g j := fun j hj =>
      ⟨settle_of_forall zero (fun k hk => (heq k (by omega)).2),
        settle_of_forall zero (fun k hk => (heq k (by omega)).1 ▸ (heq k (by omega)).2)⟩
    refine ⟨i, fun j hj => ?_, ?_⟩
    · rw [(hself j hj.le).1, (hself j hj.le).2, (heq j hj).1]
    · rwa [(hself i le_rfl).1, (hself i le_rfl).2]

end Lex

/-- Any two are comparable, and comparisons chain. -/
structure TotalPreorder (R : α → α → Prop) : Prop where
  total : ∀ a b, R a b ∨ R b a
  trans : ∀ a b c, R a b → R b c → R a c

/-- A comparison by a key. -/
theorem TotalPreorder.of_key {R : α → α → Prop} [LinearOrder β] (key : α → β)
    (h : ∀ a b, ¬ R a b ↔ key a < key b) : TotalPreorder R := by
  have hle : ∀ a b, R a b ↔ key b ≤ key a := fun a b => by
    rw [← not_lt, ← h, not_not]
  refine ⟨fun a b => ?_, fun a b c hab hbc => ?_⟩
  · rw [hle, hle]
    exact le_total _ _
  · rw [hle] at hab hbc ⊢
    exact hbc.trans hab

end Padded
