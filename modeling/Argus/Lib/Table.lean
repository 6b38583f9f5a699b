import Mathlib.Algebra.BigOperators.Group.List.Basic
import Mathlib.Algebra.Ring.Nat
import Mathlib.Data.List.Nodup

/-!
# Tables as lists of rows

The statement forms of a relational store that a list of rows has to answer:

* `update p f` — `UPDATE … SET f WHERE p`;
* `upsert key new merge` — `INSERT … ON CONFLICT (key) DO UPDATE`;
* `lookup key k` — `SELECT … WHERE key = k LIMIT 1`;
* `insertNew rows new` — `INSERT … ON CONFLICT DO NOTHING` of whole rows;
* `insertMissing key new rows` — `INSERT … ON CONFLICT (key) DO NOTHING`.

`update` is a map, so it keeps the number and the order of the rows; when it also keeps a
key, `lookup` commutes with it (`lookup_update`).  `upsert` changes one key only
(`lookup_upsert_self`, `lookup_upsert_of_ne`), and a column that it adds up grows by the value
of the new row (`sum_upsert`).
-/

namespace Table

variable {α κ : Type*}

/-- The rows after `UPDATE … SET f WHERE p`. -/
def update (p : α → Bool) (f : α → α) (rows : List α) : List α :=
  rows.map (fun r => if p r then f r else r)

theorem mem_update {p : α → Bool} {f : α → α} {rows : List α} {r' : α} :
    r' ∈ update p f rows ↔ ∃ r ∈ rows, (if p r then f r else r) = r' := List.mem_map

/-- Where the update keeps `g`, so does the whole table. -/
theorem map_update {β : Type*} {p : α → Bool} {f : α → α} (g : α → β)
    (hg : ∀ r, g (f r) = g r) (rows : List α) : (update p f rows).map g = rows.map g := by
  rw [update, List.map_map]
  refine List.map_congr_left (fun r _ => ?_)
  simp only [Function.comp_apply]
  split
  · exact hg r
  · rfl

/-- Replacing every row by one with the same `g` keeps the column of `g`. -/
theorem map_map_keep {β : Type*} {f : α → α} {g : α → β} (h : ∀ r, g (f r) = g r)
    (rows : List α) : (rows.map f).map g = rows.map g := by
  rw [List.map_map]
  exact List.map_congr_left (fun r _ => h r)

/-- A column stays distinct when the row appended brings a new value. -/
theorem nodup_append_singleton {β : Type*} {g : α → β} {rows : List α} {r : α}
    (hnd : (rows.map g).Nodup) (hnew : ∀ x ∈ rows, g x ≠ g r) :
    ((rows ++ [r]).map g).Nodup := by
  rw [List.map_append, List.map_singleton]
  refine List.nodup_append.mpr ⟨hnd, List.nodup_singleton _, ?_⟩
  intro k hk k' hk' hkk
  obtain ⟨x, hx, rfl⟩ := List.mem_map.mp hk
  rw [List.mem_singleton] at hk'
  exact hnew x hx (hkk.trans hk')

/-- The rows after `INSERT … ON CONFLICT DO NOTHING`: a row already there is not repeated. -/
def insertNew [DecidableEq α] (rows new : List α) : List α :=
  new.foldl (fun acc r => if r ∈ acc then acc else acc ++ [r]) rows

theorem mem_insertNew [DecidableEq α] {rows new : List α} {r : α} :
    r ∈ insertNew rows new ↔ r ∈ rows ∨ r ∈ new := by
  unfold insertNew
  induction new generalizing rows with
  | nil => simp
  | cons x new ih =>
    rw [List.foldl_cons, ih, List.mem_cons]
    split
    · rename_i hx
      constructor
      · rintro (h | h)
        · exact Or.inl h
        · exact Or.inr (Or.inr h)
      · rintro (h | rfl | h)
        · exact Or.inl h
        · exact Or.inl hx
        · exact Or.inr h
    · rw [List.mem_append, List.mem_singleton, or_assoc]

/-- Inserting what is there does nothing. -/
theorem insertNew_of_subset [DecidableEq α] {rows new : List α} (h : new ⊆ rows) :
    insertNew rows new = rows := by
  unfold insertNew
  induction new with
  | nil => rfl
  | cons r new ih =>
    rw [List.cons_subset] at h
    rw [List.foldl_cons, if_pos h.1]
    exact ih h.2

/-- New rows outside a selection do not show in it. -/
theorem filter_insertNew [DecidableEq α] {p : α → Bool} {new : List α}
    (h : ∀ r ∈ new, p r = false) (rows : List α) :
    (insertNew rows new).filter p = rows.filter p := by
  unfold insertNew
  induction new generalizing rows with
  | nil => rfl
  | cons r new ih =>
    rw [List.forall_mem_cons] at h
    rw [List.foldl_cons, ih h.2]
    split
    · rfl
    · simp [h.1]

/-- Rows outside a selection can be deleted unseen. -/
theorem filter_delete {p q : α → Bool} {rows : List α}
    (h : ∀ r ∈ rows, p r = true → q r = true) :
    (rows.filter q).filter p = rows.filter p := by
  rw [List.filter_filter]
  refine List.filter_congr (fun r hr => ?_)
  cases hp : p r with
  | false => rfl
  | true => rw [h r hr hp, Bool.and_true]

variable [DecidableEq κ] (key : α → κ)

/-- The first row with key `k`. -/
def lookup (k : κ) (rows : List α) : Option α := rows.find? (fun r => decide (key r = k))

variable {key}

theorem lookup_some {k : κ} {rows : List α} {r : α} (h : lookup key k rows = some r) :
    r ∈ rows ∧ key r = k := by
  have hp := List.find?_some h
  exact ⟨List.mem_of_find?_eq_some h, by simpa using hp⟩

theorem lookup_eq_none {k : κ} {rows : List α} :
    lookup key k rows = none ↔ ∀ r ∈ rows, key r ≠ k := by
  simp [lookup, List.find?_eq_none]

/-- What is found after a deletion by key was found before it. -/
theorem lookup_of_delete {k id : κ} {rows : List α} {r : α}
    (h : lookup key k (rows.filter (fun r => decide (key r ≠ id))) = some r) :
    lookup key k rows = some r := by
  obtain ⟨hmem, hk⟩ := lookup_some h
  have hne : k ≠ id := by
    rw [← hk]
    exact of_decide_eq_true (List.mem_filter.mp hmem).2
  rw [lookup, List.find?_filter] at h
  rw [lookup, ← h]
  congr 1
  funext r'
  by_cases hr' : key r' = k
  · simp [hr', hne]
  · simp [hr']

/-- With distinct keys a row is found under its own key. -/
theorem lookup_of_mem {rows : List α} (hnd : (rows.map key).Nodup) {r : α} (hr : r ∈ rows) :
    lookup key (key r) rows = some r := by
  cases h : lookup key (key r) rows with
  | none => exact absurd rfl (lookup_eq_none.mp h r hr)
  | some r' =>
    obtain ⟨hmem, hk⟩ := lookup_some h
    rw [List.inj_on_of_nodup_map hnd hmem hr hk]

/-- An update that keeps the key commutes with `lookup`. -/
theorem lookup_update {p : α → Bool} {f : α → α} (hkey : ∀ r, key (f r) = key r) (k : κ)
    (rows : List α) :
    lookup key k (update p f rows)
      = (lookup key k rows).map (fun r => if p r then f r else r) := by
  rw [lookup, lookup, update, List.find?_map]
  congr 2
  funext r
  simp only [Function.comp_apply]
  split
  · rw [hkey]
  · rfl

/-- `lookup` in a table with one row more at its end. -/
theorem lookup_append_singleton (k : κ) (rows : List α) (r : α) :
    lookup key k (rows ++ [r])
      = (lookup key k rows).or (if key r = k then some r else none) := by
  rw [lookup, lookup, List.find?_append]
  congr 1
  by_cases h : key r = k <;> simp [h]

/-! ### `INSERT … ON CONFLICT DO UPDATE` -/

variable (key)

/-- Insert `new`, or apply `merge` to the row that already has its key. -/
def upsert (new : α) (merge : α → α) (rows : List α) : List α :=
  if rows.any (fun r => decide (key r = key new)) then
    update (fun r => decide (key r = key new)) merge rows
  else rows ++ [new]

variable {key}

/-- What is found under the key of an upsert: the merged row, or the new one. -/
theorem lookup_upsert_self {new : α} {merge : α → α} (hkey : ∀ r, key (merge r) = key r)
    (rows : List α) :
    lookup key (key new) (upsert key new merge rows)
      = some (((lookup key (key new) rows).map merge).getD new) := by
  rw [upsert]
  split
  -- the conflict test and `lookup` agree on whether the key is there
  · rename_i hany
    rw [lookup_update hkey]
    cases h : lookup key (key new) rows with
    | none =>
      obtain ⟨r, hr, hk⟩ := List.any_eq_true.mp hany
      exact absurd (of_decide_eq_true hk) (lookup_eq_none.mp h r hr)
    | some r => simp [(lookup_some h).2]
  · rename_i hany
    have hnone : lookup key (key new) rows = none := by
      refine lookup_eq_none.mpr (fun r hr hk => hany ?_)
      exact List.any_eq_true.mpr ⟨r, hr, decide_eq_true hk⟩
    rw [lookup_append_singleton, hnone]
    simp

/-- An upsert leaves every other key alone. -/
theorem lookup_upsert_of_ne {new : α} {merge : α → α} (hkey : ∀ r, key (merge r) = key r)
    {k : κ} (hk : key new ≠ k) (rows : List α) :
    lookup key k (upsert key new merge rows) = lookup key k rows := by
  rw [upsert]
  split
  · rw [lookup_update hkey]
    cases h : lookup key k rows with
    | none => rfl
    | some r => simp [(lookup_some h).2, Ne.symm hk]
  · rw [lookup_append_singleton, if_neg hk, Option.or_none]

/-- An upsert keeps the keys of a table distinct. -/
theorem nodup_upsert {new : α} {merge : α → α} (hkey : ∀ r, key (merge r) = key r)
    {rows : List α} (hnd : (rows.map key).Nodup) :
    ((upsert key new merge rows).map key).Nodup := by
  rw [upsert]
  split
  · rw [map_update key hkey]
    exact hnd
  · rename_i hany
    refine nodup_append_singleton hnd (fun r hr hk => hany ?_)
    exact List.any_eq_true.mpr ⟨r, hr, decide_eq_true hk⟩

/-- The rows after an upsert: an old one with another key, a merged one, or the new one. -/
theorem mem_upsert {new : α} {merge : α → α} {rows : List α} {r : α}
    (h : r ∈ upsert key new merge rows) :
    (r ∈ rows ∧ key r ≠ key new) ∨ (∃ old ∈ rows, key old = key new ∧ r = merge old) ∨ r = new := by
  rw [upsert] at h
  split at h
  · obtain ⟨old, hold, rfl⟩ := mem_update.mp h
    by_cases hkey : key old = key new
    · exact Or.inr (Or.inl ⟨old, hold, hkey, by simp [hkey]⟩)
    · exact Or.inl (by simpa [hkey] using hold)
  · rename_i hany
    rcases List.mem_append.mp h with hr | hr
    · refine Or.inl ⟨hr, fun hkey => hany ?_⟩
      exact List.any_eq_true.mpr ⟨r, hr, decide_eq_true hkey⟩
    · exact Or.inr (Or.inr (List.mem_singleton.mp hr))

/-- Where the keys differ from `k`, an update at `k` does nothing. -/
theorem update_of_ne {merge : α → α} {rows : List α} {k : κ} (h : ∀ r ∈ rows, key r ≠ k) :
    update (fun r => decide (key r = k)) merge rows = rows := by
  unfold update
  conv_rhs => rw [← List.map_id rows]
  refine List.map_congr_left (fun r hr => ?_)
  simp [h r hr]

/-- A column that `merge` adds up grows by the value of the new row. -/
theorem sum_upsert {new : α} {merge : α → α} {f : α → ℕ} (hf : ∀ r, f (merge r) = f r + f new)
    {rows : List α} (hnd : (rows.map key).Nodup) :
    ((upsert key new merge rows).map f).sum = (rows.map f).sum + f new := by
  rw [upsert]
  split
  · rename_i hany
    -- down to the one row with the key
    induction rows with
    | nil => exact absurd hany (by simp)
    | cons r rows ih =>
      rw [List.map_cons, List.nodup_cons] at hnd
      by_cases hkey : key r = key new
      · -- the keys are distinct, so no other row is merged
        have hrest : ∀ r' ∈ rows, key r' ≠ key new := by
          intro r' hr' hk
          exact hnd.1 (List.mem_map.mpr ⟨r', hr', hk.trans hkey.symm⟩)
        have hcons : update (fun r => decide (key r = key new)) merge (r :: rows)
            = merge r :: update (fun r => decide (key r = key new)) merge rows := by
          simp [update, hkey]
        rw [hcons, update_of_ne hrest, List.map_cons, List.map_cons, List.sum_cons, List.sum_cons,
          hf]
        omega
      · have hany' : rows.any (fun r => decide (key r = key new)) = true := by
          simpa [hkey] using hany
        have hcons : update (fun r => decide (key r = key new)) merge (r :: rows)
            = r :: update (fun r => decide (key r = key new)) merge rows := by
          simp [update, hkey]
        rw [hcons, List.map_cons, List.map_cons, List.sum_cons, List.sum_cons, ih hnd.2 hany']
        omega
  · simp

/-! ### `INSERT … ON CONFLICT DO NOTHING` -/

variable (key)

/-- Insert the new rows whose key is not there yet. -/
def insertMissing (new rows : List α) : List α :=
  new.foldl (fun rows r => upsert key r id rows) rows

variable {key}

theorem upsert_id_of_mem {new : α} {rows : List α} (h : key new ∈ rows.map key) :
    upsert key new id rows = rows := by
  obtain ⟨r, hr, hk⟩ := List.mem_map.mp h
  rw [upsert, if_pos (List.any_eq_true.mpr ⟨r, hr, decide_eq_true hk⟩), update]
  simp

theorem upsert_id_of_not_mem {new : α} {rows : List α} (h : key new ∉ rows.map key) :
    upsert key new id rows = rows ++ [new] := by
  rw [upsert, if_neg]
  intro hany
  obtain ⟨r, hr, hk⟩ := List.any_eq_true.mp hany
  exact h (List.mem_map.mpr ⟨r, hr, of_decide_eq_true hk⟩)

/-- No row is lost. -/
theorem subset_insertMissing (new rows : List α) : rows ⊆ insertMissing key new rows := by
  unfold insertMissing
  induction new generalizing rows with
  | nil => exact List.Subset.refl _
  | cons r new ih =>
    refine List.Subset.trans ?_ (ih (upsert key r id rows))
    by_cases hr : key r ∈ rows.map key
    · rw [upsert_id_of_mem hr]
      exact List.Subset.refl _
    · rw [upsert_id_of_not_mem hr]
      exact List.subset_append_left _ _

/-- A row after the insert was there, or it is new and no row had its key. -/
theorem mem_insertMissing {new rows : List α} {r : α} (h : r ∈ insertMissing key new rows) :
    r ∈ rows ∨ r ∈ new ∧ key r ∉ rows.map key := by
  unfold insertMissing at h
  induction new generalizing rows with
  | nil => exact Or.inl h
  | cons x new ih =>
    rw [List.foldl_cons] at h
    by_cases hx : key x ∈ rows.map key
    · rw [upsert_id_of_mem hx] at h
      exact (ih h).imp_right fun hr => ⟨List.mem_cons_of_mem _ hr.1, hr.2⟩
    · rw [upsert_id_of_not_mem hx] at h
      rcases ih h with hr | ⟨hr, hfresh⟩
      · rcases List.mem_append.mp hr with hr | hr
        · exact Or.inl hr
        · obtain rfl := List.mem_singleton.mp hr
          exact Or.inr ⟨List.mem_cons_self, hx⟩
      · refine Or.inr ⟨List.mem_cons_of_mem _ hr, fun hk => hfresh ?_⟩
        rw [List.map_append]
        exact List.mem_append_left _ hk

/-- Every key is there afterwards. -/
theorem key_mem_insertMissing {new rows : List α} {k : κ} :
    k ∈ (insertMissing key new rows).map key ↔ k ∈ rows.map key ∨ k ∈ new.map key := by
  unfold insertMissing
  induction new generalizing rows with
  | nil => simp
  | cons r new ih =>
    rw [List.foldl_cons, ih, List.map_cons, List.mem_cons]
    by_cases hr : key r ∈ rows.map key
    · rw [upsert_id_of_mem hr]
      constructor
      · exact Or.imp_right Or.inr
      · rintro (h | rfl | h)
        · exact Or.inl h
        · exact Or.inl hr
        · exact Or.inr h
    · rw [upsert_id_of_not_mem hr, List.map_append, List.map_singleton, List.mem_append,
        List.mem_singleton, or_assoc]

/-- Inserting what is there does nothing. -/
theorem insertMissing_of_mem {new rows : List α} (h : ∀ r ∈ new, key r ∈ rows.map key) :
    insertMissing key new rows = rows := by
  unfold insertMissing
  induction new with
  | nil => rfl
  | cons r new ih =>
    rw [List.forall_mem_cons] at h
    rw [List.foldl_cons, upsert_id_of_mem h.1]
    exact ih h.2

section Filter

variable {p : α → Bool} {new : α} {merge : α → α}

/-- A selection that `merge` respects commutes with an update. -/
theorem filter_update (q : α → Bool) (hp : ∀ r, p (merge r) = p r) (rows : List α) :
    (update q merge rows).filter p = update q merge (rows.filter p) := by
  rw [update, update, List.filter_map]
  congr 2
  funext r
  simp only [Function.comp_apply]
  split
  · exact hp r
  · rfl

/-- An upsert of a selected row, seen through the selection. -/
theorem filter_upsert_of_pos (hp : ∀ r, p (merge r) = p r)
    (hkey : ∀ r, key r = key new → p r = true) (rows : List α) :
    (upsert key new merge rows).filter p = upsert key new merge (rows.filter p) := by
  -- the selection does not hide a conflict, so both sides take the same branch
  have hany : (rows.filter p).any (fun r => decide (key r = key new))
      = rows.any (fun r => decide (key r = key new)) := by
    rw [Bool.eq_iff_iff, List.any_eq_true, List.any_eq_true]
    constructor
    · rintro ⟨r, hr, hk⟩
      exact ⟨r, (List.mem_filter.mp hr).1, hk⟩
    · rintro ⟨r, hr, hk⟩
      exact ⟨r, List.mem_filter.mpr ⟨hr, hkey r (of_decide_eq_true hk)⟩, hk⟩
  rw [upsert, upsert, hany]
  split
  · exact filter_update _ hp rows
  · simp [hkey new rfl]

/-- An upsert of a row that is not selected does not show. -/
theorem filter_upsert_of_neg (hp : ∀ r, p (merge r) = p r)
    (hkey : ∀ r, key r = key new → p r = false) (rows : List α) :
    (upsert key new merge rows).filter p = rows.filter p := by
  rw [upsert]
  split
  · rw [filter_update _ hp]
    refine update_of_ne (fun r hr hk => ?_)
    have hsel := (List.mem_filter.mp hr).2
    rw [hkey r hk] at hsel
    exact Bool.noConfusion hsel
  · simp [hkey new rfl]

end Filter

end Table
