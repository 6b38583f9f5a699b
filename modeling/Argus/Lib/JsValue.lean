import Argus.Lib.JsNumber

/-!
# JSON values in a running program

What `JSON.parse` gives: the values a program reads fields of, converts and sends on.  A
missing field is `undefined`, `none` here.

* `Fields` — the fields of an object: reading one, `{ ...fs, k: v }` (`set`), the rest
  pattern without one (`without`), `{ ...fs, ...gs }` (`spread`).
* `JsValue` — the values; `truthy`, `toText` (`String(v)`) and `toNumber` (`Number(v)`), which
  fail where the conversion throws.
-/

/-! ### Fields -/

abbrev Fields (α : Type*) := List (String × α)

namespace Fields

variable {α : Type*}

/-- No field twice, as in every object. -/
def WF (fs : Fields α) : Prop := (fs.map Prod.fst).Nodup

instance (fs : Fields α) : Decidable fs.WF := inferInstanceAs (Decidable (List.Nodup _))

/-- `fs[k]`. -/
def get (fs : Fields α) (k : String) : Option α := fs.lookup k

/-- `{ ...fs, [k]: v }`: a field that is there keeps its place. -/
def set (fs : Fields α) (k : String) (v : α) : Fields α :=
  if fs.any (fun f => f.1 == k) then fs.map (fun f => if f.1 == k then (k, v) else f)
  else fs ++ [(k, v)]

/-- `const { [k]: _, ...rest } = fs`. -/
def without (fs : Fields α) (k : String) : Fields α := fs.filter (fun f => f.1 != k)

/-- `{ ...fs, ...gs }`. -/
def spread (fs gs : Fields α) : Fields α := gs.foldl (fun acc f => acc.set f.1 f.2) fs

@[simp] theorem get_nil (k : String) : get ([] : Fields α) k = none := rfl

theorem get_cons (f : String × α) (fs : Fields α) (k : String) :
    get (f :: fs) k = if k = f.1 then some f.2 else get fs k := by
  rw [get, List.lookup_cons]
  by_cases h : k = f.1
  · rw [if_pos h, beq_iff_eq.mpr h]
  · rw [if_neg h, beq_eq_false_iff_ne.mpr h, get]

theorem mem_of_get {fs : Fields α} {k : String} {v : α} (h : fs.get k = some v) : (k, v) ∈ fs := by
  induction fs with
  | nil => cases h
  | cons f fs ih =>
    rw [get_cons] at h
    split at h
    · next heq =>
      obtain rfl := Option.some.inj h
      rw [heq]
      exact List.mem_cons_self
    · exact List.mem_cons_of_mem f (ih h)

theorem get_eq_none_iff {fs : Fields α} {k : String} :
    fs.get k = none ↔ ∀ f ∈ fs, f.1 ≠ k := by
  induction fs with
  | nil => simp
  | cons f fs ih =>
    rw [get_cons, List.forall_mem_cons, ← ih]
    by_cases h : k = f.1
    · simp [h]
    · simp [h, Ne.symm h]

theorem get_of_mem {fs : Fields α} (hwf : fs.WF) {k : String} {v : α} (h : (k, v) ∈ fs) :
    fs.get k = some v := by
  induction fs with
  | nil => cases h
  | cons f fs ih =>
    rw [WF, List.map_cons, List.nodup_cons] at hwf
    rw [get_cons]
    rcases List.mem_cons.mp h with rfl | hmem
    · simp
    · have hne : k ≠ f.1 := fun heq => hwf.1 (heq ▸ List.mem_map_of_mem hmem)
      rw [if_neg hne]
      exact ih hwf.2 hmem

theorem get_map {β : Type*} (g : String → α → β) (fs : Fields α) (k : String) :
    get (fs.map (fun f => (f.1, g f.1 f.2))) k = (fs.get k).map (g k) := by
  induction fs with
  | nil => rfl
  | cons f fs ih =>
    rw [List.map_cons, get_cons, get_cons, ih]
    split
    · next h => rw [h, Option.map_some]
    · rfl

theorem get_append (fs gs : Fields α) (k : String) :
    get (fs ++ gs) k = (fs.get k).or (gs.get k) := by
  induction fs with
  | nil => rfl
  | cons f fs ih =>
    rw [List.cons_append, get_cons, get_cons, ih]
    split <;> rfl

theorem get_without (fs : Fields α) (k j : String) :
    (fs.without k).get j = if j = k then none else fs.get j := by
  induction fs with
  | nil => simp [without]
  | cons f fs ih =>
    rw [without] at ih ⊢
    rw [List.filter_cons]
    by_cases hf : f.1 = k
    · rw [if_neg (by simp [hf]), ih, get_cons]
      split
      · rfl
      · next hj => rw [if_neg (fun h => hj (h.trans hf))]
    · rw [if_pos (by simp [hf]), get_cons, get_cons, ih]
      split
      · next hj => rw [if_neg (fun h => hf (hj.symm.trans h))]
      · rfl

/-- A field that is there, changed at its place. -/
private theorem get_map_set (fs : Fields α) (k j : String) (v : α) :
    get (fs.map (fun f => if f.1 == k then (k, v) else f)) j
      = if j = k then (fs.get k).map (fun _ => v) else fs.get j := by
  induction fs with
  | nil => simp
  | cons f fs ih =>
    rw [List.map_cons, get_cons, get_cons, get_cons, ih]
    by_cases hf : f.1 = k
    · rw [if_pos (beq_iff_eq.mpr hf), if_pos hf.symm, hf]
      by_cases hj : j = k
      · rw [if_pos hj, if_pos hj, Option.map_some]
      · rw [if_neg hj, if_neg hj, if_neg hj, if_neg hj]
    · have hbeq : (f.1 == k) = false := beq_eq_false_iff_ne.mpr hf
      simp only [hbeq, Bool.false_eq_true, if_false, if_neg (Ne.symm hf)]
      by_cases hj : j = f.1
      · rw [if_pos hj, if_pos hj, if_neg (fun h => hf (hj.symm.trans h))]
      · rw [if_neg hj, if_neg hj]

theorem get_set (fs : Fields α) (k j : String) (v : α) :
    (fs.set k v).get j = if j = k then some v else fs.get j := by
  unfold set
  split
  · next hany =>
    have hsome : fs.get k ≠ none := by
      rw [Ne, get_eq_none_iff]
      intro hall
      obtain ⟨f, hf, heq⟩ := List.any_eq_true.mp hany
      exact hall f hf (beq_iff_eq.mp heq)
    obtain ⟨w, hw⟩ := Option.ne_none_iff_exists'.mp hsome
    rw [get_map_set, hw, Option.map_some]
  · next hany =>
    have hnone : fs.get k = none := by
      rw [get_eq_none_iff]
      intro f hf heq
      exact hany (List.any_eq_true.mpr ⟨f, hf, by simpa using heq⟩)
    rw [get_append, get_cons, get_nil]
    split
    · next hj => rw [hj, hnone, Option.none_or]
    · rw [Option.or_none]

theorem mem_set {fs : Fields α} {k : String} {v : α} {f : String × α} (h : f ∈ fs.set k v) :
    f = (k, v) ∨ f ∈ fs := by
  unfold set at h
  split at h
  · obtain ⟨g, hg, rfl⟩ := List.mem_map.mp h
    split
    · exact .inl rfl
    · exact .inr hg
  · rcases List.mem_append.mp h with h | h
    · exact .inr h
    · exact .inl (List.mem_singleton.mp h)

theorem map_fst_set (fs : Fields α) (k : String) (v : α) :
    (fs.set k v).map Prod.fst
      = if fs.any (fun f => f.1 == k) then fs.map Prod.fst else fs.map Prod.fst ++ [k] := by
  unfold set
  split
  · rw [List.map_map]
    apply List.map_congr_left
    intro f _
    show (if f.1 == k then (k, v) else f).1 = f.1
    split
    · next h => exact (beq_iff_eq.mp h).symm
    · rfl
  · rw [List.map_append]
    rfl

theorem WF.set {fs : Fields α} (h : fs.WF) (k : String) (v : α) : (fs.set k v).WF := by
  rw [WF, map_fst_set]
  split
  · exact h
  · next hany =>
    rw [List.perm_append_comm.nodup_iff, List.singleton_append, List.nodup_cons]
    refine ⟨fun hk => ?_, h⟩
    obtain ⟨f, hf, heq⟩ := List.mem_map.mp hk
    exact hany (List.any_eq_true.mpr ⟨f, hf, by simpa using heq⟩)

theorem WF.without {fs : Fields α} (h : fs.WF) (k : String) : (fs.without k).WF :=
  (List.filter_sublist.map Prod.fst).nodup h

theorem WF.spread {fs : Fields α} (h : fs.WF) (gs : Fields α) : (fs.spread gs).WF := by
  unfold Fields.spread
  induction gs generalizing fs with
  | nil => exact h
  | cons g gs ih => exact ih (h.set g.1 g.2)

theorem get_spread (fs : Fields α) {gs : Fields α} (hgs : gs.WF) (k : String) :
    (fs.spread gs).get k = (gs.get k).or (fs.get k) := by
  unfold spread
  induction gs generalizing fs with
  | nil => rfl
  | cons g gs ih =>
    rw [WF, List.map_cons, List.nodup_cons] at hgs
    rw [List.foldl_cons, ih (fs.set g.1 g.2) hgs.2, get_cons, get_set]
    split
    · next hk =>
      have hnone : get gs k = none := by
        rw [get_eq_none_iff]
        intro f hf heq
        exact hgs.1 (hk ▸ heq ▸ List.mem_map_of_mem hf)
      rw [hnone, Option.none_or, Option.some_or]
    · rfl

end Fields

inductive JsValue
  | null
  | bool (b : Bool)
  | num (x : Double)
  | str (s : String)
  | arr (xs : List JsValue)
  | obj (fields : List (String × JsValue))

namespace JsValue

def isNull : JsValue → Bool
  | .null => true
  | _ => false

theorem isNull_eq_true {v : JsValue} : v.isNull = true ↔ v = .null := by
  cases v <;> simp [isNull]

/-- `if (v)`, for a field that may be missing. -/
def truthy : Option JsValue → Bool
  | none | some .null => false
  | some (.bool b) => b
  | some (.num x) => x.val != 0
  | some (.str s) => s != ""
  | some (.arr _) | some (.obj _) => true

mutual

/-- `String(v)`.  An object with a field of the name `toString` hides the method, and the
    conversion throws. -/
def toText : JsValue → Option String
  | .null => some "null"
  | .bool b => some (if b then "true" else "false")
  | .num x => some (JsNumber.toText (.fin x))
  | .str s => some s
  | .arr xs => (joinTexts xs).map (String.intercalate ",")
  | .obj fields => if fields.any (fun f => f.1 == "toString") then none else some "[object Object]"

/-- The texts `Array.prototype.join` puts together; `null` is left blank. -/
def joinTexts : List JsValue → Option (List String)
  | [] => some []
  | .null :: xs => (joinTexts xs).map ("" :: ·)
  | x :: xs => (toText x).bind (fun t => (joinTexts xs).map (t :: ·))

end

/-- `Number(v)`. -/
def toNumber : JsValue → Option JsNumber
  | .null => some (.ofRat 0)
  | .bool b => some (.ofRat (if b then 1 else 0))
  | .num x => some (.fin x)
  | .str s => some (.ofText s)
  | .arr xs => (toText (.arr xs)).map .ofText
  | .obj fields => (toText (.obj fields)).map .ofText

/-- `Number(undefined)` is `NaN`. -/
def fieldNumber : Option JsValue → Option JsNumber
  | none => some .nan
  | some v => v.toNumber

theorem fieldNumber_some (v : JsValue) : fieldNumber (some v) = v.toNumber := rfl

end JsValue
