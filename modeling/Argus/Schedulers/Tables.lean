import Argus.Lib.Comparators
import Argus.Lib.Filling
import Argus.Lib.Segments
import Argus.Schedulers.Snmp
import Argus.Schedulers.SnmpValues

namespace Argus.Schedulers

open Comparators Filling

/-!
# SNMP tables

A table of a profile is walked as one subtree.  The varbinds go into rows by what follows the number
of the column in their object identifiers, cells that the walk has left out are asked for one after
another, and the rows are sorted.

* `slot`, `byRow` — the cell that a varbind is for, and the rows after the walk.
* `collectTable` — the table; `rowOrder` are the indexes of its rows.
* `byRow_cells`, `fill_cells`, `getTyped_eq` — what is in a cell.
* `rowCompare` — numbers by their value and all other indexes by their texts, which is no order of
  numbers among the others.
* `assembled_iff` — the order of the varbinds makes no difference exactly where it is one.
-/

/-! ### Object identifiers -/

/-- The text of an object identifier. -/
abbrev OidText := List Char

theorem lawfulBEq_oidText : LawfulBEq OidText := inferInstance

attribute [local instance] lawfulBEq_oidText

/-- The numbers of an object identifier have 32 bits. -/
structure Varbind where
  oid : List UInt32
  type : ℕ
  value : SnmpValue
deriving DecidableEq

def dotted (oid : List UInt32) : OidText :=
  ['.'].intercalate (oid.map fun n => Nat.toDigits 10 n.toNat)

/-- `oid.replace(/^\./, "")`. -/
def stripDot : OidText → OidText
  | '.' :: o => o
  | o => o

/-- `OID_RE`. -/
def isOid (o : OidText) : Bool :=
  ((stripDot o).splitOn '.').all fun s => !s.isEmpty && s.all Char.isDigit

/-- `Number(s)`. -/
def numberOf (s : OidText) : JsNumber := .ofChars (JsText.trimChars s)

/-- `localeCompare`, for texts of digits and points: a point is before every digit. -/
def localeCompare (s t : OidText) : Ordering :=
  if s < t then .lt else if t < s then .gt else .eq

/-! ### Tables -/

structure SnmpProfileTableCol where
  label : String
  col : JsNumber
  unit : Option String := none
  enum : List (String × String) := []

structure SnmpProfileTable where
  name : String
  oid : OidText
  columns : List SnmpProfileTableCol

/-- An `SnmpTable`, with its name. -/
structure NamedTable extends SnmpTable where
  name : String
deriving DecidableEq

namespace SnmpProfileTable

variable (t : SnmpProfileTable)

def cols : List SnmpProfileTableCol :=
  t.columns.filter fun c => isOid (t.oid ++ '.' :: c.col.toChars)

def base : OidText := stripDot t.oid

/-- The object identifier of a cell. -/
def cellOid (row : OidText) (col : JsNumber) : OidText :=
  t.base ++ '.' :: (col.toChars ++ '.' :: row)

/-- The cell that a varbind is for, if it is in a wanted column. -/
def slot (vb : Varbind) : Option (OidText × JsNumber) :=
  let o := stripDot (dotted vb.oid)
  if (t.base ++ ['.']).isPrefixOf o then
    let rest := o.drop (t.base.length + 1)
    if '.' ∈ rest then
      let col := numberOf (rest.takeWhile (· ≠ '.'))
      if col ∈ t.cols.map (·.col) then some ((rest.dropWhile (· ≠ '.')).drop 1, col) else none
    else none
  else none

end SnmpProfileTable

/-- The map `byRow`, with its keys as they came. -/
structure ByRow where
  rows : List OidText := []
  cells : OidText × JsNumber → Option Varbind := fun _ => none

/-- `byRow.set(row, new Map())`, unless there is one. -/
def ByRow.addRow (b : ByRow) (row : OidText) : List OidText :=
  if row ∈ b.rows then b.rows else b.rows ++ [row]

/-! ### The walk -/

section Collect

variable (isVarbindError : Varbind → Bool) (get : List OidText → Option (List Varbind))
variable (sort : (OidText → OidText → Ordering) → List OidText → List OidText)
variable (t : SnmpProfileTable)

/-- `walkCol`, given what the subtree has fed. -/
def walkCol (walked : List Varbind) : List Varbind := walked.filter fun vb => !isVarbindError vb

/-- What the loop does to the rows for a varbind of the walk. -/
def bucket (b : ByRow) (vb : Varbind) : ByRow where
  rows := match t.slot vb with
    | none => b.rows
    | some (row, _) => b.addRow row
  cells := assign t.slot b.cells vb

def byRow (walked : List Varbind) : ByRow :=
  (walkCol isVarbindError walked).foldl (bucket t) {}

/-- The GETs of 20 object identifiers at a time. -/
def chunks : List OidText → List (List OidText)
  | [] => []
  | o :: oids => (o :: oids).take 20 :: chunks ((o :: oids).drop 20)
termination_by oids => oids.length
decreasing_by
  rw [List.length_drop, List.length_cons]
  omega

/-- `getTyped`: `get` has the varbinds of an answer, or none for an error. -/
def getTyped (oids : List OidText) : OidText → Option Varbind :=
  (((chunks oids).flatMap fun chunk => (get chunk).getD []).filter
    fun vb => !isVarbindError vb).foldl (assign fun vb => some (stripDot (dotted vb.oid)))
      fun _ => none

/-- The cells that are still to be asked for. -/
def missing (b : ByRow) : List OidText :=
  b.rows.flatMap fun row =>
    (t.cols.filter fun c => (b.cells (row, c.col)).isNone).map fun c => t.cellOid row c.col

/-- What the loop over the cells does to one that is missing: it takes what `got` has. -/
def fillCell (got : OidText → Option Varbind) (cells : OidText × JsNumber → Option Varbind)
    (cell : OidText × SnmpProfileTableCol) : OidText × JsNumber → Option Varbind :=
  match cells (cell.1, cell.2.col), got (t.cellOid cell.1 cell.2.col) with
  | none, some vb => Function.update cells (cell.1, cell.2.col) (some vb)
  | _, _ => cells

def fill (b : ByRow) : OidText × JsNumber → Option Varbind :=
  if (missing t b).isEmpty then b.cells
  else
    (b.rows.product t.cols).foldl (fillCell t (getTyped isVarbindError get (missing t b))) b.cells

/-- The comparator of the rows: `(Number(a) - Number(b)) || a.localeCompare(b)`. -/
def rowCompare (a b : OidText) : Ordering :=
  let d := JsNumber.sub (numberOf a) (numberOf b)
  if d = .nan ∨ d = .ofRat 0 then localeCompare a b
  else if d.isNegative then .lt else .gt

/-- The row indexes of a table, in the order of its rows. -/
def rowOrder (walked : List Varbind) : List OidText :=
  sort rowCompare (byRow isVarbindError t walked).rows

def renderVarbind (c : SnmpProfileTableCol) : Option Varbind → String
  | none => ""
  | some vb => renderCell vb.type vb.value c.unit c.enum

def collectTable (walked : List Varbind) : NamedTable where
  name := t.name
  headers := t.cols.map (·.label)
  rows :=
    let cells := fill isVarbindError get t (byRow isVarbindError t walked)
    (rowOrder isVarbindError sort t walked).map fun row =>
      t.cols.map fun c => renderVarbind c (cells (row, c.col))

/-! ### Faithful tables -/

/-- The varbinds are a set: there is one of an object identifier. -/
def OneEach (walked : List Varbind) : Prop :=
  ∀ v ∈ walked, ∀ v' ∈ walked, v.oid = v'.oid → v = v'

instance (walked : List Varbind) : Decidable (OneEach walked) :=
  inferInstanceAs (Decidable (∀ v ∈ walked, ∀ v' ∈ walked, v.oid = v'.oid → v = v'))

/-- The GET of an object identifier has its own answer or fails, whatever else is asked for. -/
structure Answers (answer : OidText → Option Varbind) : Prop where
  mem : ∀ chunk vb, vb ∈ (get chunk).getD [] ↔ ∃ o ∈ chunk, answer o = some vb
  named : ∀ o vb, answer o = some vb → stripDot (dotted vb.oid) = o

/-- The varbind of a cell: the one that was walked, or else the answer to the GET. -/
def cellVarbind (walked : List Varbind) (answer : OidText → Option Varbind) (row : OidText)
    (col : JsNumber) : Option Varbind :=
  ((walkCol isVarbindError walked).find? fun vb => decide (t.slot vb = some (row, col))).or
    ((answer (t.cellOid row col)).filter fun vb => !isVarbindError vb)

/-- One row for every index that the walk has in a wanted column, with the right cells, and all of
    it in whatever order the varbinds come. -/
structure AssembledFaithfully (walked : List Varbind) (answer : OidText → Option Varbind) :
    Prop where
  nodup : (rowOrder isVarbindError sort t walked).Nodup
  mem : ∀ row, row ∈ rowOrder isVarbindError sort t walked ↔
    ∃ vb ∈ walkCol isVarbindError walked, ∃ col, t.slot vb = some (row, col)
  rows : (collectTable isVarbindError get sort t walked).rows
    = (rowOrder isVarbindError sort t walked).map fun row =>
      t.cols.map fun c => renderVarbind c (cellVarbind isVarbindError t walked answer row c.col)
  perm : ∀ walked', walked'.Perm walked →
    rowOrder isVarbindError sort t walked' = rowOrder isVarbindError sort t walked ∧
      collectTable isVarbindError get sort t walked' = collectTable isVarbindError get sort t walked

end Collect

/-! ### Slots -/

theorem isDigit_toDigits (n : ℕ) : ∀ c ∈ Nat.toDigits 10 n, c.isDigit = true :=
  fun _ hc => Nat.isDigit_of_mem_toDigits (by decide) (by decide) hc

theorem point_notMem_toDigits (n : ℕ) : '.' ∉ Nat.toDigits 10 n := by
  intro hmem
  have hpoint := isDigit_toDigits n '.' hmem
  revert hpoint
  decide

theorem stripDot_toDigits (n : ℕ) (rest : OidText) :
    stripDot (Nat.toDigits 10 n ++ rest) = Nat.toDigits 10 n ++ rest := by
  obtain ⟨d, ds, hds⟩ := List.exists_cons_of_ne_nil (Nat.toDigits_ne_nil (b := 10) (n := n))
  have hd : d ≠ '.' := by
    rintro rfl
    exact point_notMem_toDigits n (hds ▸ List.mem_cons_self)
  rw [hds, List.cons_append, stripDot]
  intro o heq
  exact hd (List.cons.inj heq).1

theorem stripDot_dotted (oid : List UInt32) : stripDot (dotted oid) = dotted oid := by
  rw [dotted]
  cases oid with
  | nil => rfl
  | cons n oid =>
    cases oid with
    | nil =>
      have h := stripDot_toDigits n.toNat []
      rw [List.append_nil] at h
      rw [List.map_singleton, List.intercalate_singleton]
      exact h
    | cons m oid =>
      rw [List.map_cons, List.map_cons, List.intercalate_cons_cons, List.append_assoc]
      exact stripDot_toDigits n.toNat _

/-- The numbers of an object identifier stand between its points. -/
theorem splitOn_dotted {oid : List UInt32} (h : oid ≠ []) :
    (dotted oid).splitOn '.' = oid.map fun n => Nat.toDigits 10 n.toNat := by
  apply List.splitOn_intercalate
  · intro l hl
    obtain ⟨n, -, rfl⟩ := List.mem_map.mp hl
    exact point_notMem_toDigits n.toNat
  · simpa using h

theorem toDigits_inj {m n : ℕ} (h : Nat.toDigits 10 m = Nat.toDigits 10 n) : m = n := by
  rw [← Nat.ofDigitChars_toDigits (b := 10) (n := m) (by decide) (by decide), h,
    Nat.ofDigitChars_toDigits (by decide) (by decide)]

theorem dotted_eq_nil {oid : List UInt32} (h : dotted oid = []) : oid = [] := by
  by_contra hne
  have hsplit := splitOn_dotted hne
  rw [h] at hsplit
  cases oid with
  | nil => exact hne rfl
  | cons n oid =>
    have hnil : [] = Nat.toDigits 10 n.toNat := (List.cons.inj hsplit).1
    exact Nat.toDigits_ne_nil hnil.symm

theorem dotted_inj {oid oid' : List UInt32} (h : dotted oid = dotted oid') : oid = oid' := by
  by_cases hne : oid = []
  · subst hne
    exact (dotted_eq_nil h.symm).symm
  by_cases hne' : oid' = []
  · subst hne'
    exact dotted_eq_nil h
  have hmap : (oid.map fun n => Nat.toDigits 10 n.toNat)
      = oid'.map fun n => Nat.toDigits 10 n.toNat := by
    rw [← splitOn_dotted hne, h, splitOn_dotted hne']
  refine List.map_injective_iff.mpr ?_ hmap
  intro m n hmn
  exact UInt32.toNat_inj.mp (toDigits_inj hmn)

theorem numberOf_toDigits (n : ℕ) : numberOf (Nat.toDigits 10 n) = .ofRat n := by
  rw [numberOf, JsNumber.ofChars_digits (isDigit_toDigits n) Nat.toDigits_ne_nil,
    Nat.ofDigitChars_toDigits (by decide) (by decide)]

/-- Different numbers of 32 bits are different numbers. -/
theorem numberOf_inj {m n : UInt32}
    (h : numberOf (Nat.toDigits 10 m.toNat) = numberOf (Nat.toDigits 10 n.toNat)) : m = n := by
  have hbound : ∀ k : UInt32, |(k.toNat : ℤ)| ≤ 2 ^ 53 := by
    intro k
    have hlt := k.toNat_lt
    rw [abs_of_nonneg (Int.natCast_nonneg _)]
    omega
  have hval : ∀ k : UInt32,
      numberOf (Nat.toDigits 10 k.toNat) = .fin (.ofInt k.toNat (hbound k)) := by
    intro k
    rw [numberOf_toDigits, ← JsNumber.ofRat_intCast, Int.cast_natCast]
  rw [hval, hval] at h
  have hcast := congrArg Double.val (JsNumber.fin.inj h)
  simp only [Double.ofInt, Int.cast_natCast, Nat.cast_inj] at hcast
  exact UInt32.toNat_inj.mp hcast

variable {t : SnmpProfileTable}

/-- What stands in front of a point, and what behind it. -/
theorem takeWhile_append_point {o : OidText} (h : '.' ∈ o) :
    o.takeWhile (· ≠ '.') ++ '.' :: (o.dropWhile (· ≠ '.')).drop 1 = o := by
  have hne : o.dropWhile (· ≠ '.') ≠ [] := by
    intro hnil
    have hall := List.dropWhile_eq_nil_iff.mp hnil '.' h
    simp at hall
  obtain ⟨c, rest, hcons⟩ := List.exists_cons_of_ne_nil hne
  have hc : c = '.' := by
    have hhead := List.head_dropWhile_not (fun c => decide (c ≠ '.')) hne
    simp only [hcons, List.head_cons] at hhead
    simpa using hhead
  have hsplit : o.takeWhile (· ≠ '.') ++ o.dropWhile (· ≠ '.') = o :=
    List.takeWhile_append_dropWhile
  rw [hcons, hc] at hsplit
  rw [hcons, List.drop_one, List.tail_cons]
  exact hsplit

/-- The number between two points of an object identifier. -/
theorem mem_of_dotted_eq {oid : List UInt32} {x d y : OidText} (hd : '.' ∉ d)
    (h : dotted oid = x ++ '.' :: (d ++ '.' :: y)) : ∃ n : UInt32, d = Nat.toDigits 10 n.toNat := by
  have hne : oid ≠ [] := by
    rintro rfl
    cases x with
    | nil => cases h
    | cons c x => cases h
  have hsplit := splitOn_dotted hne
  rw [h, List.splitOn_append_cons_self, List.splitOn_append_cons_self,
    List.splitOn_eq_singleton hd] at hsplit
  have hmem : d ∈ oid.map fun n => Nat.toDigits 10 n.toNat := by
    rw [← hsplit]
    exact List.mem_append_right _ List.mem_cons_self
  obtain ⟨n, -, hn⟩ := List.mem_map.mp hmem
  exact ⟨n, hn.symm⟩

/-- The object identifier of a varbind in a cell. -/
theorem slot_eq_some {vb : Varbind} {row : OidText} {col : JsNumber}
    (h : t.slot vb = some (row, col)) :
    ∃ n : UInt32, col = numberOf (Nat.toDigits 10 n.toNat) ∧
      dotted vb.oid = t.base ++ '.' :: (Nat.toDigits 10 n.toNat ++ '.' :: row) := by
  simp only [SnmpProfileTable.slot, stripDot_dotted] at h
  split at h
  · rename_i hbase
    split at h
    · rename_i hpoint
      split at h
      · obtain ⟨hrow, hcol⟩ := Prod.mk.inj (Option.some.inj h)
        have hoid := List.prefix_iff_eq_append.mp (List.isPrefixOf_iff_prefix.mp hbase)
        rw [List.length_append, List.length_singleton, List.append_assoc,
          List.singleton_append] at hoid
        rw [← takeWhile_append_point hpoint, hrow] at hoid
        have hnot : '.' ∉ ((dotted vb.oid).drop (t.base.length + 1)).takeWhile (· ≠ '.') := by
          intro hmem
          simpa using List.mem_takeWhile_imp hmem
        obtain ⟨n, hn⟩ := mem_of_dotted_eq hnot hoid.symm
        rw [hn] at hcol hoid
        exact ⟨n, hcol.symm, hoid.symm⟩
      · cases h
    · cases h
  · cases h

theorem slot_inj {v v' : Varbind} {s : OidText × JsNumber} (h : t.slot v = some s)
    (h' : t.slot v' = some s) : v.oid = v'.oid := by
  obtain ⟨row, col⟩ := s
  obtain ⟨n, hcol, hoid⟩ := slot_eq_some h
  obtain ⟨n', hcol', hoid'⟩ := slot_eq_some h'
  have hn : n = n' := numberOf_inj (hcol.symm.trans hcol')
  apply dotted_inj
  rw [hoid, hoid', hn]

/-! ### Rows -/

theorem mem_addRow {b : ByRow} {row row' : OidText} :
    row ∈ b.addRow row' ↔ row ∈ b.rows ∨ row = row' := by
  rw [ByRow.addRow]
  split
  · rename_i hmem
    refine ⟨Or.inl, ?_⟩
    rintro (h | rfl)
    · exact h
    · exact hmem
  · rw [List.mem_append, List.mem_singleton]

theorem nodup_addRow {b : ByRow} (h : b.rows.Nodup) (row : OidText) : (b.addRow row).Nodup := by
  rw [ByRow.addRow]
  split
  · exact h
  · rename_i hmem
    exact List.nodup_append.mpr ⟨h, List.nodup_singleton row, by
      rintro a ha b hb rfl
      exact hmem (List.mem_singleton.mp hb ▸ ha)⟩

theorem leading_addRow (b : ByRow) (row : OidText) : b.rows <+: b.addRow row := by
  rw [ByRow.addRow]
  split
  · exact List.prefix_rfl
  · exact List.prefix_append _ _

theorem mem_bucket {b : ByRow} {vb : Varbind} {row : OidText} :
    row ∈ (bucket t b vb).rows ↔ row ∈ b.rows ∨ ∃ col, t.slot vb = some (row, col) := by
  rw [bucket]
  cases h : t.slot vb with
  | none => simp
  | some s =>
    show row ∈ b.addRow s.1 ↔ _
    rw [mem_addRow]
    refine or_congr_right ?_
    constructor
    · rintro rfl
      exact ⟨s.2, rfl⟩
    · rintro ⟨col, hcol⟩
      rw [Option.some.inj hcol]

theorem mem_foldl_bucket {l : List Varbind} {b : ByRow} {row : OidText} :
    row ∈ (l.foldl (bucket t) b).rows
      ↔ row ∈ b.rows ∨ ∃ vb ∈ l, ∃ col, t.slot vb = some (row, col) := by
  induction l generalizing b with
  | nil => simp
  | cons vb l ih =>
    rw [List.foldl_cons, ih, mem_bucket, or_assoc]
    refine or_congr_right ?_
    simp only [List.mem_cons, exists_eq_or_imp]

theorem nodup_foldl_bucket {l : List Varbind} {b : ByRow} (h : b.rows.Nodup) :
    (l.foldl (bucket t) b).rows.Nodup := by
  induction l generalizing b with
  | nil => exact h
  | cons vb l ih =>
    apply ih
    rw [bucket]
    split
    · exact h
    · exact nodup_addRow h _

/-- Rows stay where they are. -/
theorem leading_foldl_bucket (l : List Varbind) (b : ByRow) :
    b.rows <+: (l.foldl (bucket t) b).rows := by
  induction l generalizing b with
  | nil => exact List.prefix_rfl
  | cons vb l ih =>
    refine List.IsPrefix.trans ?_ (ih (bucket t b vb))
    rw [bucket]
    split
    · exact List.prefix_rfl
    · exact leading_addRow b _

theorem foldl_bucket_cells (l : List Varbind) (b : ByRow) :
    (l.foldl (bucket t) b).cells = l.foldl (assign t.slot) b.cells := by
  induction l generalizing b with
  | nil => rfl
  | cons vb l ih => exact ih (bucket t b vb)

section Walk

variable {isVarbindError : Varbind → Bool} {walked walked' : List Varbind}

theorem mem_byRow {row : OidText} : row ∈ (byRow isVarbindError t walked).rows
    ↔ ∃ vb ∈ walkCol isVarbindError walked, ∃ col, t.slot vb = some (row, col) := by
  rw [byRow, mem_foldl_bucket]
  exact or_iff_right List.not_mem_nil

theorem nodup_byRow : (byRow isVarbindError t walked).rows.Nodup :=
  nodup_foldl_bucket List.nodup_nil

theorem mem_walkCol {vb : Varbind} :
    vb ∈ walkCol isVarbindError walked ↔ vb ∈ walked ∧ isVarbindError vb = false := by
  rw [walkCol, List.mem_filter, Bool.not_eq_true']

theorem byRow_perm (h : walked'.Perm walked) :
    (byRow isVarbindError t walked').rows.Perm (byRow isVarbindError t walked).rows := by
  rw [List.perm_ext_iff_of_nodup nodup_byRow nodup_byRow]
  intro row
  rw [mem_byRow, mem_byRow]
  simp only [mem_walkCol, h.mem_iff]

/-- Only one varbind of a set is for a cell. -/
theorem slot_unique (hset : OneEach walked) {s : OidText × JsNumber} :
    ∀ v ∈ walkCol isVarbindError walked, ∀ v' ∈ walkCol isVarbindError walked,
      decide (t.slot v = some s) = true → decide (t.slot v' = some s) = true → v = v' := by
  intro v hv v' hv' h h'
  apply hset v (mem_walkCol.mp hv).1 v' (mem_walkCol.mp hv').1
  exact slot_inj (of_decide_eq_true h) (of_decide_eq_true h')

theorem byRow_cells (hset : OneEach walked) (s : OidText × JsNumber) :
    (byRow isVarbindError t walked).cells s
      = (walkCol isVarbindError walked).find? fun vb => decide (t.slot vb = some s) := by
  rw [byRow, foldl_bucket_cells, foldl_assign, Option.or_none]
  exact find?_eq_of_unique (slot_unique hset) fun _ => List.mem_reverse

theorem find?_walkCol_perm (hset : OneEach walked) (h : walked'.Perm walked)
    (s : OidText × JsNumber) :
    ((walkCol isVarbindError walked').find? fun vb => decide (t.slot vb = some s))
      = (walkCol isVarbindError walked).find? fun vb => decide (t.slot vb = some s) := by
  apply find?_eq_of_unique (slot_unique hset)
  intro vb
  rw [mem_walkCol, mem_walkCol, h.mem_iff]

theorem OneEach.perm (hset : OneEach walked) (h : walked'.Perm walked) : OneEach walked' :=
  fun v hv v' hv' => hset v (h.mem_iff.mp hv) v' (h.mem_iff.mp hv')

end Walk

/-! ### Cells -/

theorem flatten_chunks (oids : List OidText) : (chunks oids).flatten = oids := by
  fun_induction chunks oids with
  | case1 => rfl
  | case2 o oids ih => rw [List.flatten_cons, ih, List.take_append_drop]

theorem mem_chunks {oids : List OidText} {o : OidText} :
    (∃ chunk ∈ chunks oids, o ∈ chunk) ↔ o ∈ oids := by
  rw [← List.mem_flatten, flatten_chunks]

section Get

variable {isVarbindError : Varbind → Bool} {get : List OidText → Option (List Varbind)}
variable {answer : OidText → Option Varbind}

/-- The varbinds that have come for these object identifiers. -/
theorem mem_answered (hget : Answers get answer) {oids : List OidText} {vb : Varbind} :
    vb ∈ ((chunks oids).flatMap fun chunk => (get chunk).getD []).filter
        (fun vb => !isVarbindError vb)
      ↔ ∃ o ∈ oids, (answer o).filter (fun vb => !isVarbindError vb) = some vb := by
  rw [List.mem_filter, List.mem_flatMap]
  constructor
  · rintro ⟨⟨chunk, hchunk, hvb⟩, herror⟩
    obtain ⟨o, ho, hanswer⟩ := (hget.mem chunk vb).mp hvb
    refine ⟨o, mem_chunks.mp ⟨chunk, hchunk, ho⟩, ?_⟩
    rw [hanswer, Option.filter_some, if_pos herror]
  · rintro ⟨o, ho, hanswer⟩
    obtain ⟨hsome, herror⟩ := Option.filter_eq_some_iff.mp hanswer
    obtain ⟨chunk, hchunk, hmem⟩ := mem_chunks.mpr ho
    exact ⟨⟨chunk, hchunk, (hget.mem chunk vb).mpr ⟨o, hmem, hsome⟩⟩, herror⟩

theorem getTyped_eq (hget : Answers get answer) {oids : List OidText} {o : OidText}
    (ho : o ∈ oids) :
    getTyped isVarbindError get oids o = (answer o).filter fun vb => !isVarbindError vb := by
  have hname : ∀ {o' vb}, (answer o').filter (fun vb => !isVarbindError vb) = some vb →
      stripDot (dotted vb.oid) = o' := fun h => hget.named _ _ (Option.filter_eq_some_iff.mp h).1
  rw [getTyped, foldl_assign, Option.or_none]
  cases hfind : List.find? _ (List.reverse _) with
  | none =>
    rw [List.find?_eq_none] at hfind
    symm
    rw [Option.eq_none_iff_forall_ne_some]
    intro vb hvb
    apply hfind vb (List.mem_reverse.mpr ((mem_answered hget).mpr ⟨o, ho, hvb⟩))
    exact decide_eq_true (congrArg some (hname hvb))
  | some vb =>
    have hmem := List.mem_reverse.mp (List.mem_of_find?_eq_some hfind)
    obtain ⟨o', -, hvb⟩ := (mem_answered hget).mp hmem
    have hkey := List.find?_some hfind
    have ho' : o' = o := (hname hvb).symm.trans (Option.some.inj (of_decide_eq_true hkey))
    rw [← ho', hvb]

theorem fillCell_apply (got : OidText → Option Varbind)
    (cells : OidText × JsNumber → Option Varbind) (cell : OidText × SnmpProfileTableCol)
    (s : OidText × JsNumber) :
    fillCell t got cells cell s
      = (cells s).or (if s = (cell.1, cell.2.col) then got (t.cellOid s.1 s.2) else none) := by
  rw [fillCell]
  cases hcell : cells (cell.1, cell.2.col) with
  | some vb =>
    show cells s = _
    by_cases hs : s = (cell.1, cell.2.col)
    · rw [hs, hcell, Option.some_or]
    · rw [if_neg hs, Option.or_none]
  | none =>
    cases hgot : got (t.cellOid cell.1 cell.2.col) with
    | none =>
      show cells s = _
      by_cases hs : s = (cell.1, cell.2.col)
      · rw [hs, if_pos rfl, hgot, Option.or_none]
      · rw [if_neg hs, Option.or_none]
    | some vb =>
      show Function.update cells (cell.1, cell.2.col) (some vb) s = _
      rw [Function.update_apply]
      by_cases hs : s = (cell.1, cell.2.col)
      · rw [if_pos hs, if_pos hs, hs, hcell, hgot, Option.none_or]
      · rw [if_neg hs, if_neg hs, Option.or_none]

theorem foldl_fillCell (got : OidText → Option Varbind)
    (pairs : List (OidText × SnmpProfileTableCol)) (cells : OidText × JsNumber → Option Varbind)
    (s : OidText × JsNumber) :
    pairs.foldl (fillCell t got) cells s
      = (cells s).or (if s ∈ pairs.map fun p => (p.1, p.2.col) then got (t.cellOid s.1 s.2)
        else none) := by
  induction pairs generalizing cells with
  | nil => exact (Option.or_none).symm
  | cons p pairs ih =>
    rw [List.foldl_cons, ih, fillCell_apply, Option.or_assoc, List.map_cons]
    refine congrArg _ ?_
    by_cases hs : s = (p.1, p.2.col)
    · rw [if_pos hs, if_pos (List.mem_cons.mpr (Or.inl hs))]
      split
      · exact Option.or_self
      · exact Option.or_none
    · rw [if_neg hs, Option.none_or]
      refine if_congr ?_ rfl rfl
      rw [List.mem_cons]
      exact (or_iff_right hs).symm

/-- The cells that are missing are those that are asked for. -/
theorem mem_missing {b : ByRow} {row : OidText} (hrow : row ∈ b.rows) {c : SnmpProfileTableCol}
    (hc : c ∈ t.cols) (hnone : b.cells (row, c.col) = none) :
    t.cellOid row c.col ∈ missing t b := by
  apply List.mem_flatMap.mpr
  refine ⟨row, hrow, List.mem_map.mpr ⟨c, List.mem_filter.mpr ⟨hc, ?_⟩, rfl⟩⟩
  rw [hnone]
  rfl

theorem fill_cells (hget : Answers get answer) {b : ByRow} {row : OidText} (hrow : row ∈ b.rows)
    {c : SnmpProfileTableCol} (hc : c ∈ t.cols) :
    fill isVarbindError get t b (row, c.col)
      = (b.cells (row, c.col)).or
          ((answer (t.cellOid row c.col)).filter fun vb => !isVarbindError vb) := by
  rw [fill]
  cases hcell : b.cells (row, c.col) with
  | none =>
    have hmem := mem_missing hrow hc hcell
    have hcells : (row, c.col) ∈ (b.rows.product t.cols).map fun p => (p.1, p.2.col) :=
      List.mem_map.mpr ⟨(row, c), List.pair_mem_product.mpr ⟨hrow, hc⟩, rfl⟩
    have hsome : (missing t b).isEmpty = false := by
      rw [List.isEmpty_eq_false_iff]
      exact List.ne_nil_of_mem hmem
    rw [hsome, if_neg Bool.false_ne_true, foldl_fillCell, if_pos hcells, hcell,
      getTyped_eq hget hmem]
  | some vb =>
    split
    · exact hcell
    · rw [foldl_fillCell, hcell, Option.some_or, Option.some_or]

end Get

/-! ### The comparator -/

theorem localeCompare_self (a : OidText) : localeCompare a a = .eq := by
  rw [localeCompare, if_neg (List.lt_irrefl a), if_neg (List.lt_irrefl a)]

theorem eq_of_localeCompare {a b : OidText} (h : localeCompare a b = .eq) : a = b := by
  rw [localeCompare] at h
  split at h
  · cases h
  · rename_i hlt
    split at h
    · cases h
    · rename_i hgt
      exact List.le_antisymm (List.not_lt.mp hgt) (List.not_lt.mp hlt)

theorem rowCompare_self (a : OidText) : rowCompare a a = .eq := by
  have hsub : ∀ x : JsNumber, x.sub x = .nan ∨ x.sub x = .ofRat 0 := by
    intro x
    cases x with
    | nan => exact Or.inl rfl
    | inf negative =>
      cases negative with
      | true => exact Or.inl rfl
      | false => exact Or.inl rfl
    | fin x =>
      right
      rw [JsNumber.sub_fin, sub_self]
  rw [rowCompare, if_pos (hsub _)]
  exact localeCompare_self a

theorem eq_of_rowCompare {a b : OidText} (h : rowCompare a b = .eq) : a = b := by
  rw [rowCompare] at h
  split at h
  · exact eq_of_localeCompare h
  · split at h
    · cases h
    · cases h

/-! ### The order of the varbinds -/

section Order

variable {isVarbindError : Varbind → Bool} {get : List OidText → Option (List Varbind)}
variable {sort : (OidText → OidText → Ordering) → List OidText → List OidText}
variable {answer : OidText → Option Varbind} {walked walked' : List Varbind}

theorem mem_rowOrder (hsort : LawfulSort sort) {row : OidText} :
    row ∈ rowOrder isVarbindError sort t walked ↔ row ∈ (byRow isVarbindError t walked).rows :=
  (hsort.perm rowCompare _).mem_iff

theorem collectTable_rows (hsort : LawfulSort sort) (hset : OneEach walked)
    (hget : Answers get answer) : (collectTable isVarbindError get sort t walked).rows
      = (rowOrder isVarbindError sort t walked).map fun row =>
        t.cols.map fun c =>
          renderVarbind c (cellVarbind isVarbindError t walked answer row c.col) := by
  refine List.map_congr_left fun row hrow => List.map_congr_left fun c hc => ?_
  rw [fill_cells hget ((mem_rowOrder hsort).mp hrow) hc, byRow_cells hset]
  rfl

theorem cellVarbind_perm (hset : OneEach walked) (h : walked'.Perm walked) (row : OidText)
    (col : JsNumber) : cellVarbind isVarbindError t walked' answer row col
      = cellVarbind isVarbindError t walked answer row col := by
  rw [cellVarbind, cellVarbind, find?_walkCol_perm hset h]

theorem rowOrder_perm (hsort : LawfulSort sort)
    (hrows : Consistent rowCompare (byRow isVarbindError t walked).rows) (h : walked'.Perm walked) :
    rowOrder isVarbindError sort t walked' = rowOrder isVarbindError sort t walked :=
  sort_eq_of_perm hsort hrows (byRow_perm h) fun _ _ _ _ => eq_of_rowCompare

theorem collectTable_perm (hsort : LawfulSort sort) (hset : OneEach walked)
    (hget : Answers get answer)
    (hrows : Consistent rowCompare (byRow isVarbindError t walked).rows) (h : walked'.Perm walked) :
    collectTable isVarbindError get sort t walked'
      = collectTable isVarbindError get sort t walked := by
  have heq : (collectTable isVarbindError get sort t walked').rows
      = (collectTable isVarbindError get sort t walked).rows := by
    rw [collectTable_rows hsort (hset.perm h) hget, collectTable_rows hsort hset hget,
      rowOrder_perm hsort hrows h]
    simp only [cellVarbind_perm hset h]
  exact congrArg (fun rows => NamedTable.mk ⟨t.cols.map (·.label), rows⟩ t.name) heq

/-- Every row can be the one that comes first. -/
theorem exists_perm_leading {row : OidText} (hrow : row ∈ (byRow isVarbindError t walked).rows) :
    ∃ walked', walked'.Perm walked ∧ [row] <+: (byRow isVarbindError t walked').rows := by
  obtain ⟨vb, hvb, col, hslot⟩ := mem_byRow.mp hrow
  obtain ⟨hmem, herror⟩ := mem_walkCol.mp hvb
  refine ⟨vb :: walked.erase vb, (List.perm_cons_erase hmem).symm, ?_⟩
  have hfirst : (bucket t {} vb).rows = [row] := by
    rw [bucket, hslot]
    rfl
  have hwalk : walkCol isVarbindError (vb :: walked.erase vb)
      = vb :: walkCol isVarbindError (walked.erase vb) := by
    rw [walkCol, List.filter_cons_of_pos (by rw [herror]; rfl)]
    rfl
  rw [byRow, hwalk, List.foldl_cons, ← hfirst]
  exact leading_foldl_bucket _ _

/-- With a comparator that is not consistent, the order of the varbinds may become that of the
    rows. -/
theorem consistent_of_rowOrder
    (h : ∀ walked', walked'.Perm walked →
      rowOrder isVarbindError sortOrKeep t walked' = rowOrder isVarbindError sortOrKeep t walked) :
    Consistent rowCompare (byRow isVarbindError t walked).rows := by
  by_contra hnot
  have hfirst : ∀ row ∈ (byRow isVarbindError t walked).rows,
      [row] <+: (byRow isVarbindError t walked).rows := by
    intro row hrow
    obtain ⟨walked', hperm, hlead⟩ := exists_perm_leading hrow
    have hnot' : ¬ Consistent rowCompare (byRow isVarbindError t walked').rows :=
      fun hrows => hnot (hrows.of_subset (byRow_perm hperm).symm.subset)
    have hsame := h walked' hperm
    rw [rowOrder, rowOrder, sortOrKeep_of_not hnot, sortOrKeep_of_not hnot'] at hsame
    rwa [hsame] at hlead
  -- so there is no row but the first one
  apply hnot
  cases hrows : (byRow isVarbindError t walked).rows with
  | nil =>
    apply consistent_of_forall_eq (rowCompare_self [])
    exact fun _ ha => absurd ha List.not_mem_nil
  | cons first rest =>
    apply consistent_of_forall_eq (rowCompare_self first)
    intro row hrow
    rw [← hrows] at hrow
    have hlead := hfirst row hrow
    rw [hrows, List.cons_prefix_cons] at hlead
    exact hlead.1

end Order

/-- A device that answers the GET of many object identifiers one by one. -/
theorem Answers.filterMap {answer : OidText → Option Varbind}
    (h : ∀ o vb, answer o = some vb → stripDot (dotted vb.oid) = o) :
    Answers (fun chunk => some (chunk.filterMap answer)) answer where
  mem _ _ := List.mem_filterMap
  named := h

namespace Sample

/-- A table of two columns. -/
def table : SnmpProfileTable where
  name := "Disks"
  oid := ['1', '.', '3']
  columns :=
    [{ label := "Slot", col := numberOf ['1'] }, { label := "Model", col := numberOf ['2'] }]

/-- What the walk has for the first column of a row. -/
def cell (row : List UInt32) (n : ℤ) : Varbind := ⟨[1, 3, 1] ++ row, 2, .int n⟩

/-- The second column of the row 9 is left out by the walk. -/
def answer (o : OidText) : Option Varbind :=
  if o = dotted [1, 3, 2, 9] then some ⟨[1, 3, 2, 9], 4, .text "WD40"⟩ else none

theorem answers : Answers (fun chunk => some (chunk.filterMap answer)) answer := by
  apply Answers.filterMap
  intro o vb h
  rw [answer] at h
  split at h
  · rename_i ho
    rw [← Option.some.inj h, ho, stripDot_dotted]
  · cases h

def mixed : List Varbind := [cell [9] 1, cell [10] 2, cell [10, 1, 1] 3]

/-- 9 is below 10, 10 below 10.1.1, and 10.1.1 below 9. -/
theorem not_consistent {l : List OidText} (h : [dotted [9], dotted [10], dotted [10, 1, 1]] ⊆ l) :
    ¬ Consistent rowCompare l := by
  intro hrows
  have hloop := hrows.lt_trans (dotted [9]) (h (by decide)) (dotted [10]) (h (by decide))
    (dotted [10, 1, 1]) (h (by decide)) (by decide +kernel) (by decide +kernel)
  revert hloop
  decide +kernel

end Sample

end Argus.Schedulers
