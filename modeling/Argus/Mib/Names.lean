import Argus.Lib.Ranking
import Argus.Lib.Segments
import Argus.Mib.Store

namespace Argus.Mib

/-!
# Names of object identifiers

`resolveOidNames` names the identifiers of a walk.  It compares texts: the known identifiers are
sorted by their length, and the first one that the text starts with is taken.

* `resolveOidNames` — the function of the source.
* `Dotted` — a text of digits and dots, no component of it empty.
* `Closest` — of the known identifiers that begin a list of components, the one with the most.
* `named_closest` — an identifier is named after the closest known one, if that one is the
  identifier itself or leaves one component.
-/

/-! ### The code -/

/-- `replace(/^\./, "")`. -/
def withoutDot : List Char → List Char
  | '.' :: s => s
  | s => s

/-- `new Map(all.map((r) => [r.oid, r.name]))`. -/
def exactNames (rows : List MibRow) : Fields String :=
  Fields.spread [] (rows.map fun r => (r.oid, r.name))

/-- `b.length - a.length` is not positive. -/
def NotShorter (a b : String) : Prop := JsText.units b.toList ≤ JsText.units a.toList

instance : DecidableRel NotShorter := fun _ _ => inferInstanceAs (Decidable (_ ≤ _))

instance : Std.Total NotShorter := ⟨fun _ _ => Nat.le_total _ _⟩

instance : IsTrans String NotShorter := ⟨fun _ _ _ hab hbc => Nat.le_trans hbc hab⟩

/-- The known identifiers, the longest first; the sort is stable. -/
def knownOids (rows : List MibRow) : List String :=
  (rows.map MibRow.oid).insertionSort NotShorter

/-- ``o === k || o.startsWith(`${k}.`)``. -/
def beginsOid (o : List Char) (k : String) : Bool :=
  o == k.toList || (k.toList ++ ['.']).isPrefixOf o

/-- The body of the loop: the name of one identifier. -/
def oidName (rows : List MibRow) (oid : String) : Option String :=
  let o := withoutDot oid.toList
  match (exactNames rows).get (String.ofList o) with
  | some name => some name
  | none =>
    match (knownOids rows).find? (beginsOid o) with
    | none => none
    | some base =>
      if base = "" then none
      else
        let rest := withoutDot (o.drop base.toList.length)
        if rest = [] ∨ rest = ['0'] then (exactNames rows).get base
        else if isDigits rest then
          ((exactNames rows).get base).map fun name => name ++ " #" ++ String.ofList rest
        else none

def resolveOidNames (rows : List MibRow) (oids : List String) : Fields String :=
  if oids = [] ∨ rows = [] then []
  else oids.foldl (fun out oid =>
    match oidName rows oid with
    | some name => out.set oid name
    | none => out) []

/-! ### Components -/

def components (s : List Char) : List (List Char) := s.splitOn '.'

/-- Dotted decimal: no component is empty, so no dot stands at the start. -/
def Dotted (s : List Char) : Prop := ∀ c ∈ components s, isDigits c = true

instance (s : List Char) : Decidable (Dotted s) := inferInstanceAs (Decidable (∀ c ∈ _, _))

/-- Of the known identifiers that begin `o`, the one with the most components. -/
structure Closest (rows : List MibRow) (o : List Char) (r : MibRow) : Prop where
  known : r ∈ rows
  begins : components r.oid.toList <+: components o
  most : ∀ r' ∈ rows, components r'.oid.toList <+: components o →
    (components r'.oid.toList).length ≤ (components r.oid.toList).length

/-- The name of an identifier: its own, or that of the closest one and the component it leaves. -/
def Named (rows : List MibRow) (o : List Char) (name : String) : Prop :=
  (∃ r ∈ rows, r.oid.toList = o ∧ name = r.name) ∨
    ∃ r i, Closest rows o r ∧ components o = components r.oid.toList ++ [i] ∧
      name = if i = ['0'] then r.name else r.name ++ " #" ++ String.ofList i

theorem beginsOid_iff {o : List Char} {k : String} :
    beginsOid o k = true ↔ components k.toList <+: components o := by
  rw [beginsOid, Bool.or_eq_true, beq_iff_eq, List.isPrefixOf_iff_prefix]
  exact Segments.splitOn_prefix_iff.symm

section Dotted

variable {o : List Char}

theorem not_mem_of_isDigits {c : List Char} (h : isDigits c = true) : '.' ∉ c := by
  rw [isDigits, Bool.and_eq_true, List.all_eq_true] at h
  exact fun hdot => absurd (h.2 _ hdot) (by decide)

theorem Dotted.ne_dot_cons (h : Dotted o) (s : List Char) : o ≠ '.' :: s := by
  rintro rfl
  have hempty : [] ∈ components ('.' :: s) := by
    rw [components, List.splitOn_cons_eq_if_modifyHead, if_pos (by decide)]
    exact List.mem_cons_self
  exact absurd (h [] hempty) (by decide)

theorem Dotted.withoutDot_eq (h : Dotted o) : withoutDot o = o := by
  unfold withoutDot
  split
  · exact absurd rfl (h.ne_dot_cons _)
  · rfl

theorem Dotted.ne_nil (h : Dotted o) : o ≠ [] := by
  rintro rfl
  exact absurd (h [] (by decide)) (by decide)

theorem isDigit_lt {c : Char} (h : c.isDigit = true) : c.toNat < 0x10000 := by
  rw [Char.isDigit, Bool.and_eq_true, decide_eq_true_eq, decide_eq_true_eq] at h
  have hhigh : c.toNat ≤ 57 := h.2
  omega

/-- The text has only digits and dots. -/
theorem Dotted.units_eq (h : Dotted o) : JsText.units o = o.length := by
  refine JsText.units_of_forall fun c hc => ?_
  have ho : ['.'].intercalate (components o) = o := List.intercalate_splitOn '.'
  rw [← ho] at hc
  rcases Segments.mem_intercalate hc with rfl | ⟨s, hs, hcs⟩
  · decide
  · have hdigits := h s hs
    rw [isDigits, Bool.and_eq_true, List.all_eq_true] at hdigits
    exact isDigit_lt (hdigits.2 c hcs)

end Dotted

/-! ### The closest known identifier -/

section Known

variable {rows : List MibRow} {o : List Char}

theorem mem_knownOids {k : String} : k ∈ knownOids rows ↔ ∃ r ∈ rows, r.oid = k := by
  rw [knownOids, List.mem_insertionSort, List.mem_map]

theorem get_exactNames (hkey : (rows.map MibRow.oid).Nodup) {k name : String} :
    (exactNames rows).get k = some name ↔ ∃ r ∈ rows, r.oid = k ∧ r.name = name := by
  have hwf : Fields.WF (rows.map fun r => (r.oid, r.name)) := by
    rw [Fields.WF, List.map_map]
    exact hkey
  rw [exactNames, Fields.get_spread [] hwf, Fields.get_nil, Option.or_none]
  constructor
  · intro h
    obtain ⟨r, hr, heq⟩ := List.mem_map.mp (Fields.mem_of_get h)
    exact ⟨r, hr, congrArg Prod.fst heq, congrArg Prod.snd heq⟩
  · rintro ⟨r, hr, rfl, rfl⟩
    exact Fields.get_of_mem hwf (List.mem_map.mpr ⟨r, hr, rfl⟩)

/-- For known identifiers that begin `o`, the longer text has more components. -/
theorem components_le_iff {a b : List Char} (ha : components a <+: components o)
    (hb : components b <+: components o) :
    (components a).length ≤ (components b).length ↔ a.length ≤ b.length :=
  (Segments.length_le_length_iff ha hb).symm

/-- The search among the texts finds the closest identifier. -/
theorem closest_of_find? (hdotted : ∀ r ∈ rows, Dotted r.oid.toList) {k : String}
    (h : (knownOids rows).find? (beginsOid o) = some k) : ∃ r, Closest rows o r ∧ r.oid = k := by
  have hbest := Ranking.firstBest_of_find? NotShorter h
  have hk := beginsOid_iff.mp (List.find?_some h)
  obtain ⟨r, hr, rfl⟩ := mem_knownOids.mp (List.mem_of_find?_eq_some h)
  refine ⟨r, ⟨hr, hk, fun r' hr' hbegins => ?_⟩, rfl⟩
  have hmem : r'.oid ∈ (rows.map MibRow.oid).filter (beginsOid o) :=
    List.mem_filter.mpr ⟨List.mem_map_of_mem hr', beginsOid_iff.mpr hbegins⟩
  have hlen : JsText.units r'.oid.toList ≤ JsText.units r.oid.toList := hbest.best hmem
  rw [(hdotted r' hr').units_eq, (hdotted r hr).units_eq] at hlen
  exact (components_le_iff hbegins hk).mpr hlen

/-- There is at most one closest identifier. -/
theorem Closest.oid_eq {r r' : MibRow} (h : Closest rows o r) (h' : Closest rows o r') :
    r'.oid = r.oid := by
  have hle := h.most r' h'.known h'.begins
  have hge := h'.most r h.known h.begins
  have hsame : components r'.oid.toList = components r.oid.toList :=
    (List.prefix_of_prefix_length_le h'.begins h.begins hle).eq_of_length
      (Nat.le_antisymm hle hge)
  exact String.toList_injective (Segments.splitOn_injective hsame)

theorem find?_of_closest (hdotted : ∀ r ∈ rows, Dotted r.oid.toList) {r : MibRow}
    (h : Closest rows o r) : (knownOids rows).find? (beginsOid o) = some r.oid := by
  cases hfind : (knownOids rows).find? (beginsOid o) with
  | none =>
    have hnot := List.find?_eq_none.mp hfind r.oid (mem_knownOids.mpr ⟨r, h.known, rfl⟩)
    exact absurd (beginsOid_iff.mpr h.begins) hnot
  | some k =>
    obtain ⟨r', h', rfl⟩ := closest_of_find? hdotted hfind
    rw [h.oid_eq h']

/-- What is left of the text behind a known identifier. -/
theorem rest_eq {k : List Char} (hne : o ≠ k) (h : components k <+: components o) :
    components o = components k ++ components (withoutDot (o.drop k.length)) := by
  obtain ⟨t, rfl⟩ := (Segments.splitOn_prefix_iff.mp h).resolve_left hne
  have hdrop : (k ++ ['.'] ++ t).drop k.length = '.' :: t := by
    rw [List.append_assoc, List.drop_left]
    rfl
  rw [hdrop, List.append_assoc, components, List.singleton_append, List.splitOn_append_cons_self]
  rfl

end Known

/-! ### Names -/

section Names

variable {rows : List MibRow} {o : List Char}

/-- A text is one component if it has no dot; in an identifier that means digits. -/
theorem components_eq_singleton_iff {rest : List Char} (h : Dotted rest) :
    components rest = [rest] ↔ isDigits rest = true := by
  constructor
  · intro heq
    exact h rest (heq ▸ List.mem_singleton_self rest)
  · intro hdigits
    exact List.splitOn_eq_singleton (not_mem_of_isDigits hdigits)

theorem eq_of_components_eq_singleton {s i : List Char} (h : components s = [i]) : s = i := by
  have hs : ['.'].intercalate (components s) = s := List.intercalate_splitOn '.'
  rw [← hs, h, List.intercalate_singleton]

/-- An identifier that is known has its own name. -/
theorem named_iff_of_known (hkey : (rows.map MibRow.oid).Nodup) {r : MibRow} (hr : r ∈ rows)
    (hoid : r.oid.toList = o) {name : String} : Named rows o name ↔ name = r.name := by
  constructor
  · rintro (⟨r', hr', hoid', rfl⟩ | ⟨r', i, hclosest, hsplit, -⟩)
    · rw [List.inj_on_of_nodup_map hkey hr' hr
        (String.toList_injective (hoid'.trans hoid.symm))]
    · -- the identifier itself is closer
      have hle := hclosest.most r hr (hoid ▸ List.prefix_rfl)
      rw [hoid, hsplit, List.length_append, List.length_singleton] at hle
      omega
  · rintro rfl
    exact Or.inl ⟨r, hr, hoid, rfl⟩

/-- Otherwise the closest identifier decides, and what it leaves. -/
theorem named_iff_of_closest (hkey : (rows.map MibRow.oid).Nodup)
    (hnone : ∀ r ∈ rows, r.oid.toList ≠ o) {r : MibRow} (hclosest : Closest rows o r)
    {rest : List Char} (hrest : components o = components r.oid.toList ++ components rest)
    {name : String} : Named rows o name ↔ components rest = [rest] ∧
      name = if rest = ['0'] then r.name else r.name ++ " #" ++ String.ofList rest := by
  constructor
  · rintro (⟨r', hr', hoid', -⟩ | ⟨r', i, hclosest', hsplit, hname⟩)
    · exact absurd hoid' (hnone r' hr')
    · obtain rfl : r' = r := List.inj_on_of_nodup_map hkey hclosest'.known hclosest.known
        (hclosest.oid_eq hclosest')
      have hsingle := List.append_cancel_left (hrest.symm.trans hsplit)
      obtain rfl := eq_of_components_eq_singleton hsingle
      exact ⟨hsingle, hname⟩
  · rintro ⟨hsingle, hname⟩
    exact Or.inr ⟨r, rest, hclosest, hsingle ▸ hrest, hname⟩

/-- The body of the loop, for an identifier in dotted decimal. -/
theorem oidName_eq_some_iff (hkey : (rows.map MibRow.oid).Nodup)
    (hdotted : ∀ r ∈ rows, Dotted r.oid.toList) (ho : Dotted o) {oid name : String}
    (hoid : withoutDot oid.toList = o) : oidName rows oid = some name ↔ Named rows o name := by
  rw [oidName, hoid]
  cases hexact : (exactNames rows).get (String.ofList o) with
  | some known =>
    obtain ⟨r, hr, hroid, rfl⟩ := (get_exactNames hkey).mp hexact
    have hro : r.oid.toList = o := by rw [hroid, String.toList_ofList]
    rw [named_iff_of_known hkey hr hro]
    exact ⟨fun h => (Option.some.inj h).symm, fun h => congrArg some h.symm⟩
  | none =>
    have hnone : ∀ r ∈ rows, r.oid.toList ≠ o := by
      rintro r hr rfl
      have hget := (get_exactNames hkey).mpr ⟨r, hr, rfl, rfl⟩
      rw [String.ofList_toList, hget] at hexact
      cases hexact
    cases hfind : (knownOids rows).find? (beginsOid o) with
    | none =>
      refine ⟨fun h => (Option.some_ne_none _ h.symm).elim, ?_⟩
      rintro (⟨r, hr, hro, -⟩ | ⟨r, i, hclosest, -⟩)
      · exact absurd hro (hnone r hr)
      · rw [find?_of_closest hdotted hclosest] at hfind
        cases hfind
    | some base =>
      obtain ⟨r, hclosest, rfl⟩ := closest_of_find? hdotted hfind
      have hbase : r.oid ≠ "" := by
        intro hempty
        exact (hdotted r hclosest.known).ne_nil (by rw [hempty]; rfl)
      have hrest := rest_eq (Ne.symm (hnone r hclosest.known)) hclosest.begins
      have hget := (get_exactNames hkey).mpr ⟨r, hclosest.known, rfl, rfl⟩
      simp only [if_neg hbase, hget, Option.map_some]
      generalize withoutDot (o.drop r.oid.toList.length) = rest at hrest ⊢
      have hrestDotted : Dotted rest := fun c hc => ho c (hrest ▸ List.mem_append_right _ hc)
      rw [named_iff_of_closest hkey hnone hclosest hrest,
        components_eq_singleton_iff hrestDotted]
      simp only [hrestDotted.ne_nil, false_or]
      by_cases hzero : rest = ['0']
      · rw [if_pos hzero, if_pos hzero, hzero]
        simp [isDigits, eq_comm]
      · rw [if_neg hzero, if_neg hzero]
        split
        · simp [*, eq_comm]
        · simp [*]

theorem get_foldl_set {f : String → Option String} (oids : List String) (acc : Fields String)
    (oid : String) :
    (oids.foldl (fun out oid =>
      match f oid with
      | some name => out.set oid name
      | none => out) acc).get oid
      = if oid ∈ oids then (f oid).or (acc.get oid) else acc.get oid := by
  induction oids generalizing acc with
  | nil => rfl
  | cons oid' oids ih =>
    rw [List.foldl_cons, ih]
    by_cases heq : oid = oid'
    · subst heq
      rw [if_pos List.mem_cons_self]
      cases hf : f oid with
      | none => simp
      | some name => simp [Fields.get_set]
    · have hacc : Fields.get (match f oid' with
          | some name => acc.set oid' name
          | none => acc) oid = acc.get oid := by
        cases f oid' with
        | none => rfl
        | some name => rw [Fields.get_set, if_neg heq]
      rw [hacc]
      simp [heq]

end Names

/-- **Names.**  For known identifiers in dotted decimal, an identifier with or without a dot in
    front is named exactly if it is known, or if the known one with the most components leaves one;
    the longest text is the one with the most components, and a text that is no prefix by
    components is not taken. -/
theorem named_closest (db : MibTable) (hdotted : ∀ r ∈ db.rows, Dotted r.oid.toList)
    (oids : List String) {oid : String} (hmem : oid ∈ oids) {o : List Char} (ho : Dotted o)
    (hoid : oid.toList = o ∨ oid.toList = '.' :: o) :
    (∀ name, (resolveOidNames db.rows oids).get oid = some name ↔ Named db.rows o name) ∧
      (∀ k, (knownOids db.rows).find? (beginsOid o) = some k ↔
        ∃ r, Closest db.rows o r ∧ r.oid = k) ∧
      ∀ r ∈ db.rows, beginsOid o r.oid = true ↔ components r.oid.toList <+: components o := by
  have hwithout : withoutDot oid.toList = o := by
    rcases hoid with h | h
    · rw [h, ho.withoutDot_eq]
    · rw [h]
      rfl
  refine ⟨fun name => ?_, fun k => ⟨closest_of_find? hdotted, ?_⟩, fun r _ => beginsOid_iff⟩
  · rw [← oidName_eq_some_iff db.key hdotted ho hwithout, resolveOidNames]
    split
    · rename_i hnil
      have hrows : db.rows = [] := hnil.resolve_left (List.ne_nil_of_mem hmem)
      rw [hrows, Fields.get_nil]
      simp [oidName, exactNames, knownOids, Fields.spread]
    · rw [get_foldl_set, if_pos hmem, Fields.get_nil, Option.or_none]
  · rintro ⟨r, hclosest, rfl⟩
    exact find?_of_closest hdotted hclosest

namespace Sample

/-- A column of a table, and an identifier above it. -/
def columns : MibTable :=
  ⟨[⟨"1.3.6", "dod", none, none, "A-MIB", "2026-01-01", "2026-01-01"⟩,
    ⟨"1.3.6.1", "internet", none, none, "A-MIB", "2026-01-01", "2026-01-01"⟩], by decide⟩

end Sample

open Sample in
theorem named_closest_row :
    (resolveOidNames columns.rows [".1.3.6.1.7", "1.3.61"]).get ".1.3.6.1.7" =
      some "internet #7" := by
  have hdotted : ∀ r ∈ columns.rows, Dotted r.oid.toList := by decide +kernel
  have ho : Dotted "1.3.6.1.7".toList := by decide +kernel
  have hnamed := (named_closest columns hdotted [".1.3.6.1.7", "1.3.61"] List.mem_cons_self ho
    (Or.inr rfl)).1 "internet #7"
  refine hnamed.mpr (Or.inr ⟨_, ['7'],
    ⟨List.mem_cons_of_mem _ List.mem_cons_self, ?_, ?_⟩, ?_, ?_⟩)
  all_goals decide +kernel

end Argus.Mib
