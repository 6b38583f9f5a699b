import Argus.Lib.JsValue
import Argus.Lib.Saturation

namespace Argus.Mib

/-!
# MIB modules

`parseMib`: a regular expression finds the assignments in the text of a module, and their object
identifiers are resolved against the SMI roots, in passes over the list until nothing changes.

* `stripComments` — the text without comments.
* `matchAll` — the matches of `ASSIGN_RE`: a name, a macro, the shortest text up to `::=` and a
  pair of braces.
* `resolveTokens`, `resolveAll` — the value of a pair of braces, and the loop.
* `parseMib` — the objects, one for each identifier.
* `Expansion` — a list of tokens has a finite derivation from roots and numbers.
* `oids_resolved` — the loop ends, and a name is resolved exactly if its tokens have one.
-/

open JsText (isSpace trimChars)

/-! ### Text -/

/-- `\w`. -/
def isWord (c : Char) : Bool := c.isAlphanum || c == '_'

def isNameChar (c : Char) : Bool := isWord c || c == '-'

inductive Mode
  | code | str | comment
deriving DecidableEq, Repr

/-- The loop of `stripComments`; the mode is where it stands. -/
def strip : Mode → List Char → List Char
  | _, [] => []
  | .str, c :: s => c :: strip (if c = '"' then .code else .str) s
  | .code, '"' :: s => '"' :: strip .str s
  | .code, '-' :: '-' :: s => strip .comment s
  | .code, c :: s => c :: strip .code s
  -- the end of the line is not part of the comment
  | .comment, '\n' :: s => '\n' :: strip .code s
  | .comment, '-' :: '-' :: s => strip .code s
  | .comment, _ :: s => strip .comment s

def stripComments (src : List Char) : List Char := strip .code src

/-! ### The regular expression -/

def literal (k : List Char) (s : List Char) : Option (List Char) :=
  if k.isPrefixOf s then some (s.drop k.length) else none

/-- `\s+`. -/
def spaces (s : List Char) : Option (List Char) :=
  if (s.head?.map isSpace).getD false then some (s.dropWhile isSpace) else none

/-- `\b`, after a letter. -/
def wordEnds (s : List Char) : Bool := !(s.head?.map isWord).getD false

/-- The six macros. -/
def macros : List (List Char → Option (List Char)) :=
  [literal "OBJECT-TYPE".toList,
    fun s => ((literal "OBJECT".toList s).bind spaces).bind (literal "IDENTIFIER".toList),
    literal "MODULE-IDENTITY".toList,
    literal "OBJECT-IDENTITY".toList,
    literal "OBJECT-GROUP".toList,
    literal "NOTIFICATION-TYPE".toList]

def macroKeyword (s : List Char) : Option (List Char) :=
  macros.findSome? fun keyword => (keyword s).filter wordEnds

/-- `::=\s*\{([^}]*)\}`: the text between the braces, and the rest. -/
def assignedValue (s : List Char) : Option (List Char × List Char) :=
  match (literal "::=".toList s).map (List.dropWhile isSpace) with
  | some ('\x7b' :: s) =>
    match s.dropWhile (· != '\x7d') with
    | _ :: rest => some (s.takeWhile (· != '\x7d'), rest)
    | [] => none
  | _ => none

/-- A match of `ASSIGN_RE`. -/
structure Match where
  name : List Char
  body : List Char
  braces : List Char
deriving DecidableEq, Repr

/-- `([\s\S]*?)` up to the first value. -/
def lazyBody : List Char → Option (List Char × List Char × List Char)
  | [] => none
  | c :: s =>
    match assignedValue (c :: s) with
    | some (braces, rest) => some ([], braces, rest)
    | none => (lazyBody s).map fun (body, braces, rest) => (c :: body, braces, rest)

/-- The expression at one place of the text; the match and the rest. -/
def matchAt (s : List Char) : Option (Match × List Char) :=
  if (s.head?.map Char.isAlpha).getD false then
    (((spaces (s.dropWhile isNameChar)).bind macroKeyword).bind lazyBody).map
      fun (body, braces, rest) => (⟨s.takeWhile isNameChar, body, braces⟩, rest)
  else none

/-- `matchAll`; a text has at most as many matches as characters. -/
def matchAll : ℕ → List Char → List Match
  | 0, _ => []
  | _, [] => []
  | fuel + 1, c :: s =>
    match matchAt (c :: s) with
    | some (m, rest) => m :: matchAll fuel rest
    | none => matchAll fuel s

/-! ### Raw definitions -/

structure Raw where
  name : String
  tokens : List String
  unit : Option String
  description : Option String
deriving DecidableEq, Repr

/-- `split(/\s+/).filter(Boolean)`. -/
def words (s : List Char) : List (List Char) := (s.splitOnP isSpace).filter (· ≠ [])

/-- `KEYWORD\s+"([^"]*)"` at one place. -/
def quotedAt (keyword s : List Char) : Option (List Char) :=
  match (literal keyword s).bind spaces with
  | some ('"' :: s) => if '"' ∈ s then some (s.takeWhile (· != '"')) else none
  | _ => none

/-- The first place where the expression matches. -/
def quoted (keyword : List Char) : List Char → Option (List Char)
  | [] => none
  | c :: s => (quotedAt keyword (c :: s)).or (quoted keyword s)

/-- `replace(/\s+/g, " ")`; the flag is up behind white space. -/
def collapse : Bool → List Char → List Char
  | _, [] => []
  | afterSpace, c :: s =>
    if isSpace c then (if afterSpace then collapse true s else ' ' :: collapse true s)
    else c :: collapse false s

/-- `slice(0, n)`, which counts the units of UTF-16. -/
def sliceUnits : ℕ → List Char → List Char
  | _, [] => []
  | n, c :: s =>
    let units := if c.toNat < 0x10000 then 1 else 2
    if n < units then [] else c :: sliceUnits (n - units) s

def describe (text : List Char) : String :=
  String.ofList (sliceUnits 300 (trimChars (collapse false text)))

/-- The body of the loop over the matches. -/
def Match.raw (m : Match) : Option Raw :=
  if trimChars m.braces = [] then none
  else some
    { name := String.ofList m.name
      tokens := (words (trimChars m.braces)).map String.ofList
      unit := (quoted "UNITS".toList m.body).map String.ofList
      description := (quoted "DESCRIPTION".toList m.body).map describe }

def rawsOf (text : String) : List Raw :=
  let clean := stripComments text.toList
  (matchAll clean.length clean).filterMap Match.raw

/-! ### Resolution -/

/-- `BASE`. -/
def smiRoots : Fields (List ℕ) :=
  [("iso", [1]),
    ("org", [1, 3]),
    ("dod", [1, 3, 6]),
    ("internet", [1, 3, 6, 1]),
    ("directory", [1, 3, 6, 1, 1]),
    ("mgmt", [1, 3, 6, 1, 2]),
    ("mib-2", [1, 3, 6, 1, 2, 1]),
    ("transmission", [1, 3, 6, 1, 2, 1, 10]),
    ("experimental", [1, 3, 6, 1, 3]),
    ("private", [1, 3, 6, 1, 4]),
    ("enterprises", [1, 3, 6, 1, 4, 1]),
    ("security", [1, 3, 6, 1, 5]),
    ("snmpV2", [1, 3, 6, 1, 6]),
    ("snmpModules", [1, 3, 6, 1, 6, 3]),
    ("host", [1, 3, 6, 1, 2, 1, 25])]

abbrev Oid := List JsNumber

/-- The map at the start. -/
def base (name : String) : Option Oid := (smiRoots.get name).map (List.map JsNumber.ofNat)

inductive Token
  | number (n : JsNumber)
  | symbol (name : String)
  /-- Anything else: the value is not resolved. -/
  | unexpected

def isDigits (s : List Char) : Bool := s ≠ [] && s.all Char.isDigit

/-- `Number`, of digits. -/
def digitsNumber (s : List Char) : JsNumber := .ofNat (Nat.ofDigitChars 10 s 0)

/-- `^[\w-]+\((\d+)\)$`, such as `iso(1)`. -/
def namedNumber (s : List Char) : Option JsNumber :=
  match s.takeWhile isNameChar, s.dropWhile isNameChar with
  | _ :: _, '(' :: s =>
    if isDigits (s.takeWhile Char.isDigit) && s.dropWhile Char.isDigit = [')'] then
      some (digitsNumber (s.takeWhile Char.isDigit))
    else none
  | _, _ => none

def token (tk : String) : Token :=
  let s := tk.toList
  if isDigits s then .number (digitsNumber s)
  else match namedNumber s with
    | some n => .number n
    | none =>
      if (s.head?.map Char.isAlpha).getD false && s.all isNameChar then .symbol tk
      else .unexpected

/-- The loop of `resolveTokens`. -/
def expand (map : String → Option Oid) : List String → Option Oid
  | [] => some []
  | tk :: tokens =>
    match token tk with
    | .number n => (expand map tokens).map (n :: ·)
    | .symbol name => (map name).bind fun oid => (expand map tokens).map (oid ++ ·)
    | .unexpected => none

def resolveTokens (tokens : List String) (map : String → Option Oid) : Option Oid :=
  (expand map tokens).filter (· ≠ [])

/-- The loop to the fixed point. -/
def resolveAll (raws : List Raw) : Option (String → Option Oid) :=
  Saturation.loop resolveTokens (raws.map fun r => (r.name, r.tokens)) (raws.length + 1) base

structure MibObject where
  oid : String
  name : String
  unit : Option String
  description : Option String
deriving DecidableEq, Repr

/-- `arr.join(".")`. -/
def joinOid (oid : Oid) : String := String.intercalate "." (oid.map JsNumber.toText)

/-- The entry of `byOid` for a definition. -/
def objectOf (map : String → Option Oid) (r : Raw) : Option MibObject :=
  (map r.name).map fun oid => ⟨joinOid oid, r.name, r.unit, r.description⟩

/-- The values of `byOid`. -/
def objectsOf (map : String → Option Oid) (raws : List Raw) : List MibObject :=
  (((raws.filterMap (objectOf map)).foldl (fun m o => m.set o.oid o) []) : Fields MibObject).map
    Prod.snd

structure Parsed where
  objects : List MibObject
  parsed : ℕ
  resolved : ℕ

/-- `parseMib`; `none` stands for a loop that does not end. -/
def parseMib (text : String) : Option Parsed :=
  let raws := rawsOf text
  (resolveAll raws).map fun map =>
    ⟨objectsOf map raws, raws.length, (raws.filterMap (objectOf map)).length⟩

/-! ### Derivations -/

/-- A list of tokens has this expansion, by a finite derivation from the SMI roots and numbers. -/
inductive Expansion (raws : List Raw) : List String → Oid → Prop
  | nil : Expansion raws [] []
  | number {tk : String} {n : JsNumber} {tokens : List String} {oid : Oid}
      (htk : token tk = .number n) (hrest : Expansion raws tokens oid) :
      Expansion raws (tk :: tokens) (n :: oid)
  | root {tk name : String} {tokens : List String} {parent oid : Oid}
      (htk : token tk = .symbol name) (hroot : base name = some parent)
      (hrest : Expansion raws tokens oid) : Expansion raws (tk :: tokens) (parent ++ oid)
  | defined {tk : String} {r : Raw} {tokens : List String} {parent oid : Oid}
      (htk : token tk = .symbol r.name) (hr : r ∈ raws) (hne : r.tokens ≠ [])
      (hparent : Expansion raws r.tokens parent) (hrest : Expansion raws tokens oid) :
      Expansion raws (tk :: tokens) (parent ++ oid)

/-- The meaning of a name: a root, or the expansion of its definition. -/
def Grounded (raws : List Raw) (name : String) (oid : Oid) : Prop :=
  base name = some oid ∨ ∃ r ∈ raws, r.name = name ∧ r.tokens ≠ [] ∧ Expansion raws r.tokens oid

theorem base_ne_nil {name : String} {oid : Oid} (h : base name = some oid) : oid ≠ [] := by
  obtain ⟨ns, hns, rfl⟩ := Option.map_eq_some_iff.mp h
  have hmem := Fields.mem_of_get hns
  have hroots : ∀ f ∈ smiRoots, f.2 ≠ [] := by decide
  rw [Ne, List.map_eq_nil_iff]
  exact hroots _ hmem

variable {raws : List Raw} {map : String → Option Oid}

theorem expand_mono {map' : String → Option Oid} (h : Saturation.Extends map map')
    {tokens : List String} {oid : Oid} (hexpand : expand map tokens = some oid) :
    expand map' tokens = some oid := by
  induction tokens generalizing oid with
  | nil => exact hexpand
  | cons tk tokens ih =>
    rw [expand] at hexpand ⊢
    cases htk : token tk with
    | number n =>
      rw [htk] at hexpand
      obtain ⟨rest, hrest, rfl⟩ := Option.map_eq_some_iff.mp hexpand
      simp only [ih hrest, Option.map_some]
    | symbol name =>
      rw [htk] at hexpand
      obtain ⟨parent, hparent, hmap⟩ := Option.bind_eq_some_iff.mp hexpand
      obtain ⟨rest, hrest, rfl⟩ := Option.map_eq_some_iff.mp hmap
      simp only [h _ _ hparent, ih hrest, Option.bind_some, Option.map_some]
    | unexpected =>
      rw [htk] at hexpand
      cases hexpand

theorem resolveTokens_eq_some {tokens : List String} {oid : Oid} :
    resolveTokens tokens map = some oid ↔ expand map tokens = some oid ∧ oid ≠ [] := by
  rw [resolveTokens, Option.filter_eq_some_iff, decide_eq_true_eq]

theorem resolveTokens_mono (tokens : List String) (map map' : String → Option Oid) (oid : Oid)
    (h : Saturation.Extends map map') (hresolve : resolveTokens tokens map = some oid) :
    resolveTokens tokens map' = some oid := by
  rw [resolveTokens_eq_some] at hresolve ⊢
  exact ⟨expand_mono h hresolve.1, hresolve.2⟩

/-- What is computed from a map whose entries are grounded has a derivation. -/
theorem expansion_of_expand (hmap : ∀ name oid, map name = some oid → Grounded raws name oid)
    {tokens : List String} {oid : Oid} (h : expand map tokens = some oid) :
    Expansion raws tokens oid := by
  induction tokens generalizing oid with
  | nil =>
    obtain rfl : [] = oid := Option.some.inj h
    exact .nil
  | cons tk tokens ih =>
    rw [expand] at h
    cases htk : token tk with
    | number n =>
      rw [htk] at h
      obtain ⟨rest, hrest, rfl⟩ := Option.map_eq_some_iff.mp h
      exact .number htk (ih hrest)
    | symbol name =>
      rw [htk] at h
      obtain ⟨parent, hparent, hrestmap⟩ := Option.bind_eq_some_iff.mp h
      obtain ⟨rest, hrest, rfl⟩ := Option.map_eq_some_iff.mp hrestmap
      rcases hmap name parent hparent with hroot | ⟨r, hr, rfl, hne, hexp⟩
      · exact .root htk hroot (ih hrest)
      · exact .defined htk hr hne hexp (ih hrest)
    | unexpected =>
      rw [htk] at h
      cases h

/-- Tokens that expand to nothing are none. -/
theorem Expansion.ne_nil {tokens : List String} {oid : Oid} (h : Expansion raws tokens oid)
    (hne : tokens ≠ []) : oid ≠ [] := by
  induction h with
  | nil => exact absurd rfl hne
  | number => exact List.cons_ne_nil _ _
  | root _ hroot => exact List.append_ne_nil_of_left_ne_nil (base_ne_nil hroot) _
  | defined _ _ hne' _ _ ihparent => exact List.append_ne_nil_of_left_ne_nil (ihparent hne') _

/-- The definitions, as `Saturation` takes them. -/
def definitions (raws : List Raw) : List (String × List String) :=
  raws.map fun r => (r.name, r.tokens)

theorem grounded_of_derives {name : String} {oid : Oid}
    (h : Saturation.Derives resolveTokens base (definitions raws) name oid) :
    Grounded raws name oid := by
  induction h with
  | known hroot => exact Or.inl hroot
  | entered m hdef _ hresolve ih =>
    obtain ⟨r, hr, hpair⟩ := List.mem_map.mp hdef
    obtain ⟨rfl, rfl⟩ := Prod.mk.inj hpair
    obtain ⟨hexpand, hne⟩ := resolveTokens_eq_some.mp hresolve
    refine Or.inr ⟨r, hr, rfl, ?_, expansion_of_expand ih hexpand⟩
    rintro hnil
    rw [hnil] at hexpand
    exact hne (Option.some.inj hexpand).symm

section Resolution

variable (hnodup : (raws.map Raw.name).Nodup) (hroots : ∀ r ∈ raws, base r.name = none)
  (hmap : resolveAll raws = some map)

include hnodup in
theorem nodup_definitions : ((definitions raws).map Prod.fst).Nodup := by
  rw [definitions, List.map_map]
  exact hnodup

include hroots in
theorem base_definitions : ∀ d ∈ definitions raws, base d.1 = none := by
  intro d hd
  obtain ⟨r, hr, rfl⟩ := List.mem_map.mp hd
  exact hroots r hr

include hnodup hroots hmap in
/-- Every name that is resolved satisfies its definition. -/
theorem resolveTokens_of_resolveAll {r : Raw} (hr : r ∈ raws) {oid : Oid}
    (h : map r.name = some oid) : resolveTokens r.tokens map = some oid :=
  Saturation.eval_of_loop resolveTokens_mono (nodup_definitions hnodup) (base_definitions hroots)
    hmap (List.mem_map_of_mem hr) h

include hnodup hroots hmap in
/-- The loop does not end before such a name is resolved. -/
theorem resolved_of_resolveTokens {r : Raw} (hr : r ∈ raws) {oid : Oid}
    (h : resolveTokens r.tokens map = some oid) : map r.name = some oid := by
  cases hk : map r.name with
  | none =>
    have hstuck := (Saturation.loop_closed hmap).2 (r.name, r.tokens) (List.mem_map_of_mem hr) hk
    exact absurd (hstuck.symm.trans h) (by simp)
  | some v => exact (resolveTokens_of_resolveAll hnodup hroots hmap hr hk).symm.trans h

include hnodup hroots hmap in
/-- **Completeness.**  The induction is on the derivation. -/
theorem expand_of_expansion {tokens : List String} {oid : Oid} (h : Expansion raws tokens oid) :
    expand map tokens = some oid := by
  induction h with
  | nil => rfl
  | number htk _ ih => simp only [expand, htk, ih, Option.map_some]
  | root htk hroot _ ih =>
    have hknown := (Saturation.loop_closed hmap).1 _ _ hroot
    simp only [expand, htk, hknown, ih, Option.bind_some, Option.map_some]
  | @defined tk r tokens parent oid htk hr hne hparent _ ihparent ih =>
    have hresolve : resolveTokens r.tokens map = some parent :=
      resolveTokens_eq_some.mpr ⟨ihparent, hparent.ne_nil hne⟩
    have hname := resolved_of_resolveTokens hnodup hroots hmap hr hresolve
    simp only [expand, htk, hname, ih, Option.bind_some, Option.map_some]

include hnodup hroots hmap in
theorem resolved_iff_grounded {name : String} {oid : Oid} :
    map name = some oid ↔ Grounded raws name oid := by
  constructor
  · intro h
    exact grounded_of_derives (Saturation.derives_of_loop hmap h)
  · rintro (hroot | ⟨r, hr, rfl, hne, hexp⟩)
    · exact (Saturation.loop_closed hmap).1 _ _ hroot
    · exact resolved_of_resolveTokens hnodup hroots hmap hr (resolveTokens_eq_some.mpr
        ⟨expand_of_expansion hnodup hroots hmap hexp, hexp.ne_nil hne⟩)

include hnodup hroots hmap in
theorem resolved_iff_expansion {r : Raw} (hr : r ∈ raws) {oid : Oid} :
    map r.name = some oid ↔ r.tokens ≠ [] ∧ Expansion raws r.tokens oid := by
  rw [resolved_iff_grounded hnodup hroots hmap, Grounded, hroots r hr]
  constructor
  · rintro (hroot | ⟨r', hr', hname, hne, hexp⟩)
    · cases hroot
    · obtain rfl : r' = r := List.inj_on_of_nodup_map hnodup hr' hr hname
      exact ⟨hne, hexp⟩
  · rintro ⟨hne, hexp⟩
    exact Or.inr ⟨r, hr, rfl, hne, hexp⟩

end Resolution

theorem resolveAll_isSome (raws : List Raw) : (resolveAll raws).isSome = true := by
  refine Saturation.loop_isSome ?_
  have hle := Saturation.missing_le_length (definitions raws) base
  rw [definitions, List.length_map] at hle
  exact Nat.lt_succ_of_le hle

theorem mem_objectsOf {o : MibObject} (h : o ∈ objectsOf map raws) :
    ∃ r ∈ raws, objectOf map r = some o := by
  have hset : ∀ (os : List MibObject) (acc : Fields MibObject) (f : String × MibObject),
      f ∈ os.foldl (fun m o => m.set o.oid o) acc → f ∈ acc ∨ f.2 ∈ os := by
    intro os
    induction os with
    | nil => exact fun acc f hf => Or.inl hf
    | cons o os ih =>
      intro acc f hf
      rcases ih _ f hf with hmem | hmem
      · rcases Fields.mem_set hmem with rfl | hacc
        · exact Or.inr List.mem_cons_self
        · exact Or.inl hacc
      · exact Or.inr (List.mem_cons_of_mem o hmem)
  obtain ⟨f, hf, rfl⟩ := List.mem_map.mp h
  rcases hset _ _ f hf with hnil | hmem
  · exact absurd hnil List.not_mem_nil
  · exact List.mem_filterMap.mp hmem

/-- **Resolution.**  The loop over definitions of distinct names, none of them a root, ends.  A
    name is resolved if and only if its tokens have a finite derivation, and to their expansion;
    so every object satisfies its own definition.  The order of the definitions does not matter. -/
theorem oids_resolved {raws : List Raw} (hnodup : (raws.map Raw.name).Nodup)
    (hroots : ∀ r ∈ raws, base r.name = none) :
    ∃ map, resolveAll raws = some map ∧
      (∀ r ∈ raws, ∀ oid, map r.name = some oid ↔ r.tokens ≠ [] ∧ Expansion raws r.tokens oid) ∧
      (∀ o ∈ objectsOf map raws, ∃ r ∈ raws, ∃ oid, Expansion raws r.tokens oid ∧
        o = ⟨joinOid oid, r.name, r.unit, r.description⟩) ∧
      ∀ raws', raws.Perm raws' → resolveAll raws' = some map := by
  obtain ⟨map, hmap⟩ := Option.isSome_iff_exists.mp (resolveAll_isSome raws)
  have hiff : ∀ r ∈ raws, ∀ oid,
      map r.name = some oid ↔ r.tokens ≠ [] ∧ Expansion raws r.tokens oid :=
    fun r hr oid => resolved_iff_expansion hnodup hroots hmap hr
  refine ⟨map, hmap, hiff, fun o ho => ?_, fun raws' hperm => ?_⟩
  · obtain ⟨r, hr, hobject⟩ := mem_objectsOf ho
    obtain ⟨oid, hoid, rfl⟩ := Option.map_eq_some_iff.mp hobject
    exact ⟨r, hr, oid, ((hiff r hr oid).mp hoid).2, rfl⟩
  · obtain ⟨map', hmap'⟩ := Option.isSome_iff_exists.mp (resolveAll_isSome raws')
    have hsame : map = map' :=
      Saturation.loop_perm resolveTokens_mono (nodup_definitions hnodup) (base_definitions hroots)
        (hperm.map _) hmap hmap'
    rw [hmap', hsame]

namespace Sample

/-- A forward reference, a cycle, and a parent that nobody defines. -/
def cooling : List Raw :=
  [⟨"fanRpm", ["cooling", "1"], some "rpm", none⟩,
    ⟨"cooling", ["enterprises", "24681"], none, none⟩, ⟨"a", ["b", "1"], none, none⟩,
    ⟨"b", ["a", "2"], none, none⟩, ⟨"c", ["nobody", "3"], none, none⟩]

end Sample

open Sample in
theorem oids_resolved_forward :
    (cooling.map Raw.name).Nodup ∧ ∃ map, resolveAll cooling = some map ∧
      ∀ oid, map "fanRpm" = some oid ↔
        ["cooling", "1"] ≠ [] ∧ Expansion cooling ["cooling", "1"] oid := by
  have hnodup : (cooling.map Raw.name).Nodup := by decide
  have hroots : ∀ r ∈ cooling, base r.name = none := by
    intro r hr
    have hnot : smiRoots.get r.name = none := by
      revert r hr
      decide
    rw [base, hnot]
    rfl
  obtain ⟨map, hmap, hiff, -⟩ := oids_resolved hnodup hroots
  exact ⟨hnodup, map, hmap, hiff _ List.mem_cons_self⟩

end Argus.Mib
