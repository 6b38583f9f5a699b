import Argus.Lib.JsonPaths
import Argus.Monitors.Secrets

namespace Argus.Core

open JsValue (Plain Step assign)
open Monitors (isSecretKey redacted AuditEntry)

/-!
# Redacting what is audited

`redact` and `buildAuditEntry` of `audit.ts`, with the clone as the code assigns it, a key at a
time.

* `redact` — the clone of a value; of an array it is the clones of the elements and of an object
  its fields, redacted one by one (`redact_arr`, `redact_obj`).
* `Alike` — the values that differ only in what is under secret keys.
* `Redacts` — what the clone does not show, and what it shows.
* `redact_redacts` — every JSON value is redacted so.
-/

mutual

/-- `redact`. -/
def redact : JsValue → JsValue
  | .null => .null
  | .arr xs => .arr (redactElems xs)
  | .obj source => .obj (cloneFields [] source)
  | .bool b => .bool b
  | .num x => .num x
  | .str s => .str s

/-- `value.map((element) => redact(element))`. -/
def redactElems : List JsValue → List JsValue
  | [] => []
  | element :: rest => redact element :: redactElems rest

/-- The loop over the keys of the source. -/
def cloneFields (clone : Fields JsValue) : Fields JsValue → Fields JsValue
  | [] => clone
  | (key, val) :: rest =>
    if isSecretKey key && !val.isNull then cloneFields (assign clone key (.str redacted)) rest
    else cloneFields (assign clone key (redact val)) rest

end

/-- The value of a field in the clone. -/
def redactField (key : String) (val : JsValue) : JsValue :=
  if isSecretKey key && !val.isNull then .str redacted else redact val

theorem redactField_secret {key : String} (hkey : isSecretKey key = true) (val : JsValue) :
    redactField key val = if val.isNull then .null else .str redacted := by
  cases val <;> simp [redactField, hkey, JsValue.isNull, redact]

theorem redactField_public {key : String} (hkey : isSecretKey key = false) (val : JsValue) :
    redactField key val = redact val := by
  rw [redactField, hkey, Bool.false_and]
  exact if_neg Bool.false_ne_true

/-- As no key comes twice, every assignment adds a field. -/
theorem cloneFields_eq (clone : Fields JsValue) {fs : Fields JsValue}
    (hwf : Fields.WF (clone ++ fs)) (hproto : ∀ f ∈ fs, f.1 ≠ JsValue.protoKey) :
    cloneFields clone fs = clone ++ fs.map (fun f => (f.1, redactField f.1 f.2)) := by
  induction fs generalizing clone with
  | nil => rw [cloneFields, List.map_nil, List.append_nil]
  | cons f fs ih =>
    obtain ⟨key, val⟩ := f
    have hstep : cloneFields clone ((key, val) :: fs)
        = cloneFields (assign clone key (redactField key val)) fs := by
      rw [cloneFields, redactField]
      split <;> rfl
    have hkey : key ∉ clone.map Prod.fst := by
      rw [Fields.WF, List.map_append, List.map_cons] at hwf
      intro hmem
      exact (List.nodup_append.mp hwf).2.2 key hmem key List.mem_cons_self rfl
    have hassign : assign clone key (redactField key val)
        = clone ++ [(key, redactField key val)] := by
      rw [assign, if_neg (hproto _ List.mem_cons_self), Fields.set_of_notMem hkey]
    rw [hstep, hassign, ih, List.append_assoc]
    · rfl
    · simpa [Fields.WF] using hwf
    · exact fun g hg => hproto g (List.mem_cons_of_mem _ hg)

theorem redact_arr (xs : List JsValue) : redact (.arr xs) = .arr (xs.map redact) := by
  have helems : redactElems xs = xs.map redact := by
    induction xs with
    | nil => rfl
    | cons x xs ih => rw [redactElems, ih, List.map_cons]
  rw [redact, helems]

theorem redact_obj {fs : Fields JsValue} (hwf : fs.WF)
    (hproto : ∀ f ∈ fs, f.1 ≠ JsValue.protoKey) :
    redact (.obj fs) = .obj (fs.map (fun f => (f.1, redactField f.1 f.2))) := by
  rw [redact, cloneFields_eq [] (by rwa [List.nil_append]) hproto, List.nil_append]

theorem redact_leaf {v : JsValue} (h : v.isLeaf = true) : redact v = v := by
  cases v with
  | arr xs => cases h
  | obj fs => cases h
  | null | bool | num | str => rfl

theorem isLeaf_redact (v : JsValue) : (redact v).isLeaf = v.isLeaf := by
  cases v <;> rfl

theorem isNull_redact (v : JsValue) : (redact v).isNull = v.isNull := by
  cases v <;> rfl

/-- The clone of the routes, which maps the fields without assigning them, is the same. -/
theorem redact_eq {v : JsValue} (hv : v.Plain) : redact v = Monitors.redact v := by
  induction hv with
  | @leaf v h =>
    cases v with
    | arr xs => cases h
    | obj fs => cases h
    | null | bool | num | str => rfl
  | @arr xs helems ih =>
    have hmap : Monitors.redactElems xs = xs.map Monitors.redact := by
      clear helems ih
      induction xs with
      | nil => rfl
      | cons x xs ihx => rw [Monitors.redactElems, ihx, List.map_cons]
    rw [redact_arr, Monitors.redact, hmap, List.map_congr_left ih]
  | @obj fs hwf hproto hfields ih =>
    have hmap : Monitors.redactFields fs = fs.map Monitors.redactField := by
      clear hwf hproto hfields ih
      induction fs with
      | nil => rfl
      | cons f fs ihf => rw [Monitors.redactFields_cons, ihf, List.map_cons]
    rw [redact_obj hwf hproto, Monitors.redact, hmap]
    refine congrArg JsValue.obj (List.map_congr_left fun f hf => ?_)
    obtain ⟨key, val⟩ := f
    have hval : redact val = Monitors.redact val := ih _ hf
    rw [redactField, hval]
    cases val <;> simp [Monitors.redactField, JsValue.isNull, Monitors.redact]

/-! ### What the clone does not show -/

/-- The same but for values other than null under secret keys. -/
inductive Alike : JsValue → JsValue → Prop
  | refl (v : JsValue) : Alike v v
  | arr {xs ys : List JsValue} (hlen : xs.length = ys.length)
      (helems : ∀ (i : ℕ) x y, xs[i]? = some x → ys[i]? = some y → Alike x y) :
      Alike (.arr xs) (.arr ys)
  | obj {fs gs : Fields JsValue} (hkeys : fs.map Prod.fst = gs.map Prod.fst)
      (hfields : ∀ (i : ℕ) key v w, fs[i]? = some (key, v) → gs[i]? = some (key, w) →
        ¬ (isSecretKey key = true ∧ v.isNull = false ∧ w.isNull = false) → Alike v w) :
      Alike (.obj fs) (.obj gs)

theorem redactField_hidden {key : String} {v w : JsValue}
    (h : isSecretKey key = true ∧ v.isNull = false ∧ w.isNull = false) :
    redactField key v = redactField key w := by
  rw [redactField_secret h.1, redactField_secret h.1, h.2.1, h.2.2]

/-- Where it is not hidden, a field shows the clone of its value. -/
theorem redactField_inj {key : String} {v w : JsValue}
    (h : ¬ (isSecretKey key = true ∧ v.isNull = false ∧ w.isNull = false))
    (heq : redactField key v = redactField key w) : redact v = redact w := by
  cases hkey : isSecretKey key with
  | false => rwa [redactField_public hkey, redactField_public hkey] at heq
  | true =>
    rw [redactField_secret hkey, redactField_secret hkey] at heq
    cases hv : v.isNull with
    | true =>
      cases hw : w.isNull with
      | true => rw [JsValue.isNull_eq_true.mp hv, JsValue.isNull_eq_true.mp hw]
      | false =>
        rw [hv, hw] at heq
        cases heq
    | false =>
      cases hw : w.isNull with
      | true =>
        rw [hv, hw] at heq
        cases heq
      | false => exact absurd ⟨hkey, hv, hw⟩ h

/-- Lists are mapped alike if they are element by element. -/
theorem map_eq_map_iff {α β : Type*} {f g : α → β} {xs ys : List α} :
    xs.map f = ys.map g ↔ xs.length = ys.length
      ∧ ∀ (i : ℕ) x y, xs[i]? = some x → ys[i]? = some y → f x = g y := by
  constructor
  · intro h
    refine ⟨by simpa using congrArg List.length h, fun i x y hx hy => ?_⟩
    have hi := congrArg (·[i]?) h
    simp only [List.getElem?_map, hx, hy, Option.map_some, Option.some.injEq] at hi
    exact hi
  · rintro ⟨hlen, hpoint⟩
    refine List.ext_getElem (by simpa using hlen) fun i hi hi' => ?_
    rw [List.getElem_map, List.getElem_map]
    exact hpoint i _ _ (List.getElem?_eq_getElem (by simpa using hi))
      (List.getElem?_eq_getElem (by simpa using hi'))

/-- The keys in their order, and the values one by one. -/
theorem redact_obj_eq_iff {fs gs : Fields JsValue} (hfs : (JsValue.obj fs).Plain)
    (hgs : (JsValue.obj gs).Plain) :
    redact (.obj fs) = redact (.obj gs) ↔ fs.map Prod.fst = gs.map Prod.fst
      ∧ ∀ (i : ℕ) key v w, fs[i]? = some (key, v) → gs[i]? = some (key, w) →
        redactField key v = redactField key w := by
  rw [redact_obj hfs.wf hfs.proto, redact_obj hgs.wf hgs.proto, JsValue.obj.injEq,
    map_eq_map_iff, map_eq_map_iff]
  constructor
  · rintro ⟨hlen, hpoint⟩
    exact ⟨⟨hlen, fun i f g hf hg => (Prod.mk.inj (hpoint i f g hf hg)).1⟩,
      fun i key v w hv hw => (Prod.mk.inj (hpoint i _ _ hv hw)).2⟩
  · rintro ⟨⟨hlen, hkeys⟩, hpoint⟩
    refine ⟨hlen, fun i f g hf hg => ?_⟩
    obtain ⟨key, v⟩ := f
    obtain ⟨key', w⟩ := g
    obtain rfl : key = key' := hkeys i _ _ hf hg
    rw [hpoint i key v w hf hg]

theorem redact_eq_of_alike {v w : JsValue} (h : Alike v w) (hv : v.Plain) (hw : w.Plain) :
    redact v = redact w := by
  induction h with
  | refl v => rfl
  | @arr xs ys hlen _ ih =>
    rw [redact_arr, redact_arr, JsValue.arr.injEq, map_eq_map_iff]
    refine ⟨hlen, fun i x y hx hy => ih i x y hx hy ?_ ?_⟩
    · exact hv.elems x (List.mem_of_getElem? hx)
    · exact hw.elems y (List.mem_of_getElem? hy)
  | @obj fs gs hkeys _ ih =>
    refine (redact_obj_eq_iff hv hw).mpr ⟨hkeys, fun i key v w hx hy => ?_⟩
    by_cases hidden : isSecretKey key = true ∧ v.isNull = false ∧ w.isNull = false
    · exact redactField_hidden hidden
    · have hval : redact v = redact w :=
        ih i key v w hx hy hidden (hv.fields _ (List.mem_of_getElem? hx))
          (hw.fields _ (List.mem_of_getElem? hy))
      have hnull : v.isNull = w.isNull := by rw [← isNull_redact v, hval, isNull_redact]
      rw [redactField, redactField, hval, hnull]

/-- Two values with one clone are alike: it shows everything but what is hidden. -/
theorem alike_of_redact_eq {v w : JsValue} (hv : v.Plain) (hw : w.Plain)
    (h : redact v = redact w) : Alike v w := by
  induction hv generalizing w with
  | @leaf v hleaf =>
    have hw' : w.isLeaf = true := by rw [← isLeaf_redact w, ← h, isLeaf_redact, hleaf]
    rw [redact_leaf hleaf, redact_leaf hw'] at h
    rw [h]
    exact Alike.refl w
  | @arr xs helems ih =>
    cases w with
    | arr ys =>
      rw [redact_arr, redact_arr, JsValue.arr.injEq, map_eq_map_iff] at h
      refine Alike.arr h.1 fun i x y hx hy => ?_
      exact ih x (List.mem_of_getElem? hx) (hw.elems y (List.mem_of_getElem? hy)) (h.2 i x y hx hy)
    | null | bool | num | str | obj => cases h
  | @obj fs hwf hproto hfields ih =>
    cases w with
    | obj gs =>
      obtain ⟨hkeys, hpoint⟩ := (redact_obj_eq_iff (.obj hwf hproto hfields) hw).mp h
      refine Alike.obj hkeys fun i key v w hx hy hshown => ?_
      exact ih (key, v) (List.mem_of_getElem? hx) (hw.fields _ (List.mem_of_getElem? hy))
        (redactField_inj hshown (hpoint i key v w hx hy))
    | null | bool | num | str | arr => cases h

theorem redact_eq_iff {v w : JsValue} (hv : v.Plain) (hw : w.Plain) :
    redact v = redact w ↔ Alike v w :=
  ⟨alike_of_redact_eq hv hw, fun h => redact_eq_of_alike h hv hw⟩

/-! ### What the clone shows -/

theorem plain_redact {v : JsValue} (hv : v.Plain) : (redact v).Plain := by
  induction hv with
  | leaf h => exact .leaf ((isLeaf_redact _).trans h)
  | @arr xs helems ih =>
    rw [redact_arr]
    refine .arr fun x hx => ?_
    obtain ⟨y, hy, rfl⟩ := List.mem_map.mp hx
    exact ih y hy
  | @obj fs hwf hproto hfields ih =>
    rw [redact_obj hwf hproto]
    refine .obj ?_ ?_ ?_
    · rw [Fields.WF, List.map_map]
      exact hwf
    · intro g hg
      obtain ⟨f, hf, rfl⟩ := List.mem_map.mp hg
      exact hproto f hf
    · intro g hg
      obtain ⟨f, hf, rfl⟩ := List.mem_map.mp hg
      show (redactField f.1 f.2).Plain
      rw [redactField]
      split
      · exact .leaf rfl
      · exact ih f hf

/-- A value and its clone are alike, so that they have the same clone. -/
theorem alike_redact {v : JsValue} (hv : v.Plain) : Alike (redact v) v := by
  induction hv with
  | @leaf v h =>
    rw [redact_leaf h]
    exact Alike.refl v
  | @arr xs helems ih =>
    rw [redact_arr]
    refine Alike.arr (List.length_map _) fun i x y hx hy => ?_
    rw [List.getElem?_map, hy, Option.map_some, Option.some.injEq] at hx
    rw [← hx]
    exact ih y (List.mem_of_getElem? hy)
  | @obj fs hwf hproto hfields ih =>
    rw [redact_obj hwf hproto]
    refine Alike.obj (List.map_map ..) fun i key v w hx hy hshown => ?_
    rw [List.getElem?_map, hy, Option.map_some, Option.some.injEq, Prod.mk.injEq] at hx
    obtain ⟨-, rfl⟩ := hx
    have hval := ih (key, w) (List.mem_of_getElem? hy)
    rw [redactField] at hshown ⊢
    split
    · next hhidden =>
      -- what is under a secret key has become a text that does not tell it
      rw [if_pos hhidden] at hshown
      rw [Bool.and_eq_true, Bool.not_eq_true'] at hhidden
      exact absurd ⟨hhidden.1, rfl, hhidden.2⟩ hshown
    · exact hval

/-- A step that does not go under a secret key. -/
def isPublic : Step → Bool
  | .index _ => true
  | .key k => !isSecretKey k

theorem child_redact {v : JsValue} (hv : v.Plain) {s : Step} (hs : isPublic s = true) :
    (redact v).child s = (v.child s).map redact := by
  cases v with
  | null | bool | num | str => rfl
  | arr xs =>
    rw [redact_arr]
    cases s with
    | index i => exact List.getElem?_map
    | key k => rfl
  | obj fs =>
    rw [redact_obj hv.wf hv.proto]
    cases s with
    | index i => rfl
    | key k =>
      have hkey : isSecretKey k = false := by simpa [isPublic] using hs
      show Fields.get (fs.map _) k = (Fields.get fs k).map redact
      rw [Fields.get_map redactField fs k]
      exact congrArg (fun g => (Fields.get fs k).map g) (funext fun w => redactField_public hkey w)

theorem child_redact_secret {v : JsValue} (hv : v.Plain) {k : String}
    (hk : isSecretKey k = true) :
    (redact v).child (.key k)
      = (v.child (.key k)).map (fun w => if w.isNull then .null else .str redacted) := by
  cases v with
  | null | bool | num | str | arr => rfl
  | obj fs =>
    rw [redact_obj hv.wf hv.proto]
    show Fields.get (fs.map _) k = (Fields.get fs k).map _
    rw [Fields.get_map redactField fs k]
    exact congrArg (fun g => (Fields.get fs k).map g) (funext fun w => redactField_secret hk w)

/-- At the end of a path the clone has the clone of what the value has there. -/
theorem descend_redact {v : JsValue} (hv : v.Plain) {path : List Step}
    (hpath : path.all isPublic = true) : (redact v).descend path = (v.descend path).map redact := by
  induction path generalizing v with
  | nil => rfl
  | cons s path ih =>
    rw [List.all_cons, Bool.and_eq_true] at hpath
    rw [JsValue.descend_cons, JsValue.descend_cons, child_redact hv hpath.1]
    cases hw : v.child s with
    | none => rfl
    | some w => exact ih (hv.child hw) hpath.2

/-- The clone shows nothing of what is under secret keys and is its own clone; elsewhere it shows
    all: what can be reached, every value without parts, and whether a secret is null. -/
structure Redacts (v : JsValue) : Prop where
  noninterfering : ∀ w : JsValue, w.Plain → (redact v = redact w ↔ Alike v w)
  idempotent : redact (redact v) = redact v
  same : ∀ path, path.all isPublic = true →
    (redact v).descend path = (v.descend path).map redact
  leaf : ∀ path, path.all isPublic = true → ∀ w : JsValue, w.isLeaf = true →
    ((redact v).descend path = some w ↔ v.descend path = some w)
  secret : ∀ path k, path.all isPublic = true → isSecretKey k = true →
    (redact v).descend (path ++ [.key k])
      = (v.descend (path ++ [.key k])).map (fun w => if w.isNull then .null else .str redacted)

theorem redact_redacts {v : JsValue} (hv : v.Plain) : Redacts v where
  noninterfering w hw := redact_eq_iff hv hw
  idempotent := redact_eq_of_alike (alike_redact hv) (plain_redact hv) hv
  same path hpath := descend_redact hv hpath
  leaf path hpath w hw := by
    rw [descend_redact hv hpath, Option.map_eq_some_iff]
    constructor
    · rintro ⟨u, hu, rfl⟩
      rw [isLeaf_redact] at hw
      rw [redact_leaf hw, hu]
    · intro h
      exact ⟨w, h, redact_leaf hw⟩
  secret path k hpath hk := by
    rw [JsValue.descend_append, JsValue.descend_append, descend_redact hv hpath]
    cases hw : v.descend path with
    | none => rfl
    | some w =>
      have hplain : w.Plain := hv.descend hw
      show ((redact w).child (.key k)).bind _ = ((w.child (.key k)).bind _).map _
      rw [child_redact_secret hplain hk]
      cases w.child (.key k) <;> rfl

namespace Sample

/-- A user with a password and a missing token, as it comes in a request. -/
def audited : JsValue :=
  .obj [("name", .str "ada"), ("passwordHash", .str "x"), ("apiToken", .null),
    ("roles", .arr [.obj [("id", .bool true)]])]

theorem audited_plain : audited.Plain := by
  refine .obj (by decide) (by decide) ?_
  simp only [List.forall_mem_cons, List.not_mem_nil, false_imp_iff, implies_true, and_true]
  refine ⟨.leaf rfl, .leaf rfl, .leaf rfl, .arr ?_⟩
  simp only [List.forall_mem_cons, List.not_mem_nil, false_imp_iff, implies_true, and_true]
  refine .obj (by decide) (by decide) ?_
  simp only [List.forall_mem_cons, List.not_mem_nil, false_imp_iff, implies_true, and_true]
  exact .leaf rfl

end Sample

theorem redact_redacts_audited : Redacts Sample.audited := redact_redacts Sample.audited_plain

/-! ### Audit entries -/

structure AuditEntryInput where
  actor : Option String
  actorRole : Option String
  action : String
  category : String
  target : Option String
  before : Option JsValue
  after : Option JsValue
  ip : Option String

/-- `buildAuditEntry`. -/
def buildAuditEntry (input : AuditEntryInput) : AuditEntry where
  actor := input.actor
  actorRole := input.actorRole
  action := input.action
  category := input.category
  target := input.target
  before := (input.before.map redact).getD .null
  after := (input.after.map redact).getD .null
  ip := input.ip

/-- What is under secret keys does not change the entry. -/
theorem buildAuditEntry_eq_of_alike (input : AuditEntryInput) {v w v' w' : JsValue}
    (hbefore : Alike v w) (hafter : Alike v' w') (hv : v.Plain) (hw : w.Plain) (hv' : v'.Plain)
    (hw' : w'.Plain) :
    buildAuditEntry { input with before := some v, after := some v' }
      = buildAuditEntry { input with before := some w, after := some w' } := by
  simp only [buildAuditEntry, Option.map_some, Option.getD_some,
    redact_eq_of_alike hbefore hv hw, redact_eq_of_alike hafter hv' hw']

end Argus.Core
