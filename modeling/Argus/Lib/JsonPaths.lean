import Argus.Lib.JsValue

/-!
# Paths into JSON values

* `Step`, `descend` — an element of an array or a field of an object, and the value at the end of
  a path of them.
* `Plain` — the values whose objects have no field twice, and none that an assignment would take
  for the prototype.
* `assign` — `clone[key] = value` for an object that began as `{}`.
-/

namespace JsValue

inductive Step
  | index (i : ℕ)
  | key (k : String)
deriving DecidableEq, Repr

/-- `v[i]` of an array and `v[k]` of an object. -/
def child : JsValue → Step → Option JsValue
  | .arr xs, .index i => xs[i]?
  | .obj fs, .key k => Fields.get fs k
  | _, _ => none

def descend : JsValue → List Step → Option JsValue
  | v, [] => some v
  | v, s :: path => (v.child s).bind (fun w => w.descend path)

theorem descend_cons (v : JsValue) (s : Step) (path : List Step) :
    v.descend (s :: path) = (v.child s).bind (fun w => w.descend path) := rfl

theorem descend_append (v : JsValue) (p q : List Step) :
    v.descend (p ++ q) = (v.descend p).bind (fun w => w.descend q) := by
  induction p generalizing v with
  | nil => rfl
  | cons s p ih =>
    rw [List.cons_append, descend_cons, descend_cons, Option.bind_assoc]
    exact Option.bind_congr fun w _ => ih w

/-- Nothing to descend into. -/
def isLeaf : JsValue → Bool
  | .arr _ | .obj _ => false
  | _ => true

/-! ### Objects as they are built -/

/-- The name that an assignment takes for the prototype of the object. -/
def protoKey : String := "__proto__"

/-- `clone[key] = value`. -/
def assign (clone : Fields JsValue) (key : String) (value : JsValue) : Fields JsValue :=
  if key = protoKey then clone else clone.set key value

/-- No object in it has a field twice, or one named like the prototype. -/
inductive Plain : JsValue → Prop
  | leaf {v : JsValue} (h : v.isLeaf = true) : Plain v
  | arr {xs : List JsValue} (helems : ∀ x ∈ xs, Plain x) : Plain (.arr xs)
  | obj {fs : Fields JsValue} (hwf : fs.WF) (hproto : ∀ f ∈ fs, f.1 ≠ protoKey)
      (hfields : ∀ f ∈ fs, Plain f.2) : Plain (.obj fs)

theorem Plain.elems {xs : List JsValue} (h : (JsValue.arr xs).Plain) : ∀ x ∈ xs, x.Plain := by
  cases h with
  | leaf hleaf => cases hleaf
  | arr helems => exact helems

theorem Plain.wf {fs : Fields JsValue} (h : (JsValue.obj fs).Plain) : fs.WF := by
  cases h with
  | leaf hleaf => cases hleaf
  | obj hwf _ _ => exact hwf

theorem Plain.proto {fs : Fields JsValue} (h : (JsValue.obj fs).Plain) :
    ∀ f ∈ fs, f.1 ≠ protoKey := by
  cases h with
  | leaf hleaf => cases hleaf
  | obj _ hproto _ => exact hproto

theorem Plain.fields {fs : Fields JsValue} (h : (JsValue.obj fs).Plain) : ∀ f ∈ fs, f.2.Plain := by
  cases h with
  | leaf hleaf => cases hleaf
  | obj _ _ hfields => exact hfields

theorem Plain.child {v w : JsValue} {s : Step} (hv : v.Plain) (h : v.child s = some w) :
    w.Plain := by
  cases v with
  | null | bool | num | str => cases h
  | arr xs =>
    cases s with
    | index i => exact hv.elems w (List.mem_of_getElem? h)
    | key k => cases h
  | obj fs =>
    cases s with
    | index i => cases h
    | key k => exact hv.fields (k, w) (Fields.mem_of_get h)

theorem Plain.descend {v w : JsValue} {path : List Step} (hv : v.Plain)
    (h : v.descend path = some w) : w.Plain := by
  induction path generalizing v with
  | nil =>
    obtain rfl := Option.some.inj h
    exact hv
  | cons s path ih =>
    rw [descend_cons] at h
    obtain ⟨u, hu, hw⟩ := Option.bind_eq_some_iff.mp h
    exact ih (hv.child hu) hw

end JsValue

namespace Fields

variable {α : Type*}

/-- A new field goes to the end. -/
theorem set_of_notMem {fs : Fields α} {k : String} {v : α} (h : k ∉ fs.map Prod.fst) :
    fs.set k v = fs ++ [(k, v)] := by
  rw [set, if_neg]
  intro hany
  obtain ⟨f, hf, heq⟩ := List.any_eq_true.mp hany
  exact h (List.mem_map.mpr ⟨f, hf, beq_iff_eq.mp heq⟩)

end Fields
