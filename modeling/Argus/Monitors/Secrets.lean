import Argus.Monitors.Routes

namespace Argus.Monitors

/-!
# Secrets in configurations

* `secretStrings` — the non-empty texts under a name of `SECRET_FIELDS` in a value, at any
  depth; redaction adds none but its mark (`secretStrings_redact`).
* `OneSecret` — a configuration with at most one secret, at its top level: the kind
  `extractCred`, which stops at the first one it finds, stores without any
  (`secretStrings_stored`).
* `Config.mask` — a configuration with its secrets blanked; what is stored is the same
  (`extractCred_mask`).
-/

/-! ### Secrets in a value -/

mutual

/-- The non-empty texts under a secret name, at any depth. -/
def secretStrings : JsValue → List String
  | .arr xs => secretStringsElems xs
  | .obj fs => secretStringsFields fs
  | .null => []
  | .bool _ => []
  | .num _ => []
  | .str _ => []

def secretStringsElems : List JsValue → List String
  | [] => []
  | x :: xs => secretStrings x ++ secretStringsElems xs

def secretStringsFields : List (String × JsValue) → List String
  | [] => []
  | (k, .str s) :: fs =>
    (if k ∈ secretFields ∧ s ≠ "" then [s] else []) ++ secretStringsFields fs
  | (_, v) :: fs => secretStrings v ++ secretStringsFields fs

end

theorem secretStringsElems_eq (xs : List JsValue) :
    secretStringsElems xs = xs.flatMap secretStrings := by
  induction xs with
  | nil => simp [secretStringsElems]
  | cons x xs ih => rw [secretStringsElems, ih, List.flatMap_cons]

/-- The secrets of one field. -/
def fieldStrings (f : String × JsValue) : List String :=
  match f.2 with
  | .str s => if f.1 ∈ secretFields ∧ s ≠ "" then [s] else []
  | v => secretStrings v

theorem secretStringsFields_eq (fs : List (String × JsValue)) :
    secretStringsFields fs = fs.flatMap fieldStrings := by
  induction fs with
  | nil => simp [secretStringsFields]
  | cons f fs ih =>
    obtain ⟨k, v⟩ := f
    cases v <;> simp [secretStringsFields, fieldStrings, ih]

theorem secretStrings_obj (fs : List (String × JsValue)) :
    secretStrings (.obj fs) = fs.flatMap fieldStrings := by
  rw [secretStrings, secretStringsFields_eq]

theorem secretStrings_arr (xs : List JsValue) :
    secretStrings (.arr xs) = xs.flatMap secretStrings := by
  rw [secretStrings, secretStringsElems_eq]

/-- A field after redaction. -/
def redactField (f : String × JsValue) : String × JsValue :=
  match f.2 with
  | .null => (f.1, .null)
  | v => (f.1, if isSecretKey f.1 then .str redacted else redact v)

theorem redactFields_cons (f : String × JsValue) (fs : List (String × JsValue)) :
    redactFields (f :: fs) = redactField f :: redactFields fs := by
  obtain ⟨k, v⟩ := f
  cases v <;> rfl

private theorem fieldStrings_redactField {k : String} {v : JsValue} {s : String}
    (ih : s ∈ secretStrings (redact v) → s = redacted ∨ s ∈ secretStrings v)
    (h : s ∈ fieldStrings (redactField (k, v))) : s = redacted ∨ s ∈ fieldStrings (k, v) := by
  have hmark : s ∈ fieldStrings (k, .str redacted) → s = redacted := by
    intro hmem
    simp only [fieldStrings] at hmem
    split at hmem
    · exact List.mem_singleton.mp hmem
    · exact absurd hmem List.not_mem_nil
  by_cases hnull : v = .null
  · rw [hnull] at h ⊢
    exact .inr h
  have hfield : redactField (k, v) = (k, if isSecretKey k then .str redacted else redact v) := by
    cases v <;> first | rfl | exact absurd rfl hnull
  rw [hfield] at h
  split at h
  · exact .inl (hmark h)
  · cases v with
    | arr xs => exact ih h
    | obj fs => exact ih h
    | _ => exact .inr h

mutual

/-- What redaction leaves under a secret name was there, or is the mark. -/
theorem secretStrings_redact : ∀ (v : JsValue) (s : String), s ∈ secretStrings (redact v) →
    s = redacted ∨ s ∈ secretStrings v
  | .arr xs, s, h => by
    rw [redact, secretStrings] at h
    rw [secretStrings]
    exact secretStringsElems_redact xs s h
  | .obj fs, s, h => by
    rw [redact, secretStrings] at h
    rw [secretStrings]
    exact secretStringsFields_redact fs s h
  | .null, _, h => .inr h
  | .bool _, _, h => .inr h
  | .num _, _, h => .inr h
  | .str _, _, h => .inr h

theorem secretStringsElems_redact : ∀ (xs : List JsValue) (s : String),
    s ∈ secretStringsElems (redactElems xs) → s = redacted ∨ s ∈ secretStringsElems xs
  | [], _, h => .inr h
  | x :: xs, s, h => by
    rw [redactElems, secretStringsElems, List.mem_append] at h
    rw [secretStringsElems, List.mem_append]
    rcases h with h | h
    · rcases secretStrings_redact x s h with h | h
      · exact .inl h
      · exact .inr (.inl h)
    · rcases secretStringsElems_redact xs s h with h | h
      · exact .inl h
      · exact .inr (.inr h)

theorem secretStringsFields_redact : ∀ (fs : List (String × JsValue)) (s : String),
    s ∈ secretStringsFields (redactFields fs) → s = redacted ∨ s ∈ secretStringsFields fs
  | [], _, h => .inr h
  | (k, v) :: fs, s, h => by
    rw [redactFields_cons, secretStringsFields_eq, List.flatMap_cons, List.mem_append,
      ← secretStringsFields_eq] at h
    rw [secretStringsFields_eq, List.flatMap_cons, List.mem_append, ← secretStringsFields_eq]
    rcases h with h | h
    · rcases fieldStrings_redactField (secretStrings_redact v s) h with h | h
      · exact .inl h
      · exact .inr (.inl h)
    · rcases secretStringsFields_redact fs s h with h | h
      · exact .inl h
      · exact .inr (.inr h)

end

/-! ### Extraction -/

/-- At most one secret, and none below the top level. -/
def Config.OneSecret (c : Config) : Prop :=
  c.secrets.length ≤ 1 ∧ ∀ f ∈ c.fields, secretStrings f.2 = []

theorem Config.mem_secrets {c : Config} {k s : String} :
    (k, s) ∈ c.secrets ↔ k ∈ secretFields ∧ c.secret k = some s := by
  rw [Config.secrets, List.mem_filterMap]
  constructor
  · rintro ⟨field, hfield, hs⟩
    obtain ⟨v, hv, heq⟩ := Option.map_eq_some_iff.mp hs
    obtain ⟨rfl, rfl⟩ := Prod.mk.inj heq
    exact ⟨hfield, hv⟩
  · rintro ⟨hk, hs⟩
    exact ⟨k, hk, by rw [hs, Option.map_some]⟩

theorem Config.secret_eq_some {c : Config} {k s : String} :
    c.secret k = some s ↔ c.get k = some (.str s) ∧ s ≠ "" := by
  unfold Config.secret
  split
  · next t hget =>
    rw [hget]
    by_cases ht : t = ""
    · rw [if_pos ht]
      simp [ht, eq_comm]
    · rw [if_neg ht]
      simp only [Option.some.injEq, JsValue.str.injEq]
      exact ⟨fun h => ⟨h, h ▸ ht⟩, fun h => h.1⟩
  · next hget =>
    simp only [reduceCtorEq, false_iff, not_and]
    intro h
    exact absurd h (hget s)

/-- A configuration shows a secret at its top level, or below. -/
theorem Config.secretStrings_eq_nil {c : Config} :
    secretStrings (.obj c.fields) = [] ↔
      c.secrets = [] ∧ ∀ f ∈ c.fields, secretStrings f.2 = [] := by
  rw [secretStrings_obj, List.flatMap_eq_nil_iff]
  constructor
  · intro h
    refine ⟨List.eq_nil_iff_forall_not_mem.mpr (fun ⟨k, s⟩ hmem => ?_), fun f hf => ?_⟩
    · obtain ⟨hk, hs⟩ := Config.mem_secrets.mp hmem
      obtain ⟨hget, hne⟩ := Config.secret_eq_some.mp hs
      have hnil := h _ (Fields.mem_of_get hget)
      simp only [fieldStrings, if_pos (And.intro hk hne)] at hnil
      exact absurd hnil (List.cons_ne_nil _ _)
    · have hnil := h f hf
      obtain ⟨k, v⟩ := f
      cases v with
      | str s => rfl
      | _ => exact hnil
  · rintro ⟨hnone, hdeep⟩ ⟨k, v⟩ hf
    have hv := hdeep _ hf
    cases v with
    | str s =>
      simp only [fieldStrings]
      split
      · next hsecret =>
        have hs := Config.secret_eq_some.mpr ⟨Fields.get_of_mem c.wf hf, hsecret.2⟩
        have hmem := Config.mem_secrets.mpr ⟨hsecret.1, hs⟩
        rw [hnone] at hmem
        exact absurd hmem List.not_mem_nil
      · rfl
    | _ => exact hv

/-- What `extractCred` finds. -/
theorem extractCred_eq (c : Config) :
    extractCred (some c) = match c.secrets.head? with
      | some (field, v) => (some v, some ((c.without field).set "credField" (.str field)))
      | none => (none, some c) := by
  rw [Config.secrets, List.head?_filterMap]
  rfl

/-- The two ways of `extractCred`. -/
theorem extractCred_cases (c : Config) :
    c.secrets = [] ∧ extractCred (some c) = (none, some c) ∨
    ∃ field v rest, c.secrets = (field, v) :: rest ∧
      extractCred (some c)
        = (some v, some ((c.without field).set "credField" (.str field))) := by
  rw [extractCred_eq]
  cases hsecrets : c.secrets with
  | nil => exact .inl ⟨rfl, rfl⟩
  | cons s rest => exact .inr ⟨s.1, s.2, rest, rfl, rfl⟩

theorem config_eq_none {config : Option Config} (h : (extractCred config).2 = none) :
    config = none := by
  cases config with
  | none => rfl
  | some c =>
    rcases extractCred_cases c with ⟨-, heq⟩ | ⟨field, v, rest, -, heq⟩
    · rw [heq] at h
      cases h
    · rw [heq] at h
      cases h

theorem secret_stored {c : Config} {field k : String} (hk : k ∈ secretFields) :
    ((c.without field).set "credField" (.str field)).secret k
      = if k = field then none else c.secret k := by
  have hne : k ≠ "credField" := by
    rintro rfl
    exact absurd hk (by decide)
  unfold Config.secret
  rw [Config.get_set, if_neg hne, Config.get_without]
  by_cases hfield : k = field
  · rw [if_pos hfield, if_pos hfield]
  · rw [if_neg hfield, if_neg hfield]

/-- A configuration with one secret is stored without it. -/
theorem secretStrings_stored {c c' : Config} (h : c.OneSecret)
    (hstored : (extractCred (some c)).2 = some c') : secretStrings (.obj c'.fields) = [] := by
  obtain ⟨hone, hdeep⟩ := h
  rw [Config.secretStrings_eq_nil]
  rcases extractCred_cases c with ⟨hnone, heq⟩ | ⟨field, v, rest, hsecrets, heq⟩
  · rw [heq] at hstored
    obtain rfl := Option.some.inj hstored
    exact ⟨hnone, hdeep⟩
  · rw [heq] at hstored
    obtain rfl := Option.some.inj hstored
    have hrest : rest = [] := by
      rw [hsecrets, List.length_cons] at hone
      exact List.eq_nil_of_length_eq_zero (by omega)
    refine ⟨List.eq_nil_iff_forall_not_mem.mpr (fun ⟨k, s⟩ hmem => ?_), fun f hf => ?_⟩
    · -- another secret would have been a second one
      obtain ⟨hk, hs⟩ := Config.mem_secrets.mp hmem
      rw [secret_stored hk] at hs
      split at hs
      · cases hs
      · next hne =>
        have hmem' := Config.mem_secrets.mpr ⟨hk, hs⟩
        rw [hsecrets, hrest, List.mem_singleton] at hmem'
        exact hne (Prod.mk.inj hmem').1
    · rcases Fields.mem_set hf with rfl | hmem
      · rfl
      · exact hdeep f (List.mem_of_mem_filter hmem)

/-- The configuration that is stored, where a missing one stays as it was. -/
theorem secretStrings_stored_getD {config : Option Config} {old : Config}
    (h : ∀ c, config = some c → c.OneSecret) (hold : secretStrings (.obj old.fields) = []) :
    secretStrings (.obj ((extractCred config).2.getD old).fields) = [] := by
  cases config with
  | none => exact hold
  | some c =>
    cases hstored : (extractCred (some c)).2 with
    | none => exact hold
    | some c' => exact secretStrings_stored (h c rfl) hstored

/-! ### Blanked requests -/

/-- What stands for every secret. -/
def blank : String := "•"

def maskValue (k : String) : JsValue → JsValue
  | .str s => .str (if k ∈ secretFields ∧ s ≠ "" then blank else s)
  | v => v

/-- The configuration with its secrets blanked. -/
def Config.mask (c : Config) : Config where
  fields := c.fields.map (fun f => (f.1, maskValue f.1 f.2))
  wf := by
    rw [Fields.WF, List.map_map]
    exact c.wf

theorem Config.get_mask (c : Config) (k : String) : c.mask.get k = (c.get k).map (maskValue k) :=
  Fields.get_map maskValue c.fields k

theorem Config.secret_mask {c : Config} {k : String} (hk : k ∈ secretFields) :
    c.mask.secret k = (c.secret k).map (fun _ => blank) := by
  unfold Config.secret
  rw [Config.get_mask]
  cases hget : c.get k with
  | none => rfl
  | some v =>
    cases v with
    | str s =>
      by_cases hs : s = ""
      · simp [maskValue, hs]
      · have hblank : maskValue k (.str s) = .str blank := by simp [maskValue, hk, hs]
        simp [hblank, hs, blank]
    | _ => rfl

theorem Config.secrets_mask (c : Config) :
    c.mask.secrets = c.secrets.map (fun s => (s.1, blank)) := by
  rw [Config.secrets, Config.secrets, List.map_filterMap]
  apply List.filterMap_congr
  intro k hk
  rw [Config.secret_mask hk, Option.map_map, Option.map_map]
  rfl

/-- A field that is no secret is left as it is. -/
theorem mask_field {c : Config} {f : String × JsValue} (hf : f ∈ c.fields)
    (h : ∀ s, (f.1, s) ∉ c.secrets) : (f.1, maskValue f.1 f.2) = f := by
  obtain ⟨k, v⟩ := f
  cases v with
  | str s =>
    have hplain : ¬(k ∈ secretFields ∧ s ≠ "") := by
      rintro ⟨hk, hs⟩
      have hsecret := Config.secret_eq_some.mpr ⟨Fields.get_of_mem c.wf hf, hs⟩
      exact h s (Config.mem_secrets.mpr ⟨hk, hsecret⟩)
    simp only [maskValue, if_neg hplain]
  | _ => rfl

theorem mask_eq_self {c : Config} (h : c.secrets = []) : c.mask = c := by
  apply Config.ext
  refine (List.map_congr_left (g := id) fun f hf => mask_field hf fun s hs => ?_).trans
    (List.map_id _)
  rw [h] at hs
  exact List.not_mem_nil hs

theorem mask_without {c : Config} {field v : String} (h : c.secrets = [(field, v)]) :
    c.mask.without field = c.without field := by
  apply Config.ext
  show (c.fields.map (fun f => (f.1, maskValue f.1 f.2))).filter (fun f => f.1 != field)
    = c.fields.filter (fun f => f.1 != field)
  rw [List.filter_map]
  refine (List.map_congr_left (g := id) fun f hf => ?_).trans (List.map_id _)
  obtain ⟨hmem, hne⟩ := List.mem_filter.mp hf
  refine mask_field hmem fun s hs => ?_
  rw [h, List.mem_singleton] at hs
  exact (bne_iff_ne.mp hne) (Prod.mk.inj hs).1

/-- What is stored of a configuration with one secret does not depend on it. -/
theorem extractCred_mask {c : Config} (h : c.OneSecret) :
    (extractCred (some c.mask)).2 = (extractCred (some c)).2 := by
  cases hsecrets : c.secrets with
  | nil => rw [mask_eq_self hsecrets]
  | cons s rest =>
    obtain ⟨field, v⟩ := s
    obtain rfl : rest = [] := by
      have hone := h.1
      rw [hsecrets, List.length_cons] at hone
      exact List.eq_nil_of_length_eq_zero (by omega)
    rw [extractCred_eq, extractCred_eq, Config.secrets_mask, hsecrets]
    simp only [List.map_cons, List.head?_cons]
    rw [mask_without hsecrets]

end Argus.Monitors
