import Mathlib.Data.List.Nodup
import Mathlib.Data.List.Perm.Basic
import Mathlib.Logic.Function.Basic

/-!
# Saturation of a list of definitions

Definitions give names a meaning that depends on the meaning of other names, in any order and
perhaps in circles.  They are worked off in passes over the list, in place: a definition whose
meaning can be computed from what is known is entered, until a pass enters nothing.

* `pass`, `loop` — the algorithm; `loop` runs out of fuel, or ends.
* `loop_isSome` — as many passes as there are definitions, and one more, are enough.
* `Derives` — the meanings that have a finite derivation.
* `loop_eq_some_iff` — the loop finds exactly these, if no name is defined twice and evaluation
  is monotone; so the order of the definitions has no influence (`loop_perm`).
-/

namespace Saturation

variable {κ β ν : Type*}

/-- What is known in `m` is known in `m'`. -/
def Extends (m m' : κ → Option ν) : Prop := ∀ k v, m k = some v → m' k = some v

theorem Extends.refl (m : κ → Option ν) : Extends m m := fun _ _ h => h

theorem Extends.trans {m₁ m₂ m₃ : κ → Option ν} (h : Extends m₁ m₂) (h' : Extends m₂ m₃) :
    Extends m₁ m₃ :=
  fun k v hk => h' k v (h k v hk)

variable [DecidableEq κ]

theorem Extends.update {m : κ → Option ν} {k : κ} (hnone : m k = none) (v : ν) :
    Extends m (Function.update m k (some v)) := by
  intro j w hj
  have hne : j ≠ k := by
    rintro rfl
    exact absurd (hnone.symm.trans hj) (by simp)
  rwa [Function.update_of_ne hne]

/-! ### The algorithm -/

section Algorithm

variable (eval : β → (κ → Option ν) → Option ν)

/-- One definition; the flag says that something was entered. -/
def visit (s : (κ → Option ν) × Bool) (d : κ × β) : (κ → Option ν) × Bool :=
  if (s.1 d.1).isSome then s
  else match eval d.2 s.1 with
    | some v => (Function.update s.1 d.1 (some v), true)
    | none => s

def pass (defs : List (κ × β)) (m : κ → Option ν) : (κ → Option ν) × Bool :=
  defs.foldl (visit eval) (m, false)

/-- Passes until one changes nothing; `none` when the fuel is used up before. -/
def loop (defs : List (κ × β)) : ℕ → (κ → Option ν) → Option (κ → Option ν)
  | 0, _ => none
  | fuel + 1, m =>
    let after := pass eval defs m
    if after.2 then loop defs fuel after.1 else some after.1

/-- The definitions whose name is not known. -/
def missing (defs : List (κ × β)) (m : κ → Option ν) : ℕ :=
  defs.countP fun d => (m d.1).isNone

variable {eval} {defs : List (κ × β)} {m m' : κ → Option ν}

variable (eval) in
/-- **Inversion.**  What a visit does. -/
theorem visit_cases (m : κ → Option ν) (flag : Bool) (d : κ × β) :
    ((m d.1).isSome = true ∧ visit eval (m, flag) d = (m, flag)) ∨
    (∃ v, m d.1 = none ∧ eval d.2 m = some v ∧
      visit eval (m, flag) d = (Function.update m d.1 (some v), true)) ∨
    (m d.1 = none ∧ eval d.2 m = none ∧ visit eval (m, flag) d = (m, flag)) := by
  by_cases hsome : (m d.1).isSome = true
  · exact Or.inl ⟨hsome, if_pos hsome⟩
  · have hnone : m d.1 = none := by simpa using hsome
    have hvisit : visit eval (m, flag) d = match eval d.2 m with
        | some v => (Function.update m d.1 (some v), true)
        | none => (m, flag) := if_neg hsome
    rw [hvisit]
    cases heval : eval d.2 m with
    | some v => exact Or.inr (Or.inl ⟨v, hnone, rfl, rfl⟩)
    | none => exact Or.inr (Or.inr ⟨hnone, rfl, rfl⟩)

theorem foldl_visit_extends (ds : List (κ × β)) (m : κ → Option ν) (flag : Bool) :
    Extends m (ds.foldl (visit eval) (m, flag)).1 := by
  induction ds generalizing m flag with
  | nil => exact .refl _
  | cons d ds ih =>
    rw [List.foldl_cons]
    rcases visit_cases eval m flag d with ⟨-, h⟩ | ⟨v, hnone, -, h⟩ | ⟨-, -, h⟩
    · rw [h]
      exact ih m flag
    · rw [h]
      exact (Extends.update hnone v).trans (ih _ _)
    · rw [h]
      exact ih m flag

theorem pass_extends : Extends m (pass eval defs m).1 := foldl_visit_extends defs m false

/-- The flag stays up. -/
theorem foldl_visit_changed (ds : List (κ × β)) (m : κ → Option ν) :
    (ds.foldl (visit eval) (m, true)).2 = true := by
  induction ds generalizing m with
  | nil => rfl
  | cons d ds ih =>
    rw [List.foldl_cons]
    rcases visit_cases eval m true d with ⟨-, h⟩ | ⟨v, -, -, h⟩ | ⟨-, -, h⟩
    all_goals
      rw [h]
      exact ih _

/-- A pass that enters nothing leaves everything as it was, and no definition could be
    evaluated. -/
theorem foldl_visit_unchanged (ds : List (κ × β)) (m : κ → Option ν)
    (hflag : (ds.foldl (visit eval) (m, false)).2 = false) :
    (ds.foldl (visit eval) (m, false)).1 = m ∧
      ∀ d ∈ ds, m d.1 = none → eval d.2 m = none := by
  induction ds with
  | nil => exact ⟨rfl, fun d hd => absurd hd List.not_mem_nil⟩
  | cons d ds ih =>
    rw [List.foldl_cons] at hflag ⊢
    rcases visit_cases eval m false d with ⟨hsome, h⟩ | ⟨v, -, -, h⟩ | ⟨-, heval, h⟩
    · rw [h] at hflag ⊢
      obtain ⟨hsame, hrest⟩ := ih hflag
      refine ⟨hsame, List.forall_mem_cons.mpr ⟨fun hnone => ?_, hrest⟩⟩
      rw [hnone] at hsome
      cases hsome
    · rw [h, foldl_visit_changed] at hflag
      cases hflag
    · rw [h] at hflag ⊢
      obtain ⟨hsame, hrest⟩ := ih hflag
      exact ⟨hsame, List.forall_mem_cons.mpr ⟨fun _ => heval, hrest⟩⟩

/-- A pass with the flag up has entered something. -/
theorem foldl_visit_entered (ds : List (κ × β)) (m : κ → Option ν)
    (hflag : (ds.foldl (visit eval) (m, false)).2 = true) :
    ∃ d ∈ ds, m d.1 = none ∧ (ds.foldl (visit eval) (m, false)).1 d.1 ≠ none := by
  induction ds with
  | nil => cases hflag
  | cons d ds ih =>
    rw [List.foldl_cons] at hflag ⊢
    have hlater (h : visit eval (m, false) d = (m, false)) :
        ∃ d' ∈ d :: ds, m d'.1 = none ∧
          (ds.foldl (visit eval) (visit eval (m, false) d)).1 d'.1 ≠ none := by
      rw [h] at hflag ⊢
      obtain ⟨d', hd', hboth⟩ := ih hflag
      exact ⟨d', List.mem_cons_of_mem d hd', hboth⟩
    rcases visit_cases eval m false d with ⟨-, h⟩ | ⟨v, hnone, -, h⟩ | ⟨-, -, h⟩
    · exact hlater h
    · refine ⟨d, List.mem_cons_self, hnone, ?_⟩
      rw [h, foldl_visit_extends ds _ true d.1 v (by simp)]
      simp
    · exact hlater h

omit [DecidableEq κ] in
theorem missing_le_of_extends (h : Extends m m') (ds : List (κ × β)) :
    missing ds m' ≤ missing ds m := by
  refine List.countP_mono_left fun d _ hnone => ?_
  cases hm : m d.1 with
  | none => rfl
  | some v =>
    rw [h _ _ hm] at hnone
    exact absurd hnone (by simp)

theorem missing_pass_lt (h : (pass eval defs m).2 = true) :
    missing defs (pass eval defs m).1 < missing defs m := by
  obtain ⟨d, hd, hnone, hsome⟩ := foldl_visit_entered defs m h
  obtain ⟨before, after, rfl⟩ := List.append_of_mem hd
  have hentered : ((pass eval (before ++ d :: after) m).1 d.1).isNone = false :=
    Option.isNone_eq_false_iff.mpr (Option.isSome_iff_ne_none.mpr hsome)
  have hext : Extends m (pass eval (before ++ d :: after) m).1 := pass_extends
  have hb := missing_le_of_extends hext before
  have ha := missing_le_of_extends hext after
  simp only [missing, List.countP_append, List.countP_cons, hnone, hentered] at hb ha ⊢
  simp only [Option.isNone_none, if_true, Bool.false_eq_true, if_false]
  omega

/-- **Termination.** -/
theorem loop_isSome {fuel : ℕ} (h : missing defs m < fuel) :
    (loop eval defs fuel m).isSome = true := by
  induction fuel generalizing m with
  | zero => omega
  | succ fuel ih =>
    rw [loop]
    split
    · rename_i hchanged
      have hlt := missing_pass_lt hchanged
      exact ih (by omega)
    · rfl

omit [DecidableEq κ] in
theorem missing_le_length (defs : List (κ × β)) (m : κ → Option ν) :
    missing defs m ≤ defs.length :=
  List.countP_le_length

/-- What the loop ends with: it extends what it began with, and nothing more can be entered. -/
theorem loop_closed {fuel : ℕ} (h : loop eval defs fuel m = some m') :
    Extends m m' ∧ ∀ d ∈ defs, m' d.1 = none → eval d.2 m' = none := by
  induction fuel generalizing m with
  | zero => cases h
  | succ fuel ih =>
    rw [loop] at h
    split at h
    · obtain ⟨hext, hclosed⟩ := ih h
      exact ⟨pass_extends.trans hext, hclosed⟩
    · rename_i hchanged
      have hflag : (pass eval defs m).2 = false := by simpa using hchanged
      obtain ⟨hsame, hclosed⟩ := foldl_visit_unchanged defs m hflag
      obtain rfl : m = m' := hsame.symm.trans (Option.some.inj h)
      exact ⟨.refl m, hclosed⟩

/-- **Invariant rule.**  What holds at the start and is kept when a definition is entered, holds at
    the end. -/
theorem inv_of_loop {I : (κ → Option ν) → Prop} {fuel : ℕ} (hI : I m)
    (hstep : ∀ m d v, I m → d ∈ defs → m d.1 = none → eval d.2 m = some v →
      I (Function.update m d.1 (some v)))
    (h : loop eval defs fuel m = some m') : I m' := by
  have hfold : ∀ (ds : List (κ × β)) (m : κ → Option ν) (flag : Bool), (∀ d ∈ ds, d ∈ defs) →
      I m → I (ds.foldl (visit eval) (m, flag)).1 := by
    intro ds
    induction ds with
    | nil => exact fun _ _ _ hm => hm
    | cons d ds ih =>
      intro m flag hmem hm
      rw [List.foldl_cons]
      have hrest : ∀ d' ∈ ds, d' ∈ defs := fun d' hd' => hmem d' (List.mem_cons_of_mem d hd')
      rcases visit_cases eval m flag d with ⟨-, h⟩ | ⟨v, hnone, heval, h⟩ | ⟨-, -, h⟩
      · rw [h]
        exact ih m flag hrest hm
      · rw [h]
        exact ih _ true hrest (hstep m d v hm (hmem d List.mem_cons_self) hnone heval)
      · rw [h]
        exact ih m flag hrest hm
  induction fuel generalizing m with
  | zero => cases h
  | succ fuel ih =>
    have hpass : I (pass eval defs m).1 := hfold defs m false (fun _ hd => hd) hI
    rw [loop] at h
    split at h
    · exact ih hpass h
    · exact Option.some.inj h ▸ hpass

end Algorithm

/-! ### Derivations -/

/-- `v` is the meaning of `k` by a finite derivation. -/
inductive Derives (eval : β → (κ → Option ν) → Option ν) (base : κ → Option ν)
    (defs : List (κ × β)) : κ → ν → Prop
  | known {k : κ} {v : ν} (h : base k = some v) : Derives eval base defs k v
  | entered {k : κ} {b : β} {v : ν} (m : κ → Option ν) (hdef : (k, b) ∈ defs)
      (hm : ∀ j w, m j = some w → Derives eval base defs j w) (heval : eval b m = some v) :
      Derives eval base defs k v

section Spec

variable {eval : β → (κ → Option ν) → Option ν} {base m : κ → Option ν} {defs : List (κ × β)}
  {fuel : ℕ}

/-- What is known at the end has a derivation. -/
theorem derives_of_loop (h : loop eval defs fuel base = some m) {k : κ} {v : ν}
    (hk : m k = some v) : Derives eval base defs k v := by
  refine inv_of_loop (I := fun m => ∀ k v, m k = some v → Derives eval base defs k v)
    (fun k v hk => .known hk) ?_ h k v hk
  intro m d w hm hd _ heval j u hj
  by_cases hjd : j = d.1
  · subst hjd
    obtain rfl : w = u := by simpa using hj
    exact .entered m hd hm heval
  · rw [Function.update_of_ne hjd] at hj
    exact hm j u hj

variable (hmono : ∀ b m m' v, Extends m m' → eval b m = some v → eval b m' = some v)
  (hnodup : (defs.map Prod.fst).Nodup) (hbase : ∀ d ∈ defs, base d.1 = none)

include hmono hnodup hbase

/-- Every name that is defined and known satisfies its definition. -/
theorem eval_of_loop (h : loop eval defs fuel base = some m) {k : κ} {b : β} {v : ν}
    (hdef : (k, b) ∈ defs) (hk : m k = some v) : eval b m = some v := by
  refine inv_of_loop
    (I := fun m => ∀ k b v, (k, b) ∈ defs → m k = some v → eval b m = some v) ?_ ?_ h k b v hdef hk
  · intro k b v hdef hk
    exact absurd ((hbase (k, b) hdef).symm.trans hk) (by simp)
  · intro m d w hm hd hnone heval j b u hj hju
    have hext := Extends.update hnone w
    by_cases hjd : j = d.1
    · subst hjd
      obtain rfl : w = u := by simpa using hju
      -- no name is defined twice
      have hsame : (d.1, b) = d := List.inj_on_of_nodup_map hnodup hj hd rfl
      have hb : b = d.2 := congrArg Prod.snd hsame
      exact hb ▸ hmono _ _ _ _ hext heval
    · rw [Function.update_of_ne hjd] at hju
      exact hmono _ _ _ _ hext (hm j b u hj hju)

/-- **Completeness.** -/
theorem known_of_derives (h : loop eval defs fuel base = some m) {k : κ} {v : ν}
    (hd : Derives eval base defs k v) : m k = some v := by
  obtain ⟨hext, hclosed⟩ := loop_closed h
  induction hd with
  | known hk => exact hext _ _ hk
  | @entered k b v m₀ hdef _ heval ih =>
    have hevalm := hmono _ _ _ _ ih heval
    cases hk : m k with
    | none => exact absurd ((hclosed (k, b) hdef hk).symm.trans hevalm) (by simp)
    | some w =>
      have hw := eval_of_loop hmono hnodup hbase h hdef hk
      exact hw.symm.trans hevalm

/-- **Saturation.**  The loop finds exactly what has a derivation. -/
theorem loop_eq_some_iff (h : loop eval defs fuel base = some m) {k : κ} {v : ν} :
    m k = some v ↔ Derives eval base defs k v :=
  ⟨derives_of_loop h, known_of_derives hmono hnodup hbase h⟩

omit hmono hnodup hbase [DecidableEq κ] in
theorem Derives.of_subset {defs' : List (κ × β)} (hsub : ∀ d ∈ defs, d ∈ defs') {k : κ} {v : ν}
    (h : Derives eval base defs k v) : Derives eval base defs' k v := by
  induction h with
  | known hk => exact .known hk
  | entered m hdef _ heval ih => exact .entered m (hsub _ hdef) ih heval

/-- The order of the definitions has no influence. -/
theorem loop_perm {defs' : List (κ × β)} {fuel' : ℕ} {m' : κ → Option ν} (hperm : defs.Perm defs')
    (h : loop eval defs fuel base = some m) (h' : loop eval defs' fuel' base = some m') :
    m = m' := by
  have hnodup' : (defs'.map Prod.fst).Nodup := (hperm.map Prod.fst).nodup_iff.mp hnodup
  have hbase' : ∀ d ∈ defs', base d.1 = none := fun d hd => hbase d (hperm.mem_iff.mpr hd)
  funext k
  apply Option.ext
  intro v
  rw [loop_eq_some_iff hmono hnodup hbase h, loop_eq_some_iff hmono hnodup' hbase' h']
  exact ⟨Derives.of_subset fun d hd => hperm.mem_iff.mp hd,
    Derives.of_subset fun d hd => hperm.mem_iff.mpr hd⟩

end Spec

end Saturation
