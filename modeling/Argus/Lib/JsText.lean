import Mathlib.Algebra.GroupWithZero.Nat
import Mathlib.Data.List.DropRight

/-!
# Texts as ECMAScript treats them

* `isSpace` — white space and line terminators, the characters `String.prototype.trim` takes
  off.
* `trim` — a text without the ones at its two ends.
* `units` — the length a text reports, which counts the units of UTF-16.
-/

namespace JsText

/-- WhiteSpace and LineTerminator of ECMA-262. -/
def isSpace (c : Char) : Bool :=
  let n := c.toNat
  (0x09 ≤ n && n ≤ 0x0D) || n == 0x20 || n == 0xA0 || n == 0x1680 || (0x2000 ≤ n && n ≤ 0x200A)
    || n == 0x2028 || n == 0x2029 || n == 0x202F || n == 0x205F || n == 0x3000 || n == 0xFEFF

/-- `trim` on the characters of a text. -/
def trimChars (s : List Char) : List Char := (s.dropWhile isSpace).rdropWhile isSpace

/-- A text without white space is left as it is. -/
theorem trimChars_of_forall {s : List Char} (h : ∀ c ∈ s, isSpace c = false) :
    trimChars s = s := by
  have hdrop : s.dropWhile isSpace = s := by
    rw [List.dropWhile_eq_self_iff]
    intro hlen hspace
    exact Bool.false_ne_true ((h _ (List.getElem_mem hlen)).symm.trans hspace)
  rw [trimChars, hdrop, List.rdropWhile_eq_self_iff]
  intro hne hspace
  exact Bool.false_ne_true ((h _ (List.getLast_mem hne)).symm.trans hspace)

/-- Trimming twice is trimming. -/
theorem trimChars_trimChars (s : List Char) : trimChars (trimChars s) = trimChars s := by
  have hfirst : (trimChars s).dropWhile isSpace = trimChars s := by
    rw [List.dropWhile_eq_self_iff]
    intro hlen
    -- what is left starts where the first cut stopped
    have hcut : trimChars s <+: s.dropWhile isSpace := List.rdropWhile_prefix _ _
    have hlen' : 0 < (s.dropWhile isSpace).length := hlen.trans_le hcut.length_le
    rw [hcut.getElem hlen]
    exact List.dropWhile_get_zero_not isSpace s hlen'
  rw [trimChars, hfirst, trimChars, List.rdropWhile_idempotent]

/-- The visible characters of ASCII are no white space. -/
theorem isSpace_of_visible {c : Char} (hlow : 0x20 < c.toNat) (hhigh : c.toNat < 0x7F) :
    isSpace c = false := by
  simp only [isSpace, Bool.or_eq_false_iff, Bool.and_eq_false_iff, decide_eq_false_iff_not,
    beq_eq_false_iff_ne]
  omega

theorem isSpace_of_isDigit {c : Char} (h : c.isDigit = true) : isSpace c = false := by
  rw [Char.isDigit, Bool.and_eq_true, decide_eq_true_eq, decide_eq_true_eq] at h
  have hlow : 48 ≤ c.toNat := h.1
  have hhigh : c.toNat ≤ 57 := h.2
  exact isSpace_of_visible (by omega) (by omega)

theorem isSpace_of_isAlpha {c : Char} (h : c.isAlpha = true) : isSpace c = false := by
  rcases Bool.or_eq_true_iff.mp h with hupper | hlower
  · have hrange : 65 ≤ c.toNat ∧ c.toNat ≤ 90 := of_decide_eq_true hupper
    exact isSpace_of_visible (by omega) (by omega)
  · have hrange := Bool.and_eq_true_iff.mp hlower
    have hlow : 97 ≤ c.toNat := of_decide_eq_true hrange.1
    have hhigh : c.toNat ≤ 122 := of_decide_eq_true hrange.2
    exact isSpace_of_visible (by omega) (by omega)

/-- `String.prototype.trim`. -/
def trim (s : String) : String := String.ofList (trimChars s.toList)

theorem trim_trim (s : String) : trim (trim s) = trim s := by
  rw [trim, trim, String.toList_ofList, trimChars_trimChars]

/-- `length`, on the characters of a text. -/
def units (s : List Char) : ℕ := (s.map fun c => if c.toNat < 0x10000 then 1 else 2).sum

theorem units_of_forall {s : List Char} (h : ∀ c ∈ s, c.toNat < 0x10000) : units s = s.length := by
  induction s with
  | nil => rfl
  | cons c s ih =>
    rw [List.forall_mem_cons] at h
    rw [units, List.map_cons, List.sum_cons, if_pos h.1, List.length_cons, Nat.add_comm]
    exact congrArg (· + 1) (ih h.2)

end JsText
