import Mathlib.Algebra.Group.Int.Defs
import Mathlib.Algebra.Group.Nat.Defs
import Mathlib.Data.List.DropRight

/-!
# Texts in Go

* `isSpace`, `trimSpace` — white space, and `strings.TrimSpace`.
* `scanInt` — the verb `%d` of `fmt.Sscanf`.
* `scanClock` — `fmt.Sscanf(s, "%d:%d", &a, &b)`, which reads a clock time (`scanClock_digits`).
-/

namespace GoText

/-- `unicode.IsSpace`. -/
def isSpace (c : Char) : Bool :=
  let n := c.toNat
  (0x09 ≤ n && n ≤ 0x0D) || n == 0x20 || n == 0x85 || n == 0xA0 || n == 0x1680
    || (0x2000 ≤ n && n ≤ 0x200A) || n == 0x2028 || n == 0x2029 || n == 0x202F || n == 0x205F
    || n == 0x3000

/-- `strings.TrimSpace`. -/
def trimSpace (s : String) : String :=
  String.ofList ((s.toList.dropWhile isSpace).rdropWhile isSpace)

/-- A text without white space is left as it is. -/
theorem trimSpace_of_forall {s : String} (h : ∀ c ∈ s.toList, isSpace c = false) :
    trimSpace s = s := by
  have hdrop : s.toList.dropWhile isSpace = s.toList := by
    rw [List.dropWhile_eq_self_iff]
    intro hlen hspace
    exact Bool.false_ne_true ((h _ (List.getElem_mem hlen)).symm.trans hspace)
  have hback : s.toList.rdropWhile isSpace = s.toList := by
    rw [List.rdropWhile_eq_self_iff]
    intro hne hspace
    exact Bool.false_ne_true ((h _ (List.getLast_mem hne)).symm.trans hspace)
  rw [trimSpace, hdrop, hback, String.ofList_toList]

/-- Only white space is trimmed. -/
theorem filter_trimSpace {f : Char → Bool} (hf : ∀ c, isSpace c = true → f c = false) (s : String) :
    (trimSpace s).toList.filter f = s.toList.filter f := by
  have hdrop (t : List Char) : (t.dropWhile isSpace).filter f = t.filter f := by
    induction t with
    | nil => rfl
    | cons c t ih =>
      rw [List.dropWhile_cons]
      by_cases hc : isSpace c = true
      · rw [if_pos hc, List.filter_cons, hf c hc, ih]
        rfl
      · rw [if_neg hc]
  rw [trimSpace, String.toList_ofList, List.rdropWhile, List.filter_reverse, hdrop,
    List.filter_reverse, List.reverse_reverse, hdrop]

/-! ### Sscanf -/

/-- `SkipSpace`; a new line is an error. -/
def skipSpace : List Char → Option (List Char)
  | [] => some []
  | c :: cs => if c = '\n' then none else if isSpace c then skipSpace cs else some (c :: cs)

/-- `scanNumber`, and the 64 bits of `ParseInt`. -/
def scanNumber (negative : Bool) (cs : List Char) : Option (ℤ × List Char) :=
  let digits := cs.takeWhile Char.isDigit
  let n : ℤ := Nat.ofDigitChars 10 digits 0
  let n := if negative then -n else n
  if digits.isEmpty ∨ n < -2 ^ 63 ∨ 2 ^ 63 ≤ n then none
  else some (n, cs.dropWhile Char.isDigit)

/-- `%d`. -/
def scanInt (cs : List Char) : Option (ℤ × List Char) :=
  match skipSpace cs with
  | none => none
  | some ('-' :: cs) => scanNumber true cs
  | some ('+' :: cs) => scanNumber false cs
  | some cs => scanNumber false cs

/-- `fmt.Sscanf(s, "%d:%d", &a, &b)`; what follows the second number is not read. -/
def scanClock (s : String) : Option (ℤ × ℤ) :=
  match scanInt s.toList with
  | some (a, ':' :: cs) => (scanInt cs).map fun b => (a, b.1)
  | _ => none

/-! ### Clock times -/

theorem not_isSpace_of_isDigit {c : Char} (h : c.isDigit = true) : isSpace c = false := by
  have hrange := Bool.and_eq_true_iff.mp h
  have hlow : 48 ≤ c.toNat := of_decide_eq_true hrange.1
  have hhigh : c.toNat ≤ 57 := of_decide_eq_true hrange.2
  simp only [isSpace, Bool.or_eq_false_iff, Bool.and_eq_false_iff, decide_eq_false_iff_not,
    beq_eq_false_iff_ne]
  omega

/-- A digit is neither white space nor a sign. -/
theorem scanInt_of_isDigit {c : Char} (h : c.isDigit = true) (cs : List Char) :
    scanInt (c :: cs) = scanNumber false (c :: cs) := by
  have hline : c ≠ '\n' := by
    rintro rfl
    cases h
  have hskip : skipSpace (c :: cs) = some (c :: cs) := by
    rw [skipSpace, if_neg hline, not_isSpace_of_isDigit h, if_neg Bool.false_ne_true]
  rw [scanInt, hskip]
  split
  · rename_i heq
    cases heq
  · rename_i heq
    obtain ⟨rfl, -⟩ := List.cons.inj (Option.some.inj heq)
    cases h
  · rename_i heq
    obtain ⟨rfl, -⟩ := List.cons.inj (Option.some.inj heq)
    cases h
  · rename_i heq
    rw [Option.some.inj heq]

/-- A run of digits, with anything else behind it. -/
theorem scanNumber_digits {ds cs : List Char} (hds : ∀ c ∈ ds, c.isDigit = true) (hne : ds ≠ [])
    (hcs : cs.head?.all (fun c => !c.isDigit) = true)
    (hlt : Nat.ofDigitChars 10 ds 0 < 2 ^ 63) :
    scanNumber false (ds ++ cs) = some ((Nat.ofDigitChars 10 ds 0 : ℤ), cs) := by
  have hstop : cs.takeWhile Char.isDigit = [] ∧ cs.dropWhile Char.isDigit = cs := by
    cases cs with
    | nil => exact ⟨rfl, rfl⟩
    | cons c cs =>
      have hc : ¬ c.isDigit = true := by simpa using hcs
      exact ⟨List.takeWhile_cons_of_neg hc, List.dropWhile_cons_of_neg hc⟩
  have htake : (ds ++ cs).takeWhile Char.isDigit = ds := by
    rw [List.takeWhile_append_of_pos hds, hstop.1, List.append_nil]
  have hdrop : (ds ++ cs).dropWhile Char.isDigit = cs := by
    rw [List.dropWhile_append_of_pos hds, hstop.2]
  rw [scanNumber, htake, hdrop]
  apply if_neg
  rintro (hempty | hlow | hhigh)
  · exact hne (List.isEmpty_iff.mp hempty)
  · exact absurd hlow (by simp only [Bool.false_eq_true, if_false]; omega)
  · exact absurd hhigh (by simp only [Bool.false_eq_true, if_false]; omega)

/-- Two runs of digits with a colon between them. -/
theorem scanClock_digits {hs ms : List Char} (hhs : ∀ c ∈ hs, c.isDigit = true)
    (hms : ∀ c ∈ ms, c.isDigit = true) (hne : hs ≠ []) (mne : ms ≠ [])
    (hlt : Nat.ofDigitChars 10 hs 0 < 2 ^ 63) (mlt : Nat.ofDigitChars 10 ms 0 < 2 ^ 63) :
    scanClock (String.ofList (hs ++ ':' :: ms))
      = some ((Nat.ofDigitChars 10 hs 0 : ℤ), (Nat.ofDigitChars 10 ms 0 : ℤ)) := by
  have hfirst : scanInt (hs ++ ':' :: ms) = some ((Nat.ofDigitChars 10 hs 0 : ℤ), ':' :: ms) := by
    obtain ⟨c, hs', rfl⟩ := List.exists_cons_of_ne_nil hne
    rw [List.cons_append, scanInt_of_isDigit (hhs c List.mem_cons_self), ← List.cons_append]
    exact scanNumber_digits hhs hne rfl hlt
  have hsecond : scanInt ms = some ((Nat.ofDigitChars 10 ms 0 : ℤ), []) := by
    obtain ⟨c, ms', rfl⟩ := List.exists_cons_of_ne_nil mne
    rw [scanInt_of_isDigit (hms c List.mem_cons_self)]
    have hall := @scanNumber_digits _ [] hms mne rfl mlt
    rw [List.append_nil] at hall
    exact hall
  rw [scanClock, String.toList_ofList, hfirst]
  show (scanInt ms).map _ = _
  rw [hsecond]
  rfl

end GoText
