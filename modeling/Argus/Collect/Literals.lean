import Argus.Lib.GoRegexp
import Argus.Lib.GoText
import Mathlib.Algebra.Group.Nat.Even
import Mathlib.Algebra.Ring.Parity

namespace Argus.Collect

open GoRegexp

/-!
# Statements without their literals

What the agent reports of a query of a monitored SQL Server (`mssql.go`): the text with string and
numeric literals blanked, which three regular expressions do one after the other.

* `stripLiterals` — the three, and the trimming.
* `unquoted`, `close` — the text without what the first one matches, by where a match ends.
-/

/-- `[^']|''`. -/
def reStringChar : Regexp :=
  .alt (.set (fun c => c != '\'')) (.seq (.char '\'') (.char '\''))

/-- `'(?:[^']|'')*'`. -/
def reStringLit : Regexp :=
  .seq (.char '\'') (.seq (.star reStringChar) (.char '\''))

/-- `\b\d+(\.\d+)?\b`. -/
def reNumberLit : Regexp :=
  .seq .bound (.seq (.plus (.set Char.isDigit))
    (.seq (.opt (.seq (.char '.') (.plus (.set Char.isDigit)))) .bound))

/-- `\s+`. -/
def reWhitespace : Regexp := .plus (.set isBlank)

def stripLiterals (s : String) : String :=
  let s := replaceAll reStringLit ['?'] s.toList
  let s := replaceAll reNumberLit ['?'] s
  let s := replaceAll reWhitespace [' '] s
  GoText.trimSpace (String.ofList s)

/-! ### The first expression -/

/-- The text behind the match of a string literal, from behind its first quote: it ends at the
    first quote that is not one of a pair, or else at the last pair. -/
def close : List Char → Option (List Char)
  | [] => none
  | '\'' :: '\'' :: s => (close s).or (some ('\'' :: s))
  | '\'' :: s => some s
  | _ :: s => close s

theorem close_pair (s : List Char) :
    close ('\'' :: '\'' :: s) = (close s).or (some ('\'' :: s)) := by
  rw [close]

theorem close_single {s : List Char} (h : s.head? ≠ some '\'') : close ('\'' :: s) = some s := by
  cases s with
  | nil => rfl
  | cons c s =>
    rw [close]
    rintro s' heq
    rw [heq] at h
    exact h rfl

theorem close_cons {c : Char} (hc : c ≠ '\'') (s : List Char) : close (c :: s) = close s := by
  rw [close]
  · rintro _ rfl
    exact absurd rfl hc
  · rintro rfl
    exact absurd rfl hc

theorem head?_ne_of_not_pair {s : List Char} (hs : ∀ t, s = '\'' :: t → False) :
    s.head? ≠ some '\'' := by
  cases s with
  | nil => exact fun h => nomatch h
  | cons c s => exact fun h => hs s (congrArg (· :: s) (Option.some.inj h))

theorem close_suffix {s rest : List Char} (h : close s = some rest) : rest <:+ s := by
  induction s using close.induct generalizing rest with
  | case1 => cases h
  | case2 s ih =>
    rw [close_pair] at h
    cases hs : close s with
    | none =>
      rw [hs] at h
      obtain rfl := Option.some.inj h
      exact List.suffix_cons _ _
    | some r =>
      rw [hs] at h
      obtain rfl := Option.some.inj h
      exact (ih hs).trans ⟨['\'', '\''], rfl⟩
  | case3 s hs =>
    rw [close_single (head?_ne_of_not_pair hs)] at h
    obtain rfl := Option.some.inj h
    exact List.suffix_cons _ _
  | case4 c s _ hc ih =>
    rw [close_cons hc] at h
    exact (ih h).trans (List.suffix_cons c s)

theorem ends_char (d : Char) (before : Option Char) (c : Char) (s : List Char) :
    ends (.char d) ⟨before, c :: s⟩ = if c = d then [⟨some c, s⟩] else [] := by
  rw [Regexp.char, ends]
  by_cases h : c = d
  · rw [if_pos h, if_pos (beq_iff_eq.mpr h)]
  · rw [if_neg h, if_neg (fun hc => h (beq_iff_eq.mp hc))]

theorem ends_stringChar {c : Char} (hc : c ≠ '\'') (before : Option Char) (s : List Char) :
    ends reStringChar ⟨before, c :: s⟩ = [⟨some c, s⟩] := by
  rw [reStringChar, ends, ends, ends, ends_char, if_neg hc, if_pos (bne_iff_ne.mpr hc)]
  rfl

theorem ends_stringChar_quote (before : Option Char) (s : List Char) :
    ends reStringChar ⟨before, '\'' :: s⟩ = ends (.char '\'') ⟨some '\'', s⟩ := by
  rw [reStringChar, ends, ends, ends, ends_char, if_pos rfl, if_neg (by decide),
    List.nil_append, List.flatMap_singleton]

/-- The first end of a literal, from behind its first quote: as many rounds as it takes come before
    fewer. -/
theorem head_rounds (n : ℕ) (p : Place) (hn : p.rest.length ≤ n) :
    ((repeats (ends reStringChar) n p).flatMap (ends (.char '\''))).head?
      = (close p.rest).map (fun rest => ⟨some '\'', rest⟩) := by
  induction n generalizing p with
  | zero =>
    obtain ⟨before, s⟩ := p
    obtain rfl := List.eq_nil_of_length_eq_zero (Nat.le_zero.mp hn)
    rfl
  | succ n ih =>
    obtain ⟨before, s⟩ := p
    cases s with
    | nil => rfl
    | cons c s =>
      rw [List.length_cons] at hn
      by_cases hc : c = '\''
      · subst hc
        cases s with
        | nil =>
          rw [repeats_of_none (ends_stringChar_quote before []), List.flatMap_singleton, ends_char,
            if_pos rfl]
          rfl
        | cons d s =>
          rw [List.length_cons] at hn
          by_cases hd : d = '\''
          · subst hd
            -- a pair is read, and the match ends inside it only if there is no later end
            have hround : ends reStringChar ⟨before, '\'' :: '\'' :: s⟩ = [⟨some '\'', s⟩] := by
              rw [ends_stringChar_quote, ends_char, if_pos rfl]
            rw [repeats_of_round hround (by simp only [List.length_cons]; omega),
              List.flatMap_append, List.head?_append, List.flatMap_singleton, ends_char,
              if_pos rfl, ih _ (by show s.length ≤ n; omega), close_pair]
            cases close s <;> rfl
          · have hhead : (d :: s).head? ≠ some '\'' := fun h => hd (Option.some.inj h)
            have hround : ends reStringChar ⟨before, '\'' :: d :: s⟩ = [] := by
              rw [ends_stringChar_quote, ends_char, if_neg hd]
            rw [repeats_of_none hround, List.flatMap_singleton, ends_char, if_pos rfl,
              close_single hhead]
            rfl
      · rw [repeats_of_round (ends_stringChar hc before s) (Nat.lt_succ_self _),
          List.flatMap_append, List.head?_append, List.flatMap_singleton, ends_char, if_neg hc,
          ih _ (Nat.le_of_succ_le_succ hn), close_cons hc]
        exact Option.or_none

theorem head_reStringLit (before : Option Char) (s : List Char) :
    (ends reStringLit ⟨before, '\'' :: s⟩).head?
      = (close s).map (fun rest => ⟨some '\'', rest⟩) := by
  rw [reStringLit, ends, ends_char, if_pos rfl, List.flatMap_singleton]
  exact head_rounds s.length ⟨some '\'', s⟩ (Nat.le_refl _)

theorem head_reStringLit_of_ne {c : Char} (hc : c ≠ '\'') (before : Option Char) (s : List Char) :
    (ends reStringLit ⟨before, c :: s⟩).head? = none := by
  rw [reStringLit, ends, ends_char, if_neg hc]
  rfl

theorem consuming_reStringLit : reStringLit.Consuming := (consuming_set _).seq_left _

/-- The text after the first expression. -/
def unquoted (s : List Char) : List Char := replaceAll reStringLit ['?'] s

/-- What stands before a place does not matter to it. -/
theorem replace_reStringLit (before : Option Char) (s : List Char) :
    replace reStringLit ['?'] ⟨before, s⟩ = unquoted s := by
  rw [unquoted, replaceAll]
  cases s with
  | nil => rfl
  | cons c s =>
    by_cases hc : c = '\''
    · subst hc
      cases hs : close s with
      | none =>
        have hfirst (b : Option Char) : (ends reStringLit ⟨b, '\'' :: s⟩).head? = none := by
          rw [head_reStringLit, hs]
          rfl
        rw [replace_of_no_match (hfirst before), replace_of_no_match (hfirst none)]
      | some rest =>
        have hfirst (b : Option Char) :
            (ends reStringLit ⟨b, '\'' :: s⟩).head? = some ⟨some '\'', rest⟩ := by
          rw [head_reStringLit, hs]
          rfl
        rw [replace_of_match consuming_reStringLit (hfirst before),
          replace_of_match consuming_reStringLit (hfirst none)]
    · rw [replace_of_no_match (head_reStringLit_of_ne hc before s),
        replace_of_no_match (head_reStringLit_of_ne hc none s)]

theorem unquoted_nil : unquoted [] = [] := rfl

theorem unquoted_cons {c : Char} (hc : c ≠ '\'') (s : List Char) :
    unquoted (c :: s) = c :: unquoted s := by
  rw [unquoted, replaceAll, replace_of_no_match (head_reStringLit_of_ne hc none s),
    replace_reStringLit]

theorem unquoted_of_close {s rest : List Char} (h : close s = some rest) :
    unquoted ('\'' :: s) = '?' :: unquoted rest := by
  have hfirst : (ends reStringLit ⟨none, '\'' :: s⟩).head? = some ⟨some '\'', rest⟩ := by
    rw [head_reStringLit, h]
    rfl
  rw [unquoted, replaceAll, replace_of_match consuming_reStringLit hfirst, replace_reStringLit]
  rfl

theorem unquoted_of_open {s : List Char} (h : close s = none) :
    unquoted ('\'' :: s) = '\'' :: unquoted s := by
  have hfirst : (ends reStringLit ⟨none, '\'' :: s⟩).head? = none := by
    rw [head_reStringLit, h]
    rfl
  rw [unquoted, replaceAll, replace_of_no_match hfirst, replace_reStringLit]

/-! ### Quotes before a place

Inside a literal, to the first expression, is what has an odd number of quotes before it and
another quote after it. -/

/-- The number of quotes. -/
def quotes (s : List Char) : ℕ := s.count '\''

theorem quotes_quote (s : List Char) : quotes ('\'' :: s) = quotes s + 1 := List.count_cons_self

theorem quotes_cons {c : Char} (hc : c ≠ '\'') (s : List Char) : quotes (c :: s) = quotes s :=
  List.count_cons_of_ne hc

theorem quotes_append (u w : List Char) : quotes (u ++ w) = quotes u + quotes w :=
  List.count_append

/-- No run of quotes goes over from the one to the other. -/
def Apart (u w : List Char) : Prop := ¬ (u.getLast? = some '\'' ∧ w.head? = some '\'')

theorem Apart.of_suffix {u v w : List Char} (h : Apart u w) (hv : v <:+ u) : Apart v w := by
  obtain ⟨t, rfl⟩ := hv
  rintro ⟨hlast, hhead⟩
  refine h ⟨?_, hhead⟩
  rw [List.getLast?_append, hlast, Option.some_or]

theorem apart_nil (u : List Char) : Apart u [] := fun h => nomatch h.2

/-- Behind an odd number of quotes a literal is open, and it ends before the text does. -/
theorem close_of_odd {u : List Char} (hodd : Odd (quotes u)) :
    ∃ rest, Even (quotes rest) ∧ rest <:+ u ∧
      ∀ w, Apart u w → close (u ++ w) = some (rest ++ w) := by
  induction u using close.induct with
  | case1 => exact absurd hodd (by decide)
  | case2 s ih =>
    rw [quotes_quote, quotes_quote, Nat.add_assoc, Nat.odd_add] at hodd
    obtain ⟨rest, heven, hsuffix, hclose⟩ := ih (hodd.mpr (by decide))
    have hs : s <:+ '\'' :: '\'' :: s := ⟨['\'', '\''], rfl⟩
    refine ⟨rest, heven, hsuffix.trans hs, fun w hw => ?_⟩
    show close ('\'' :: '\'' :: (s ++ w)) = _
    rw [close_pair, hclose w (hw.of_suffix hs), Option.some_or]
  | case3 s hs =>
    rw [quotes_quote, Nat.odd_add_one, Nat.not_odd_iff_even] at hodd
    refine ⟨s, hodd, List.suffix_cons _ s, fun w hw => ?_⟩
    apply close_single
    cases s with
    | nil => exact fun h => hw ⟨rfl, h⟩
    | cons c s =>
      show (c :: s).head? ≠ some '\''
      exact head?_ne_of_not_pair hs
  | case4 c s _ hc ih =>
    rw [quotes_cons hc] at hodd
    obtain ⟨rest, heven, hsuffix, hclose⟩ := ih hodd
    refine ⟨rest, heven, hsuffix.trans (List.suffix_cons c s), fun w hw => ?_⟩
    show close (c :: (s ++ w)) = _
    rw [close_cons hc, hclose w (hw.of_suffix (List.suffix_cons c s))]

/-- Induction along a text in which a literal may end anywhere: behind a quote, every rest of the
    text may come next. -/
theorem literal_induction {motive : List Char → Prop} (nil : motive [])
    (text : ∀ c s, c ≠ '\'' → motive s → motive (c :: s))
    (quote : ∀ s, (∀ rest, rest <:+ s → motive rest) → motive ('\'' :: s)) (u : List Char) :
    motive u := by
  obtain ⟨n, hn⟩ : ∃ n, u.length ≤ n := ⟨_, Nat.le_refl _⟩
  induction n generalizing u with
  | zero =>
    obtain rfl := List.eq_nil_of_length_eq_zero (Nat.le_zero.mp hn)
    exact nil
  | succ n ih =>
    cases u with
    | nil => exact nil
    | cons c s =>
      have hs : s.length ≤ n := Nat.le_of_succ_le_succ hn
      by_cases hc : c = '\''
      · subst hc
        exact quote s fun rest hrest => ih rest (hrest.length_le.trans hs)
      · exact text c s hc (ih s hs)

/-- Behind an even number of quotes the text is taken up anew. -/
theorem unquoted_append {u w : List Char} (heven : Even (quotes u)) (hw : Apart u w) :
    unquoted (u ++ w) = unquoted u ++ unquoted w := by
  induction u using literal_induction with
  | nil => rfl
  | text c s hc ih =>
    rw [quotes_cons hc] at heven
    rw [List.cons_append, unquoted_cons hc, unquoted_cons hc,
      ih heven (hw.of_suffix (List.suffix_cons c s))]
    rfl
  | quote s ih =>
    have hs : Apart s w := hw.of_suffix (List.suffix_cons _ s)
    rw [quotes_quote, Nat.even_add_one, Nat.not_even_iff_odd] at heven
    -- the literal that opens here ends in `s`, and leaves an even number of quotes
    obtain ⟨rest, hrest, hsuffix, hclose⟩ := close_of_odd heven
    have hclose' : close s = some rest := by
      simpa only [List.append_nil] using hclose [] (apart_nil s)
    rw [List.cons_append, unquoted_of_close (hclose w hs), unquoted_of_close hclose',
      ih rest hsuffix hrest (hs.of_suffix hsuffix)]
    rfl

theorem unquoted_prepend {x : List Char} (hx : '\'' ∉ x) (w : List Char) :
    unquoted (x ++ w) = x ++ unquoted w := by
  induction x with
  | nil => rfl
  | cons c x ih =>
    rw [List.mem_cons, not_or] at hx
    rw [List.cons_append, unquoted_cons (Ne.symm hx.1), ih hx.2]
    rfl

theorem close_append {u w : List Char} (hw : '\'' ∉ w) :
    close (u ++ w) = (close u).map (· ++ w) := by
  have hskip : close w = none := by
    induction w with
    | nil => rfl
    | cons c w ih =>
      rw [List.mem_cons, not_or] at hw
      rw [close_cons (Ne.symm hw.1), ih hw.2]
  induction u using close.induct with
  | case1 => exact hskip
  | case2 s ih =>
    show close ('\'' :: '\'' :: (s ++ w)) = _
    rw [close_pair, close_pair, ih]
    cases close s <;> rfl
  | case3 s hs =>
    have hhead := head?_ne_of_not_pair hs
    have hhead' : (s ++ w).head? ≠ some '\'' := by
      cases s with
      | nil => exact fun h => hw (List.mem_of_mem_head? h)
      | cons c s => exact hhead
    show close ('\'' :: (s ++ w)) = _
    rw [close_single hhead', close_single hhead, Option.map_some]
  | case4 c s _ hc ih =>
    show close (c :: (s ++ w)) = _
    rw [close_cons hc, close_cons hc, ih]

/-- Nothing behind the last quote is taken away. -/
theorem unquoted_append_of_notMem {w : List Char} (hw : '\'' ∉ w) (u : List Char) :
    unquoted (u ++ w) = unquoted u ++ w := by
  induction u using literal_induction with
  | nil =>
    have h := unquoted_prepend hw []
    rwa [unquoted_nil, List.append_nil] at h
  | text c s hc ih =>
    rw [List.cons_append, unquoted_cons hc, unquoted_cons hc, ih]
    rfl
  | quote s ih =>
    cases hclose : close s with
    | none =>
      have hopen : close (s ++ w) = none := by rw [close_append hw, hclose, Option.map_none]
      rw [List.cons_append, unquoted_of_open hopen, unquoted_of_open hclose, ih s List.suffix_rfl]
      rfl
    | some rest =>
      have hclose' : close (s ++ w) = some (rest ++ w) := by
        rw [close_append hw, hclose, Option.map_some]
      rw [List.cons_append, unquoted_of_close hclose', unquoted_of_close hclose,
        ih rest (close_suffix hclose)]
      rfl

/-- An open literal ends in the text itself, leaving another one open, or where it would end from
    behind the text. -/
theorem close_of_even {u : List Char} (heven : Even (quotes u)) :
    (∃ rest, Odd (quotes rest) ∧ rest <:+ u ∧ ∀ w, Apart u w → close (u ++ w) = some (rest ++ w))
      ∨ ∀ w r, Apart u w → close w = some r → close (u ++ w) = some r := by
  induction u using close.induct with
  | case1 => exact Or.inr fun w r _ hr => hr
  | case2 s ih =>
    have hs : s <:+ '\'' :: '\'' :: s := ⟨['\'', '\''], rfl⟩
    rw [quotes_quote, quotes_quote, Nat.add_assoc, Nat.even_add] at heven
    rcases ih (heven.mpr (by decide)) with ⟨rest, hodd, hsuffix, hclose⟩ | hclose
    · refine Or.inl ⟨rest, hodd, hsuffix.trans hs, fun w hw => ?_⟩
      show close ('\'' :: '\'' :: (s ++ w)) = _
      rw [close_pair, hclose w (hw.of_suffix hs), Option.some_or]
    · refine Or.inr fun w r hw hr => ?_
      show close ('\'' :: '\'' :: (s ++ w)) = _
      rw [close_pair, hclose w r (hw.of_suffix hs) hr, Option.some_or]
  | case3 s hs =>
    rw [quotes_quote, Nat.even_add_one, Nat.not_even_iff_odd] at heven
    refine Or.inl ⟨s, heven, List.suffix_cons _ s, fun w _ => ?_⟩
    apply close_single
    cases s with
    | nil => exact absurd heven (by decide)
    | cons c s =>
      show (c :: s).head? ≠ some '\''
      exact head?_ne_of_not_pair hs
  | case4 c s _ hc ih =>
    have hs : s <:+ c :: s := List.suffix_cons c s
    rw [quotes_cons hc] at heven
    rcases ih heven with ⟨rest, hodd, hsuffix, hclose⟩ | hclose
    · refine Or.inl ⟨rest, hodd, hsuffix.trans hs, fun w hw => ?_⟩
      show close (c :: (s ++ w)) = _
      rw [close_cons hc, hclose w (hw.of_suffix hs)]
    · refine Or.inr fun w r hw hr => ?_
      show close (c :: (s ++ w)) = _
      rw [close_cons hc, hclose w r (hw.of_suffix hs) hr]

/-- Behind an odd number of quotes only where the literal ends matters. -/
theorem unquoted_congr {u w w' r : List Char} (hodd : Odd (quotes u)) (hu : Apart u w)
    (hu' : Apart u w') (hw : close w = some r) (hw' : close w' = some r) :
    unquoted (u ++ w) = unquoted (u ++ w') := by
  induction u using literal_induction with
  | nil => exact absurd hodd (by decide)
  | text c s hc ih =>
    have hs : s <:+ c :: s := List.suffix_cons c s
    rw [quotes_cons hc] at hodd
    rw [List.cons_append, List.cons_append, unquoted_cons hc, unquoted_cons hc,
      ih hodd (hu.of_suffix hs) (hu'.of_suffix hs)]
  | quote s ih =>
    have hs : s <:+ '\'' :: s := List.suffix_cons _ s
    rw [quotes_quote, Nat.odd_add_one, Nat.not_odd_iff_even] at hodd
    rw [List.cons_append, List.cons_append]
    rcases close_of_even hodd with ⟨rest, hrest, hsuffix, hclose⟩ | hclose
    · -- the literal ends before the texts differ, and another one is open there
      rw [unquoted_of_close (hclose w (hu.of_suffix hs)),
        unquoted_of_close (hclose w' (hu'.of_suffix hs)),
        ih rest hsuffix hrest (hu.of_suffix (hsuffix.trans hs))
          (hu'.of_suffix (hsuffix.trans hs))]
    · -- it ends behind the places where they differ
      rw [unquoted_of_close (hclose w r (hu.of_suffix hs) hw),
        unquoted_of_close (hclose w' r (hu'.of_suffix hs) hw')]

theorem close_of_notMem {x : List Char} (hx : '\'' ∉ x) (w : List Char) :
    close (x ++ w) = close w := by
  induction x with
  | nil => rfl
  | cons c x ih =>
    rw [List.mem_cons, not_or] at hx
    rw [List.cons_append, close_cons (Ne.symm hx.1), ih hx.2]

theorem exists_close {w : List Char} (hw : '\'' ∈ w) : ∃ r, close w = some r := by
  induction w using close.induct with
  | case1 => exact absurd hw List.not_mem_nil
  | case2 s _ =>
    rw [close_pair]
    cases close s with
    | none => exact ⟨_, rfl⟩
    | some r => exact ⟨r, rfl⟩
  | case3 s hs => exact ⟨s, close_single (head?_ne_of_not_pair hs)⟩
  | case4 c s _ hc ih =>
    rw [List.mem_cons, or_iff_right (Ne.symm hc)] at hw
    rw [close_cons hc]
    exact ih hw

example : stripLiterals "SELECT  'it''s', 1.5 FROM t1 -- x" = "SELECT ?, ? FROM t1 -- x" := by
  decide +kernel

end Argus.Collect
