import Argus.Collect.Literals
import Argus.Collect.TSql

namespace Argus.Collect

open GoRegexp TSql

/-!
# Which statements are reported without their literals

The expressions know nothing of comments and identifiers, and the second one only of numerals
without an exponent.  So a quote in a comment shifts what is a literal to the first one, and
whether a numeral is blanked hangs on its form.

* `HidesLiterals` — the claim on a statement: with other literals it is reported as the same text.
* `Hidden` — the string literals have an even number of quotes before them, and the numerals stand
  between two quotes, by which the first expression takes them for a string.
* `hidesLiterals_iff` — when a statement hides its literals.
-/

/-- Whatever its literals are, the same text is reported. -/
def HidesLiterals (isLetter : Char → Bool) (ts : List Token) : Prop :=
  ∀ ts', Lexed isLetter ts' → Same ts ts' →
    stripLiterals (String.ofList (text ts)) = stripLiterals (String.ofList (text ts'))

/-- What a token needs between what is before it and what is after it. -/
def Token.Covered (tok : Token) (before after : List Char) : Prop :=
  match tok with
  | .string _ => Even (quotes before)
  | .number _ => Odd (quotes before) ∧ '\'' ∈ after
  | _ => True

def HiddenFrom (before : List Char) : List Token → Prop
  | [] => True
  | tok :: ts => Token.Covered tok before (text ts) ∧ HiddenFrom (before ++ tok.text) ts

def Hidden (ts : List Token) : Prop := HiddenFrom [] ts

-- a property of all characters of a text is decided on the text
attribute [local instance (1100)] List.decidableBAll

/-! ### Hidden literals -/

theorem quotes_doubled (s : List Char) : Even (quotes (doubled '\'' s)) := by
  induction s with
  | nil => exact ⟨0, rfl⟩
  | cons c s ih =>
    show Even (quotes ((if c = '\'' then ['\'', '\''] else [c]) ++ doubled '\'' s))
    by_cases hc : c = '\''
    · rw [if_pos hc, List.cons_append, List.cons_append, quotes_quote, quotes_quote,
        List.nil_append, Nat.add_assoc, Nat.even_add]
      exact iff_of_true ih (by decide)
    · rw [if_neg hc, List.cons_append, quotes_cons hc]
      exact ih

theorem close_doubled (s : List Char) {rest : List Char} (hrest : rest.head? ≠ some '\'') :
    close (doubled '\'' s ++ '\'' :: rest) = some rest := by
  induction s with
  | nil => exact close_single hrest
  | cons c s ih =>
    show close ((if c = '\'' then ['\'', '\''] else [c]) ++ doubled '\'' s ++ '\'' :: rest) = _
    by_cases hc : c = '\''
    · rw [if_pos hc]
      show close ('\'' :: '\'' :: (doubled '\'' s ++ '\'' :: rest)) = _
      rw [close_pair, ih, Option.some_or]
    · rw [if_neg hc]
      show close (c :: (doubled '\'' s ++ '\'' :: rest)) = _
      rw [close_cons hc, ih]

theorem quotes_string (content : List Char) :
    Even (quotes (Token.text (.string content))) := by
  have h := quotes_doubled content
  rw [Token.text, quotes_quote, quotes_append, Nat.even_add_one, Nat.even_add]
  exact fun hodd => absurd (hodd.mp h) (by decide)

theorem quotes_number {isLetter : Char → Bool} {n : Numeral}
    (hn : Token.WF isLetter (.number n)) : quotes (Token.text (.number n)) = 0 :=
  List.count_eq_zero.mpr (quote_notMem_numeral hn)

section

variable {isLetter : Char → Bool}

theorem apart_append (u : List Char) {tok : Token} {rest : List Char} (htok : tok.WF isLetter)
    (hend : tok.EndsAt isLetter rest) : Apart (u ++ tok.text) rest := by
  rintro ⟨hlast, hhead⟩
  refine hend.apart htok ⟨?_, hhead⟩
  cases h : tok.text.getLast? with
  | none => exact absurd (List.getLast?_eq_none_iff.mp h) (Token.text_ne_nil htok)
  | some c => rwa [List.getLast?_append, h, Option.some_or] at hlast

theorem apart_numeral (u : List Char) {n : Numeral} (hn : n.WF) (rest : List Char) :
    Apart u (n.text ++ rest) := by
  obtain ⟨c, s, hcs, -⟩ := Numeral.head hn
  rintro ⟨-, hhead⟩
  rw [hcs] at hhead
  obtain rfl := Option.some.inj hhead
  exact quote_notMem_numeral hn (hcs ▸ List.mem_cons_self)

/-- A string literal behind an even number of quotes is blanked. -/
theorem unquoted_string {u rest : List Char} (content : List Char) (heven : Even (quotes u))
    (hu : u.getLast? ≠ some '\'') (hrest : rest.head? ≠ some '\'') :
    unquoted (u ++ (Token.text (.string content) ++ rest))
      = unquoted u ++ '?' :: unquoted rest := by
  rw [unquoted_append heven (fun h => hu h.1)]
  have hclose := close_doubled content hrest
  show unquoted u ++ unquoted ('\'' :: (doubled '\'' content ++ ['\''] ++ rest)) = _
  rw [List.append_assoc, List.singleton_append, unquoted_of_close hclose]

theorem even_quotes_append {tok tok' : Token} (htok : SameToken tok tok')
    (hwf : tok.WF isLetter) (hwf' : tok'.WF isLetter) {u u' : List Char}
    (hquotes : Even (quotes u) ↔ Even (quotes u')) :
    Even (quotes (u ++ tok.text)) ↔ Even (quotes (u' ++ tok'.text)) := by
  have htext : Even (quotes tok.text) ↔ Even (quotes tok'.text) := by
    cases htok with
    | refl => exact Iff.rfl
    | string content content' => exact iff_of_true (quotes_string _) (quotes_string _)
    | number n n' => rw [quotes_number hwf, quotes_number hwf']
  rw [quotes_append, quotes_append, Nat.even_add, Nat.even_add, hquotes, htext]

/-- Two string literals behind an even number of quotes. -/
theorem unquoted_string_eq {content content' u : List Char} {ts : List Token}
    (hend : Token.EndsAt isLetter (.string content) (text ts)) (heven : Even (quotes u))
    {rest : List Char}
    (hu : Apart u (Token.text (.string content') ++ rest)) :
    unquoted (u ++ (Token.text (.string content) ++ text ts))
      = unquoted (u ++ (Token.text (.string content') ++ text ts)) := by
  have hlast : u.getLast? ≠ some '\'' := fun h => hu ⟨h, rfl⟩
  have hhead : (text ts).head? ≠ some '\'' := by
    intro h
    have hgoes := hend.1
    rw [h] at hgoes
    exact absurd (show ('\'' == '\'') = false from hgoes) (by decide)
  rw [unquoted_string content heven hlast hhead, unquoted_string content' heven hlast hhead]

/-- Literal by literal: those before are already the others. -/
theorem unquoted_text_eq {ts ts' : List Token} (hsame : Same ts ts') {u u' : List Char}
    (hquotes : Even (quotes u) ↔ Even (quotes u')) (hhidden : HiddenFrom u ts)
    (hts : Lexed isLetter ts) (hts' : Lexed isLetter ts') (hu' : Apart u' (text ts')) :
    unquoted (u' ++ text ts) = unquoted (u' ++ text ts') := by
  induction hsame generalizing u u' with
  | nil => rfl
  | @cons tok tok' ts ts' htok hsame ih =>
    obtain ⟨hcovered, hhidden⟩ := hhidden
    obtain ⟨hwf, hend, hts⟩ := hts
    obtain ⟨hwf', hend', hts'⟩ := hts'
    have hnext : Apart (u' ++ tok'.text) (text ts') := apart_append u' hwf' hend'
    have hparity := even_quotes_append htok hwf hwf' hquotes
    -- the tokens behind are exchanged first, with the new literal in front of them
    have hrest := ih hparity hhidden hts hts' hnext
    rw [List.append_assoc, List.append_assoc] at hrest
    rw [text_cons, text_cons, ← hrest]
    cases htok with
    | refl => rfl
    | string content content' =>
      exact unquoted_string_eq hend (hquotes.mp hcovered) hu'
    | number n n' =>
      have hodd : Odd (quotes u') := by
        rw [← Nat.not_even_iff_odd, ← hquotes, Nat.not_even_iff_odd]
        exact hcovered.1
      obtain ⟨r, hr⟩ := exists_close hcovered.2
      have hclose {m : Numeral} (hm : m.WF) : close (m.text ++ text ts) = some r := by
        rw [close_of_notMem (quote_notMem_numeral hm), hr]
      exact unquoted_congr hodd (apart_numeral u' hwf _) (apart_numeral u' hwf' _) (hclose hwf)
        (hclose hwf')

theorem hidesLiterals_of_hidden {ts : List Token} (hts : Lexed isLetter ts) (h : Hidden ts) :
    HidesLiterals isLetter ts := by
  intro ts' hts' hsame
  have hunquoted : unquoted (text ts) = unquoted (text ts') :=
    @unquoted_text_eq _ _ _ hsame [] [] Iff.rfl h hts hts' (fun h => nomatch h.1)
  unfold unquoted at hunquoted
  rw [stripLiterals, stripLiterals, String.toList_ofList, String.toList_ofList, hunquoted]

end

/-! ### Literals that are seen -/

theorem consuming_reNumberLit : reNumberLit.Consuming :=
  (((consuming_set _).seq_left _).seq_left _).seq_right _

theorem consuming_reWhitespace : reWhitespace.Consuming := (consuming_set _).seq_left _

theorem toNat_of_isAlpha {c : Char} (h : c.isAlpha = true) :
    65 ≤ c.toNat ∧ c.toNat ≤ 90 ∨ 97 ≤ c.toNat ∧ c.toNat ≤ 122 := by
  have hcases : c.isUpper = true ∨ c.isLower = true := Bool.or_eq_true_iff.mp h
  rcases hcases with hupper | hlower
  · exact Or.inl (of_decide_eq_true hupper)
  · have hbounds := Bool.and_eq_true_iff.mp hlower
    exact Or.inr ⟨of_decide_eq_true hbounds.1, of_decide_eq_true hbounds.2⟩

theorem not_isAlpha_of_isSpace {c : Char} (h : GoText.isSpace c = true) : c.isAlpha = false := by
  rw [Bool.eq_false_iff]
  intro halpha
  have hrange := toNat_of_isAlpha halpha
  simp only [GoText.isSpace, Bool.or_eq_true, Bool.and_eq_true, decide_eq_true_eq,
    beq_iff_eq] at h
  omega

theorem not_isAlpha_of_isDigit {c : Char} (h : c.isDigit = true) : c.isAlpha = false := by
  rw [Bool.eq_false_iff]
  intro halpha
  have hrange := toNat_of_isAlpha halpha
  have hdigit := Bool.and_eq_true_iff.mp h
  have hlow : 48 ≤ c.toNat := of_decide_eq_true hdigit.1
  have hhigh : c.toNat ≤ 57 := of_decide_eq_true hdigit.2
  omega

/-- Only the first expression takes letters away. -/
theorem filter_stripLiterals (s : List Char) :
    (stripLiterals (String.ofList s)).toList.filter Char.isAlpha
      = (unquoted s).filter Char.isAlpha := by
  have hnumber (c : Char) (h : reNumberLit.reads c = true) : c.isAlpha = false := by
    simp only [reNumberLit, Regexp.plus, Regexp.char, Regexp.reads, Bool.or_false, Bool.false_or,
      Bool.or_self, Bool.or_eq_true, beq_iff_eq] at h
    rcases h with h | rfl | h
    · exact not_isAlpha_of_isDigit h
    · rfl
    · exact not_isAlpha_of_isDigit h
  have hblank (c : Char) (h : reWhitespace.reads c = true) : c.isAlpha = false := by
    simp only [reWhitespace, Regexp.plus, Regexp.reads, Bool.or_self, isBlank, decide_eq_true_eq,
      List.mem_cons, List.not_mem_nil, or_false] at h
    rcases h with rfl | rfl | rfl | rfl | rfl <;> rfl
  rw [stripLiterals, String.toList_ofList, GoText.filter_trimSpace fun _ => not_isAlpha_of_isSpace,
    String.toList_ofList, filter_replaceAll consuming_reWhitespace hblank (by decide),
    filter_replaceAll consuming_reNumberLit hnumber (by decide), unquoted]

/-- A letter that the first expression leaves in its place is reported. -/
theorem eq_of_stripLiterals_eq {s s' u w : List Char} {c c' : Char}
    (hs : (unquoted s).filter Char.isAlpha = u ++ c :: w)
    (hs' : (unquoted s').filter Char.isAlpha = u ++ c' :: w)
    (h : stripLiterals (String.ofList s) = stripLiterals (String.ofList s')) : c = c' := by
  have hletters := congrArg (fun t => t.toList.filter Char.isAlpha) h
  simp only [filter_stripLiterals, hs, hs'] at hletters
  exact (List.cons.inj (List.append_cancel_left hletters)).1

section

variable {isLetter : Char → Bool} {before after : List Token}

/-- `.1e1` or `.1E2`, which can stand wherever a numeral can. -/
def pointNumeral (e power : Char) : Numeral := .exponent ⟨[], some ['1']⟩ e none [power]

theorem lexed_pointNumeral {n : Numeral} {e power : Char} (he : e ∈ ['e', 'E'])
    (hpower : power.isDigit = true) (h : Lexed isLetter (before ++ .number n :: after))
    (hn : n.WF) : Lexed isLetter (before ++ .number (pointNumeral e power) :: after) := by
  obtain ⟨c, s, hcs, hc⟩ := Numeral.head hn
  have hold : Token.text (.number n) = c :: s := hcs
  have hnew : Token.text (.number (pointNumeral e power)) = '.' :: ['1', e, power] := rfl
  refine Lexed.replace hold hnew (Or.inr ⟨hc, rfl⟩) ?_ ?_ h
  · refine ⟨⟨by decide, by decide⟩, he, fun _ h => (nomatch h), ?_, List.cons_ne_nil _ _⟩
    intro d hd
    rwa [List.mem_singleton.mp hd]
  · intro hend
    refine ⟨?_, fun hdecimal => nomatch hdecimal⟩
    have hgoes := hend.1
    cases hhead : (text after).head? with
    | none => rfl
    | some d =>
      rw [hhead, Option.any_some] at hgoes
      show d.isDigit = false
      cases n with
      | decimal m => exact (Bool.or_eq_false_iff.mp hgoes).1
      | exponent m e sign power => exact hgoes
      | hex x digits =>
        exact (Bool.or_eq_false_iff.mp (Bool.or_eq_false_iff.mp hgoes).1).1

theorem wf_of_lexed {tok : Token} (h : Lexed isLetter (before ++ tok :: after)) :
    tok.WF isLetter := by
  induction before with
  | nil => exact h.1
  | cons x before ih => exact ih h.2.2

theorem covered_string {content : List Char}
    (hts : Lexed isLetter (before ++ .string content :: after))
    (h : HidesLiterals isLetter (before ++ .string content :: after)) :
    Even (quotes (text before)) := by
  rw [← Nat.not_odd_iff_even]
  intro hodd
  -- an odd number of quotes before it, and the first expression takes what is between literals
  have hseen (c : Char) (hc : c ≠ '\'') :
      unquoted (text (before ++ .string [c] :: after))
        = unquoted (text before ++ ['\'']) ++ c :: unquoted ('\'' :: text after) := by
    have htext : text (before ++ .string [c] :: after)
        = text before ++ ['\''] ++ c :: '\'' :: text after := by
      rw [text_append, text_cons, List.append_assoc, Token.text, doubled, List.flatMap_singleton,
        if_neg hc]
      rfl
    have heven : Even (quotes (text before ++ ['\''])) := by
      rw [quotes_append, Nat.even_add']
      exact iff_of_true hodd (by decide)
    have hapart : Apart (text before ++ ['\'']) (c :: '\'' :: text after) := fun h =>
      hc (Option.some.inj h.2)
    rw [htext, unquoted_append heven hapart, unquoted_cons hc]
  have hother (c : Char) :
      stripLiterals (String.ofList (text (before ++ .string content :: after)))
        = stripLiterals (String.ofList (text (before ++ .string [c] :: after))) := by
    have hold : Token.text (.string content) = '\'' :: (doubled '\'' content ++ ['\'']) := rfl
    have hnew : Token.text (.string [c]) = '\'' :: (doubled '\'' [c] ++ ['\'']) := rfl
    apply h
    · exact Lexed.replace hold hnew (Or.inl ⟨rfl, rfl⟩) trivial (fun hend => hend) hts
    · exact SameToken.forall₂_replace before after (.string content [c])
  have hx := hseen 'x' (by decide)
  have hy := hseen 'y' (by decide)
  have heq : 'x' = 'y' := eq_of_stripLiterals_eq
    (by rw [hx, List.filter_append, List.filter_cons, if_pos (by decide)])
    (by rw [hy, List.filter_append, List.filter_cons, if_pos (by decide)])
    ((hother 'x').symm.trans (hother 'y'))
  exact absurd heq (by decide)

/-- What is not hidden is left in its place. -/
theorem unquoted_seen {u rest : List Char} (h : ¬ (Odd (quotes u) ∧ '\'' ∈ rest)) :
    ∃ w, (w = unquoted rest ∨ w = rest) ∧ ∀ m, '\'' ∉ m → m ≠ [] →
      unquoted (u ++ (m ++ rest)) = unquoted u ++ (m ++ w) := by
  by_cases heven : Even (quotes u)
  · refine ⟨unquoted rest, Or.inl rfl, fun m hm hne => ?_⟩
    have hapart : Apart u (m ++ rest) := by
      obtain ⟨c, s, rfl⟩ := List.exists_cons_of_ne_nil hne
      rintro ⟨-, hhead⟩
      obtain rfl := Option.some.inj hhead
      exact hm List.mem_cons_self
    rw [unquoted_append heven hapart, unquoted_prepend hm]
  · have hrest : '\'' ∉ rest := fun hmem => h ⟨Nat.not_even_iff_odd.mp heven, hmem⟩
    refine ⟨rest, Or.inr rfl, fun m hm _ => ?_⟩
    apply unquoted_append_of_notMem
    rw [List.mem_append, not_or]
    exact ⟨hm, hrest⟩

theorem covered_number {n : Numeral} (hts : Lexed isLetter (before ++ .number n :: after))
    (h : HidesLiterals isLetter (before ++ .number n :: after)) :
    Odd (quotes (text before)) ∧ '\'' ∈ text after := by
  by_contra hcovered
  obtain ⟨w, -, hseen⟩ := unquoted_seen hcovered
  have hletters (e power : Char) (hq : '\'' ∉ (pointNumeral e power).text)
      (hfilter : (pointNumeral e power).text.filter Char.isAlpha = [e]) :
      (unquoted (text (before ++ .number (pointNumeral e power) :: after))).filter Char.isAlpha
        = (unquoted (text before)).filter Char.isAlpha ++ e :: w.filter Char.isAlpha := by
    rw [text_append, text_cons]
    have := hseen (pointNumeral e power).text hq (List.cons_ne_nil _ _)
    rw [show Token.text (.number (pointNumeral e power)) = (pointNumeral e power).text from rfl,
      this, List.filter_append, List.filter_append, hfilter]
    rfl
  have hother (e power : Char) (he : e ∈ ['e', 'E']) (hpower : power.isDigit = true) :
      stripLiterals (String.ofList (text (before ++ .number n :: after))) = stripLiterals
        (String.ofList (text (before ++ .number (pointNumeral e power) :: after))) := by
    apply h
    · exact lexed_pointNumeral he hpower hts (wf_of_lexed hts)
    · exact SameToken.forall₂_replace before after (.number n _)
  have heq : 'e' = 'E' := eq_of_stripLiterals_eq (hletters 'e' '1' (by decide) (by decide))
    (hletters 'E' '2' (by decide) (by decide))
    ((hother 'e' '1' (by decide) (by decide)).symm.trans (hother 'E' '2' (by decide) (by decide)))
  exact absurd heq (by decide)

theorem hiddenFrom_iff {u : List Char} {ts : List Token} :
    HiddenFrom u ts ↔ ∀ before tok after, ts = before ++ tok :: after →
      Token.Covered tok (u ++ text before) (text after) := by
  induction ts generalizing u with
  | nil => exact iff_of_true trivial fun before tok after h => by cases before <;> cases h
  | cons t ts ih =>
    rw [HiddenFrom, ih]
    constructor
    · rintro ⟨hcovered, hrest⟩ before tok after h
      cases before with
      | nil =>
        obtain ⟨rfl, rfl⟩ := List.cons.inj h
        rwa [show text [] = [] from rfl, List.append_nil]
      | cons x before =>
        obtain ⟨rfl, rfl⟩ := List.cons.inj h
        rw [text_cons, ← List.append_assoc]
        exact hrest before tok after rfl
    · intro h
      refine ⟨?_, fun before tok after heq => ?_⟩
      · have hfirst := h [] t ts rfl
        rwa [show text [] = [] from rfl, List.append_nil] at hfirst
      · have hlater := h (t :: before) tok after (by rw [heq]; rfl)
        rwa [text_cons, ← List.append_assoc] at hlater

/-- A statement is reported as the same text with any literals exactly if they are hidden. -/
theorem hidesLiterals_iff {ts : List Token} (hts : Lexed isLetter ts) :
    HidesLiterals isLetter ts ↔ Hidden ts := by
  constructor
  · intro h
    rw [Hidden, hiddenFrom_iff]
    rintro before tok after rfl
    rw [List.nil_append]
    -- only literals can be seen
    cases tok with
    | string content => exact covered_string hts h
    | number n => exact covered_number hts h
    | lineComment | blockComment | bracketed | quoted | word | other => exact trivial
  · exact hidesLiterals_of_hidden hts

end

end Argus.Collect
