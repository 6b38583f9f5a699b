import Argus.Collect.Statements

namespace Argus.Collect

open GoRegexp TSql

/-!
# Plain numerals

A numeral such as `12` or `12.5` is blanked whatever it is, unless a letter follows it directly.

* `Decimal.Plain` — the numerals that the second expression knows.
* `replaceAll_numeral` — such a numeral is blanked where it stands.
* `Blanked` — the string literals of a statement have an even number of quotes before them, and its
  numerals are plain ones or hidden.
* `stripLiterals_eq_of_blanked` — two such statements that are the same but for their literals are
  reported as the same text.
-/

/-- What the second expression would go on with: `\w` or a point. -/
def isNumberChar (c : Char) : Bool := isWord c || c == '.'

theorem isWord_of_isDigit {c : Char} (h : c.isDigit = true) : isWord c = true := by
  rw [isWord, Char.isAlphanum, h, Bool.or_true, Bool.true_or]

theorem not_isDigit_of_any {f : Char → Bool} (hf : ∀ c, c.isDigit = true → f c = true)
    {o : Option Char} (h : o.any f = false) : o.any Char.isDigit = false := by
  cases o with
  | none => rfl
  | some c =>
    rw [Option.any_some] at h ⊢
    rw [Bool.eq_false_iff] at h ⊢
    exact fun hc => h (hf c hc)

-- a property of all characters of a text is decided on the text
attribute [local instance (1100)] List.decidableBAll

/-! ### A match of the second expression -/

/-- `12` or `12.5`. -/
def IsPlain (m : Decimal) : Prop := m.WF ∧ m.whole ≠ [] ∧ m.fraction ≠ some []

theorem exists_getLast? {ds : List Char} (hds : ∀ c ∈ ds, c.isDigit = true) (hne : ds ≠ []) :
    ∃ d : Char, d.isDigit = true ∧ ds.getLast? = some d :=
  ⟨ds.getLast hne, hds _ (List.getLast_mem hne), List.getLast?_eq_some_getLast hne⟩

section

variable {rest : List Char}

theorem not_isWord_of_any (hrest : rest.head?.any isNumberChar = false) :
    rest.head?.any isWord = false ∧ rest.head? ≠ some '.' := by
  cases h : rest.head? with
  | none => exact ⟨rfl, fun h => nomatch h⟩
  | some c =>
    rw [h, Option.any_some, isNumberChar, Bool.or_eq_false_iff] at hrest
    refine ⟨hrest.1, fun hc => ?_⟩
    rw [Option.some.inj hc] at hrest
    exact absurd hrest.2 (by decide)

/-- The fraction is read if there is one. -/
theorem head_fraction (hrest : rest.head?.any isNumberChar = false) {fraction : Option (List Char)}
    (hdigits : ∀ c ∈ fraction.getD [], c.isDigit = true) (hne : fraction ≠ some []) {d : Char}
    (hd : d.isDigit = true) :
    ∃ d' : Char, d'.isDigit = true ∧
      (ends (.opt (.seq (.char '.') (.plus (.set Char.isDigit))))
        ⟨some d, (fraction.map (fun f => '.' :: f)).getD [] ++ rest⟩).head?
        = some ⟨some d', rest⟩ := by
  obtain ⟨hword, hpoint⟩ := not_isWord_of_any hrest
  cases fraction with
  | none =>
    refine ⟨d, hd, ?_⟩
    have hnone : ends (.char '.') ⟨some d, rest⟩ = [] := by
      cases rest with
      | nil => rfl
      | cons c rest => rw [ends_char, if_neg fun h => hpoint (congrArg some h)]
    rw [Option.map_none, Option.getD_none, List.nil_append, ends, ends, hnone]
    rfl
  | some f =>
    have hf : f ≠ [] := fun h => hne (congrArg some h)
    obtain ⟨d', hd', hlast⟩ := exists_getLast? hdigits hf
    refine ⟨d', hd', ?_⟩
    have hpointRead : (ends (.char '.') ⟨some d, '.' :: (f ++ rest)⟩).head?
        = some ⟨some '.', f ++ rest⟩ := by
      rw [ends_char, if_pos rfl, List.head?_cons]
    have hfRead := head_plus_set hdigits hf
      (not_isDigit_of_any (fun _ => isWord_of_isDigit) hword) (some '.')
    rw [ends, List.head?_append]
    show ((ends _ ⟨some d, '.' :: (f ++ rest)⟩).head?).or _ = _
    rw [head_seq hpointRead hfRead, Option.some_or, hlast]

theorem head_reNumberLit {m : Decimal} (hm : IsPlain m)
    (hrest : rest.head?.any isNumberChar = false) {before : Option Char}
    (hbefore : before.any isWord = false) :
    ∃ d : Char, d.isDigit = true ∧
      (ends reNumberLit ⟨before, m.text ++ rest⟩).head? = some ⟨some d, rest⟩ := by
  obtain ⟨whole, fraction⟩ := m
  obtain ⟨⟨hdigits, -⟩, hwhole, hfraction⟩ := hm
  have hwholeDigits : ∀ c ∈ whole, c.isDigit = true := fun c hc =>
    hdigits c (List.mem_append_left _ hc)
  obtain ⟨hword, -⟩ := not_isWord_of_any hrest
  obtain ⟨d, hd, hlast⟩ := exists_getLast? hwholeDigits hwhole
  obtain ⟨d', hd', hfractionRead⟩ := head_fraction hrest (fun c hc =>
    hdigits c (List.mem_append_right _ hc)) hfraction hd
  refine ⟨d', hd', ?_⟩
  -- the expression has four parts: a bound, the whole digits, the fraction and a bound
  have hstart : (ends .bound ⟨before, Decimal.text ⟨whole, fraction⟩ ++ rest⟩).head?
      = some ⟨before, Decimal.text ⟨whole, fraction⟩ ++ rest⟩ := by
    obtain ⟨c, whole, rfl⟩ := List.exists_cons_of_ne_nil hwhole
    have hc : isWord c = true := isWord_of_isDigit (hwholeDigits c List.mem_cons_self)
    have hat : atBound ⟨before, c :: (whole ++ ((fraction.map (fun f => '.' :: f)).getD [] ++ rest))⟩
        = true := by
      rw [atBound, hbefore, List.head?_cons, Option.any_some, hc]
      rfl
    rw [Decimal.text, List.append_assoc, List.cons_append]
    exact congrArg List.head? (if_pos hat)
  have hstop : (ends .bound ⟨some d', rest⟩).head? = some ⟨some d', rest⟩ := by
    have hat : atBound ⟨some d', rest⟩ = true := by
      rw [atBound, Option.any_some, isWord_of_isDigit hd', hword]
      rfl
    exact congrArg List.head? (if_pos hat)
  have hnext : (((fraction.map (fun f => '.' :: f)).getD [] ++ rest).head?).any Char.isDigit
      = false := by
    cases fraction with
    | none => exact not_isDigit_of_any (fun _ => isWord_of_isDigit) hword
    | some f => rfl
  have hwholeRead := head_plus_set hwholeDigits hwhole hnext before
  rw [hlast, ← List.append_assoc] at hwholeRead
  exact head_seq hstart (head_seq hwholeRead (head_seq hfractionRead hstop))

/-- Behind a digit nothing begins that is not a numeral. -/
theorem replace_behind_digit (hrest : rest.head?.any isNumberChar = false) (d d' : Char) :
    replace reNumberLit ['?'] ⟨some d, rest⟩ = replace reNumberLit ['?'] ⟨some d', rest⟩ := by
  cases rest with
  | nil => rfl
  | cons c rest =>
    have hc : c.isDigit = false :=
      not_isDigit_of_any (fun _ => isWord_of_isDigit) (not_isWord_of_any hrest).1
    have hnone (b : Option Char) : (ends reNumberLit ⟨b, c :: rest⟩).head? = none := by
      have hset (b : Option Char) : ends (.set Char.isDigit) ⟨b, c :: rest⟩ = [] :=
        if_neg (Bool.eq_false_iff.mp hc)
      rw [reNumberLit, ends, ends]
      split
      · rw [List.flatMap_singleton, ends, Regexp.plus, ends, hset]
        rfl
      · rfl
    rw [replace_of_no_match (hnone _), replace_of_no_match (hnone _)]

/-- A plain numeral is blanked where it stands. -/
theorem replaceAll_numeral {m : Decimal} (hm : IsPlain m) {u : List Char}
    (hu : u.getLast?.any isNumberChar = false) (hrest : rest.head?.any isNumberChar = false) :
    replaceAll reNumberLit ['?'] (u ++ (m.text ++ rest))
      = replaceAll reNumberLit ['?'] u ++ '?' :: replace reNumberLit ['?'] ⟨some '0', rest⟩ := by
  obtain ⟨c, s, hcs⟩ := List.exists_cons_of_ne_nil (Decimal.text_ne_nil hm.1)
  have hblank {before : Option Char} (hbefore : before.any isWord = false) :
      replace reNumberLit ['?'] ⟨before, m.text ++ rest⟩
        = '?' :: replace reNumberLit ['?'] ⟨some '0', rest⟩ := by
    obtain ⟨d, -, hfirst⟩ := head_reNumberLit hm hrest hbefore
    rw [hcs, List.cons_append] at hfirst ⊢
    rw [replace_of_match consuming_reNumberLit hfirst, replace_behind_digit hrest d '0']
    rfl
  rcases List.eq_nil_or_concat u with rfl | ⟨u, a, rfl⟩
  · exact hblank rfl
  · -- the character in front is not read, so that the text is cut there
    rw [List.concat_eq_append, List.getLast?_concat, Option.any_some, isNumberChar,
      Bool.or_eq_false_iff] at hu
    have hreads : reNumberLit.reads a = false := by
      have hdigit : a.isDigit = false :=
        not_isDigit_of_any (o := some a) (fun _ => isWord_of_isDigit) hu.1
      simp [reNumberLit, Regexp.plus, Regexp.char, Regexp.reads, hdigit, hu.2]
    have hcut (w : List Char) := @replace_append reNumberLit a consuming_reNumberLit ['?'] hreads
      hu.1 w ⟨none, u⟩
    have hwhole := hcut (m.text ++ rest)
    rw [@hblank (some a) hu.1] at hwhole
    have hpart := hcut []
    rw [replace_nil] at hpart
    rw [List.concat_eq_append, List.append_assoc]
    refine hwhole.trans ?_
    show _ = replace reNumberLit ['?'] (Place.append ⟨none, u⟩ [a]) ++ _
    rw [hpart, List.append_assoc]
    rfl

end

/-! ### What the first expression leaves beside a numeral -/

theorem unquoted_ne_nil {s : List Char} (h : s ≠ []) : unquoted s ≠ [] := by
  obtain ⟨c, s, rfl⟩ := List.exists_cons_of_ne_nil h
  by_cases hc : c = '\''
  · subst hc
    cases hs : close s with
    | none =>
      rw [unquoted_of_open hs]
      exact List.cons_ne_nil _ _
    | some rest =>
      rw [unquoted_of_close hs]
      exact List.cons_ne_nil _ _
  · rw [unquoted_cons hc]
    exact List.cons_ne_nil _ _

theorem head_unquoted {s : List Char} (h : s.head?.any isNumberChar = false) :
    (unquoted s).head?.any isNumberChar = false := by
  cases s with
  | nil => rfl
  | cons c s =>
    by_cases hc : c = '\''
    · subst hc
      cases hs : close s with
      | none =>
        rw [unquoted_of_open hs]
        rfl
      | some rest =>
        rw [unquoted_of_close hs]
        rfl
    · rwa [unquoted_cons hc]

theorem getLast_unquoted {s : List Char} (h : s.getLast?.any isNumberChar = false) :
    (unquoted s).getLast?.any isNumberChar = false := by
  obtain ⟨n, hn⟩ : ∃ n, s.length ≤ n := ⟨_, Nat.le_refl _⟩
  -- behind a first character the end of a text is its end, unless there is nothing else
  have hcons {c : Char} {t : List Char} (hc : t = [] → isNumberChar c = false)
      (ht : t.getLast?.any isNumberChar = false) : (c :: t).getLast?.any isNumberChar = false := by
    cases t with
    | nil => exact hc rfl
    | cons d t => rwa [List.getLast?_cons_cons]
  induction n generalizing s with
  | zero =>
    obtain rfl := List.eq_nil_of_length_eq_zero (Nat.le_zero.mp hn)
    rfl
  | succ n ih =>
    cases s with
    | nil => rfl
    | cons c s =>
      rw [List.length_cons] at hn
      have hlen : s.length ≤ n := Nat.le_of_succ_le_succ hn
      have hsuffix {t : List Char} (ht : t <:+ s) : t.getLast?.any isNumberChar = false := by
        cases hlast : t.getLast? with
        | none => rfl
        | some d =>
          obtain ⟨v, rfl⟩ := ht
          rw [← List.cons_append, List.getLast?_append, hlast, Option.some_or] at h
          exact h
      have hrest : (unquoted s).getLast?.any isNumberChar = false :=
        ih (hsuffix List.suffix_rfl) hlen
      by_cases hc : c = '\''
      · subst hc
        cases hs : close s with
        | none =>
          rw [unquoted_of_open hs]
          exact hcons (fun _ => rfl) hrest
        | some rest =>
          have hrest' := close_suffix hs
          rw [unquoted_of_close hs]
          exact hcons (fun _ => rfl) (ih (hsuffix hrest') (hrest'.length_le.trans hlen))
      · rw [unquoted_cons hc]
        refine hcons (fun hnil => ?_) hrest
        have hs : s = [] := by
          by_contra hne
          exact unquoted_ne_nil hne hnil
        subst hs
        exact h

/-! ### Statements with plain numerals -/

/-- What a token needs between what is before it and what is after it. -/
def Token.Blankable (tok : Token) (before after : List Char) : Prop :=
  match tok with
  | .string _ => Even (quotes before)
  | .number n => (Odd (quotes before) ∧ '\'' ∈ after)
      ∨ ((∃ m, n = .decimal m ∧ IsPlain m) ∧ after.head?.any isNumberChar = false)
  | _ => True

def BlankedFrom (before : List Char) : List Token → Prop
  | [] => True
  | tok :: ts => Token.Blankable tok before (text ts) ∧ BlankedFrom (before ++ tok.text) ts

def Blanked (ts : List Token) : Prop := BlankedFrom [] ts

section

variable {isLetter : Char → Bool}

/-- Nothing before a digit is a part of a number. -/
theorem getLast_of_endsAt {tok : Token} (htok : tok.WF isLetter) {c : Char} {s : List Char}
    (hc : c.isDigit = true) (hend : tok.EndsAt isLetter (c :: s)) :
    tok.text.getLast?.any isNumberChar = false := by
  have hgoes : tok.goesOn isLetter c = false := hend.1
  have hmem {d : Char} (hd : tok.text.getLast? = some d) : d ∈ tok.text :=
    List.mem_of_getLast? hd
  cases tok with
  | string content =>
    rw [Token.text, ← List.cons_append, List.getLast?_concat]
    rfl
  | number n =>
    cases n with
    | decimal m => simp [Token.goesOn, hc] at hgoes
    | exponent m e sign power => simp [Token.goesOn, hc] at hgoes
    | hex x digits => simp [Token.goesOn, isHexDigit, hc] at hgoes
  | lineComment body =>
    -- a digit would be a part of the comment
    simp [Token.goesOn, bne_of_isDigit hc (d := '\n') (by decide),
      bne_of_isDigit hc (d := '\r') (by decide)] at hgoes
  | blockComment body =>
    have hbody := getLast?_commentEnd htok
    cases body with
    | nil => cases hbody
    | cons d body =>
      rw [Token.text, List.getLast?_cons_cons, List.getLast?_cons_cons, hbody]
      rfl
  | bracketed name =>
    rw [Token.text, ← List.cons_append, List.getLast?_concat]
    rfl
  | quoted name =>
    rw [Token.text, ← List.cons_append, List.getLast?_concat]
    rfl
  | word name => simp [Token.goesOn, isWordChar, hc] at hgoes
  | other d =>
    obtain ⟨hstart, hdigit, -⟩ := htok
    simp only [isWordStart, Bool.or_eq_false_iff, decide_eq_false_iff_not] at hstart
    have hunderscore : (d == '_') = false := by
      rw [beq_eq_false_iff_ne]
      rintro rfl
      exact hstart.1.2 List.mem_cons_self
    have hpoint : (d == '.') = false := by
      rw [beq_eq_false_iff_ne]
      rintro rfl
      simp [Token.goesOn, hc] at hgoes
    show isNumberChar d = false
    rw [isNumberChar, isWord, Char.isAlphanum, hstart.1.1, hdigit, hunderscore, hpoint]
    rfl

theorem quote_mem_text {ts ts' : List Token} (hsame : Same ts ts') (hts : Lexed isLetter ts)
    (hts' : Lexed isLetter ts') : '\'' ∈ text ts ↔ '\'' ∈ text ts' := by
  induction hsame with
  | nil => exact Iff.rfl
  | @cons tok tok' ts ts' htok _ ih =>
    rw [text_cons, text_cons, List.mem_append, List.mem_append, ih hts.2.2 hts'.2.2]
    refine or_congr_left ?_
    cases htok with
    | refl => exact Iff.rfl
    | string content content' => exact iff_of_true List.mem_cons_self List.mem_cons_self
    | number n n' =>
      exact iff_of_false (quote_notMem_numeral hts.1) (quote_notMem_numeral hts'.1)

/-- One numeral for another: either both are hidden or both are plain. -/
theorem stripLiterals_number {n n' : Numeral} (hn : n.WF) (hn' : n'.WF) {u rest rest' : List Char}
    (hmem : '\'' ∈ rest ↔ '\'' ∈ rest') (h : Token.Blankable (.number n) u rest)
    (h' : Token.Blankable (.number n') u rest')
    (hu : (n'.text ++ rest').head?.any Char.isDigit = true →
      u.getLast?.any isNumberChar = false) :
    stripLiterals (String.ofList (u ++ (n.text ++ rest)))
      = stripLiterals (String.ofList (u ++ (n'.text ++ rest))) := by
  by_cases hhidden : Odd (quotes u) ∧ '\'' ∈ rest
  · -- the first expression takes the numeral for a part of a string
    obtain ⟨r, hr⟩ := exists_close hhidden.2
    have hunquoted : unquoted (u ++ (n.text ++ rest)) = unquoted (u ++ (n'.text ++ rest)) :=
      unquoted_congr hhidden.1 (apart_numeral u hn rest) (apart_numeral u hn' rest)
        (by rw [close_of_notMem (quote_notMem_numeral hn), hr])
        (by rw [close_of_notMem (quote_notMem_numeral hn'), hr])
    unfold unquoted at hunquoted
    rw [stripLiterals, stripLiterals, String.toList_ofList, String.toList_ofList, hunquoted]
  · -- the first expression leaves it to the second
    obtain ⟨⟨m, rfl, hm⟩, hrest⟩ := h.resolve_left hhidden
    obtain ⟨⟨m', rfl, hm'⟩, -⟩ := h'.resolve_left fun h => hhidden ⟨h.1, hmem.mpr h.2⟩
    have hlast : (unquoted u).getLast?.any isNumberChar = false := by
      refine getLast_unquoted (hu ?_)
      obtain ⟨c, whole, hwhole⟩ := List.exists_cons_of_ne_nil hm'.2.1
      rw [Numeral.text, Decimal.text, hwhole]
      exact hm'.1.1 c (by rw [hwhole]; exact List.mem_cons_self)
    obtain ⟨w, hw, hseen⟩ := unquoted_seen hhidden
    have hhead : w.head?.any isNumberChar = false := by
      rcases hw with rfl | rfl
      · exact head_unquoted hrest
      · exact hrest
    have hplain := hseen m.text (quote_notMem_numeral hn) (Decimal.text_ne_nil hm.1)
    have hplain' := hseen m'.text (quote_notMem_numeral hn') (Decimal.text_ne_nil hm'.1)
    unfold unquoted at hplain hplain' hlast
    rw [stripLiterals, stripLiterals, String.toList_ofList, String.toList_ofList, Numeral.text,
      Numeral.text, hplain, hplain', replaceAll_numeral hm hlast hhead,
      replaceAll_numeral hm' hlast hhead]

theorem stripLiterals_text_eq {ts ts' : List Token} (hsame : Same ts ts') {u u' : List Char}
    (hquotes : Even (quotes u) ↔ Even (quotes u')) (hblanked : BlankedFrom u ts)
    (hblanked' : BlankedFrom u' ts') (hts : Lexed isLetter ts) (hts' : Lexed isLetter ts')
    (hu' : Apart u' (text ts'))
    (hdigit : (text ts').head?.any Char.isDigit = true → u'.getLast?.any isNumberChar = false) :
    stripLiterals (String.ofList (u' ++ text ts))
      = stripLiterals (String.ofList (u' ++ text ts')) := by
  induction hsame generalizing u u' with
  | nil => rfl
  | @cons tok tok' ts ts' htok hsame ih =>
    obtain ⟨hblankable, hblanked⟩ := hblanked
    obtain ⟨hblankable', hblanked'⟩ := hblanked'
    obtain ⟨hwf, hend, hts⟩ := hts
    obtain ⟨hwf', hend', hts'⟩ := hts'
    -- the tokens behind are exchanged first, with the new literal in front of them
    have hrest := ih (even_quotes_append htok hwf hwf' hquotes) hblanked hblanked' hts hts'
      (apart_append u' hwf' hend') (fun hhead => by
        obtain ⟨c, s, hcs⟩ : ∃ c s, text ts' = c :: s := by
          cases h : text ts' with
          | nil =>
            rw [h] at hhead
            cases hhead
          | cons c s => exact ⟨c, s, rfl⟩
        rw [hcs] at hend' hhead
        have hlast := getLast_of_endsAt hwf' hhead hend'
        cases h : tok'.text.getLast? with
        | none => exact absurd (List.getLast?_eq_none_iff.mp h) (Token.text_ne_nil hwf')
        | some d =>
          rw [h] at hlast
          rwa [List.getLast?_append, h, Option.some_or])
    rw [List.append_assoc, List.append_assoc] at hrest
    rw [text_cons, text_cons, ← hrest]
    cases htok with
    | refl => rfl
    | string content content' =>
      have heven : Even (quotes u') := hquotes.mp hblankable
      have hunquoted := unquoted_string_eq hend heven hu'
      unfold unquoted at hunquoted
      rw [stripLiterals, stripLiterals, String.toList_ofList, String.toList_ofList, hunquoted]
    | number n n' =>
      have hblankable₁ : Token.Blankable (.number n) u' (text ts) := by
        refine hblankable.imp_left fun h => ⟨?_, h.2⟩
        rw [← Nat.not_even_iff_odd, ← hquotes, Nat.not_even_iff_odd]
        exact h.1
      exact stripLiterals_number hwf hwf' (quote_mem_text hsame hts hts') hblankable₁ hblankable'
        hdigit

theorem stripLiterals_eq_of_blanked {ts ts' : List Token} (hts : Lexed isLetter ts)
    (hts' : Lexed isLetter ts') (hsame : Same ts ts') (h : Blanked ts) (h' : Blanked ts') :
    stripLiterals (String.ofList (text ts)) = stripLiterals (String.ofList (text ts')) :=
  @stripLiterals_text_eq _ _ _ hsame [] [] Iff.rfl h h' hts hts' (fun h => nomatch h.1)
    (fun _ => rfl)

/-- A statement is reported as the same text with any literals exactly if they are hidden; with
    plain numerals in the place of plain ones it is even where they are not. -/
theorem hidesLiterals_iff_hidden {ts : List Token} (hts : Lexed isLetter ts) :
    (HidesLiterals isLetter ts ↔ Hidden ts) ∧ ∀ ts', Lexed isLetter ts' → Same ts ts' →
      Blanked ts → Blanked ts' →
        stripLiterals (String.ofList (text ts)) = stripLiterals (String.ofList (text ts')) :=
  ⟨hidesLiterals_iff hts, fun _ hts' hsame h h' =>
    stripLiterals_eq_of_blanked hts hts' hsame h h'⟩

end

namespace Sample

def select (tok : Token) : List Token := [.word "SELECT".toList, .other ' ', tok]

def integer (digits : String) : Token := .number (.decimal ⟨digits.toList, none⟩)

/-- `1e5`. -/
def float (digit : Char) : Token := .number (.exponent ⟨[digit], none⟩ 'e' none ['5'])

/-- A comment with an apostrophe in it, before a statement. -/
def commented (content : String) : List Token :=
  [.lineComment " don't".toList, .other '\n'] ++ select (.string content.toList)

end Sample

open Sample in
/-- A string behind no other quote, and one integer for another. -/
theorem hidesLiterals_iff_hidden_select :
    HidesLiterals (fun _ => false) (select (.string "it's".toList))
      ∧ stripLiterals (String.ofList (text (select (integer "1"))))
        = stripLiterals (String.ofList (text (select (integer "22")))) := by
  have hplain {digits : List Char} (h : ∀ c ∈ digits ++ [], c.isDigit = true) (hne : digits ≠ []) :
      Blanked (select (.number (.decimal ⟨digits, none⟩))) :=
    ⟨trivial, trivial, Or.inr ⟨⟨_, rfl, ⟨h, by simpa using hne⟩, hne, fun h => nomatch h⟩, rfl⟩,
      trivial⟩
  constructor
  · have hts : Lexed (fun _ => false) (select (.string "it's".toList)) := by decide +kernel
    refine (hidesLiterals_iff_hidden hts).1.mpr ⟨trivial, trivial, ?_, trivial⟩
    exact ⟨0, by decide +kernel⟩
  · have hts : Lexed (fun _ => false) (select (integer "1")) := by decide +kernel
    refine (hidesLiterals_iff_hidden hts).2 _ (by decide +kernel) ?_ ?_ ?_
    · exact .cons (.refl _) (.cons (.refl _) (.cons (.number _ _) .nil))
    · exact hplain (by decide) (by decide)
    · exact hplain (by decide) (by decide)

open Sample in
/-- Numerals with an exponent are reported, and strings behind an apostrophe. -/
theorem not_hidesLiterals :
    ¬ HidesLiterals (fun _ => false) (select (float '1'))
      ∧ ¬ HidesLiterals (fun _ => false) (commented "x") := by
  refine ⟨fun h => ?_, fun h => ?_⟩
  · have heq := h (select (float '2')) (by decide +kernel)
      (.cons (.refl _) (.cons (.refl _) (.cons (.number _ _) .nil)))
    exact absurd heq (by decide +kernel)
  · have heq := h (commented "y") (by decide +kernel) (.cons (.refl _) (.cons (.refl _)
      (.cons (.refl _) (.cons (.refl _) (.cons (.string _ _) .nil)))))
    exact absurd heq (by decide +kernel)

end Argus.Collect
