import Mathlib.Data.List.Basic
import Mathlib.Data.List.Forall2
import Mathlib.Data.Nat.Notation

namespace Argus.Collect.TSql

/-!
# T-SQL texts

What a T-SQL text is made of, as far as literals are concerned: literals, comments, identifiers,
words, and characters of their own, blanks among them.

* `Numeral`, `Token` — the tokens and how they are written (`text`).
* `Token.EndsAt` — a token ends where it cannot go on with what follows.
* `Lexed` — the tokens of a text.
* `Same` — texts that are the same but for their literals.
-/

/-- `s` with every `q` in it doubled. -/
def doubled (q : Char) (s : List Char) : List Char :=
  s.flatMap (fun c => if c = q then [q, q] else [c])

/-! ### Numerals -/

/-- `12`, `12.5`, `12.` and `.5`. -/
structure Decimal where
  whole : List Char
  fraction : Option (List Char)
deriving DecidableEq, Repr

def Decimal.text (m : Decimal) : List Char :=
  m.whole ++ (m.fraction.map (fun f => '.' :: f)).getD []

/-- A point alone is no numeral. -/
def Decimal.WF (m : Decimal) : Prop :=
  (∀ c ∈ m.whole ++ m.fraction.getD [], c.isDigit = true) ∧ m.whole ++ m.fraction.getD [] ≠ []

def isHexDigit (c : Char) : Bool :=
  c.isDigit || ('a' ≤ c && c ≤ 'f') || ('A' ≤ c && c ≤ 'F')

inductive Numeral
  | decimal (m : Decimal)
  /-- `1e5`, `1.5E-3`. -/
  | exponent (m : Decimal) (e : Char) (sign : Option Char) (power : List Char)
  /-- `0xFF`, and `0x`, which has no bytes. -/
  | hex (x : Char) (digits : List Char)
deriving DecidableEq, Repr

def Numeral.text : Numeral → List Char
  | decimal m => m.text
  | exponent m e sign power => m.text ++ e :: (sign.toList ++ power)
  | hex x digits => '0' :: x :: digits

def Numeral.WF : Numeral → Prop
  | decimal m => m.WF
  | exponent m e sign power => m.WF ∧ e ∈ ['e', 'E'] ∧ (∀ c ∈ sign, c ∈ ['+', '-'])
      ∧ (∀ c ∈ power, c.isDigit = true) ∧ power ≠ []
  | hex x digits => x ∈ ['x', 'X'] ∧ ∀ c ∈ digits, isHexDigit c = true

/-! ### Tokens -/

inductive Token
  | string (content : List Char)
  | number (n : Numeral)
  /-- `--` to the end of the line. -/
  | lineComment (body : List Char)
  /-- `/*` to its `*/`, with comments inside. -/
  | blockComment (body : List Char)
  /-- `[name]`. -/
  | bracketed (name : List Char)
  /-- `"name"`. -/
  | quoted (name : List Char)
  /-- A keyword, a variable or a name. -/
  | word (name : List Char)
  | other (c : Char)
deriving DecidableEq, Repr

def Token.text : Token → List Char
  | string content => '\'' :: (doubled '\'' content ++ ['\''])
  | number n => n.text
  | lineComment body => '-' :: '-' :: body
  | blockComment body => '/' :: '*' :: body
  | bracketed name => '[' :: (doubled ']' name ++ [']'])
  | quoted name => '"' :: (doubled '"' name ++ ['"'])
  | word name => name
  | other c => [c]

def text (ts : List Token) : List Char := ts.flatMap Token.text

/-- What is behind the end of a comment in which `depth` others are open. -/
def commentEnd : ℕ → List Char → Option (List Char)
  | _, [] => none
  | 0, '*' :: '/' :: s => some s
  | depth + 1, '*' :: '/' :: s => commentEnd depth s
  | depth, '/' :: '*' :: s => commentEnd (depth + 1) s
  | depth, _ :: s => commentEnd depth s

section

/- The characters beyond ASCII that the server takes for letters. -/
variable (isLetter : Char → Bool)

def isWordStart (c : Char) : Bool :=
  c.isAlpha || c ∈ ['_', '@', '#'] || (128 ≤ c.toNat && isLetter c)

def isWordChar (c : Char) : Bool := isWordStart isLetter c || c.isDigit || c == '$'

def Token.WF : Token → Prop
  | string _ => True
  | number n => n.WF
  | lineComment body => '\n' ∉ body ∧ '\r' ∉ body
  | blockComment body => commentEnd 0 body = some []
  | bracketed _ => True
  | quoted _ => True
  | word name => name.head?.any (isWordStart isLetter) = true
      ∧ ∀ c ∈ name, isWordChar isLetter c = true
  | other c => isWordStart isLetter c = false ∧ c.isDigit = false ∧ c ∉ ['\'', '"', '[']

/-- Whether a token would go on with a character behind it. -/
def Token.goesOn : Token → Char → Bool
  | string _, c => c == '\''
  | number (.decimal m), c =>
    c.isDigit || (m.fraction.isNone && (c == '.' || (m.whole == ['0'] && c ∈ ['x', 'X'])))
  | number (.exponent ..), c => c.isDigit
  | number (.hex ..), c => isHexDigit c
  | lineComment _, c => c != '\n' && c != '\r'
  | blockComment _, _ => false
  | bracketed _, c => c == ']'
  | quoted _, c => c == '"'
  | word _, c => isWordChar isLetter c
  | other d, c => (d == '-' && c == '-') || (d == '/' && c == '*') || (d == '.' && c.isDigit)

/-- `e5`, `E-5`. -/
def startsExponent : List Char → Bool
  | e :: c :: s => e ∈ ['e', 'E'] && (c.isDigit || (c ∈ ['+', '-'] && s.head?.any Char.isDigit))
  | _ => false

def Token.isDecimal : Token → Bool
  | number (.decimal _) => true
  | _ => false

/-- The token ends before `rest`. -/
def Token.EndsAt (tok : Token) (rest : List Char) : Prop :=
  rest.head?.any (tok.goesOn isLetter) = false
    ∧ (tok.isDecimal = true → startsExponent rest = false)

/-- These are the tokens of their text: each goes on as far as it can. -/
def Lexed : List Token → Prop
  | [] => True
  | tok :: ts => tok.WF isLetter ∧ tok.EndsAt isLetter (text ts) ∧ Lexed ts

end

/-- The same token, or two literals of one kind. -/
inductive SameToken : Token → Token → Prop
  | string (content content' : List Char) : SameToken (.string content) (.string content')
  | number (n n' : Numeral) : SameToken (.number n) (.number n')
  | refl (tok : Token) : SameToken tok tok

/-- Token by token the same but for literals. -/
def Same (ts ts' : List Token) : Prop := List.Forall₂ SameToken ts ts'

-- a property of all characters of a text is decided on the text
attribute [local instance (1100)] List.decidableBAll Option.decidableForallMem

/-! ### Deciding what the tokens are -/

instance (m : Decimal) : Decidable m.WF := inferInstanceAs (Decidable (_ ∧ _))

instance (n : Numeral) : Decidable n.WF :=
  match n with
  | .decimal m => inferInstanceAs (Decidable m.WF)
  | .exponent m e sign power => inferInstanceAs (Decidable (m.WF ∧ e ∈ ['e', 'E']
      ∧ (∀ c ∈ sign, c ∈ ['+', '-']) ∧ (∀ c ∈ power, c.isDigit = true) ∧ power ≠ []))
  | .hex x digits =>
    inferInstanceAs (Decidable (x ∈ ['x', 'X'] ∧ ∀ c ∈ digits, isHexDigit c = true))

section

variable (isLetter : Char → Bool)

instance (tok : Token) : Decidable (tok.WF isLetter) :=
  match tok with
  | .string _ => inferInstanceAs (Decidable True)
  | .number n => inferInstanceAs (Decidable n.WF)
  | .lineComment body => inferInstanceAs (Decidable ('\n' ∉ body ∧ '\r' ∉ body))
  | .blockComment body => inferInstanceAs (Decidable (commentEnd 0 body = some []))
  | .bracketed _ => inferInstanceAs (Decidable True)
  | .quoted _ => inferInstanceAs (Decidable True)
  | .word name => inferInstanceAs (Decidable (name.head?.any (isWordStart isLetter) = true
      ∧ ∀ c ∈ name, isWordChar isLetter c = true))
  | .other c => inferInstanceAs (Decidable (isWordStart isLetter c = false ∧ c.isDigit = false
      ∧ c ∉ ['\'', '"', '[']))

instance (tok : Token) (rest : List Char) : Decidable (tok.EndsAt isLetter rest) :=
  inferInstanceAs (Decidable (_ ∧ _))

instance instDecidableLexed (ts : List Token) : Decidable (Lexed isLetter ts) :=
  match ts with
  | [] => inferInstanceAs (Decidable True)
  | tok :: ts =>
    have := instDecidableLexed ts
    inferInstanceAs (Decidable (tok.WF isLetter ∧ tok.EndsAt isLetter (text ts)
      ∧ Lexed isLetter ts))

end

/-! ### What tokens begin and end with -/

theorem text_cons (tok : Token) (ts : List Token) : text (tok :: ts) = tok.text ++ text ts := rfl

theorem text_append (ts ts' : List Token) : text (ts ++ ts') = text ts ++ text ts' :=
  List.flatMap_append

theorem Decimal.chars {m : Decimal} (hm : m.WF) :
    ∀ c ∈ m.text, c.isDigit = true ∨ c = '.' := by
  obtain ⟨whole, fraction⟩ := m
  intro c hc
  cases fraction with
  | none =>
    rw [Decimal.text, Option.map_none, Option.getD_none, List.append_nil] at hc
    exact Or.inl (hm.1 c (List.mem_append_left _ hc))
  | some f =>
    rw [Decimal.text, Option.map_some, Option.getD_some, List.mem_append, List.mem_cons] at hc
    rcases hc with hc | rfl | hc
    · exact Or.inl (hm.1 c (List.mem_append_left _ hc))
    · exact Or.inr rfl
    · exact Or.inl (hm.1 c (List.mem_append_right _ hc))

theorem Decimal.text_ne_nil {m : Decimal} (hm : m.WF) : m.text ≠ [] := by
  obtain ⟨whole, fraction⟩ := m
  cases fraction with
  | none => simpa [Decimal.text] using hm.2
  | some f => simp [Decimal.text]

/-- A numeral begins with a digit or a point. -/
theorem Numeral.head {n : Numeral} (hn : n.WF) :
    ∃ c s, n.text = c :: s ∧ (c.isDigit = true ∨ c = '.') := by
  have hdecimal {m : Decimal} (hm : m.WF) :
      ∃ c s, m.text = c :: s ∧ (c.isDigit = true ∨ c = '.') := by
    obtain ⟨c, s, hcs⟩ := List.exists_cons_of_ne_nil (Decimal.text_ne_nil hm)
    exact ⟨c, s, hcs, Decimal.chars hm c (hcs ▸ List.mem_cons_self)⟩
  cases n with
  | decimal m => exact hdecimal hn
  | exponent m e sign power =>
    obtain ⟨c, s, hcs, hc⟩ := hdecimal hn.1
    exact ⟨c, s ++ e :: (sign.toList ++ power), by rw [Numeral.text, hcs]; rfl, hc⟩
  | hex x digits => exact ⟨'0', x :: digits, rfl, Or.inl rfl⟩

theorem quote_notMem_numeral {n : Numeral} (hn : n.WF) : '\'' ∉ n.text := by
  have hdecimal {m : Decimal} (hm : m.WF) : '\'' ∉ m.text := fun h => by
    rcases Decimal.chars hm _ h with h | h
    · exact absurd h (by decide)
    · exact absurd h (by decide)
  cases n with
  | decimal m => exact hdecimal hn
  | exponent m e sign power =>
    obtain ⟨hm, he, hsign, hpower, -⟩ := hn
    rw [Numeral.text, List.mem_append, List.mem_cons, List.mem_append, Option.mem_toList]
    rintro (h | rfl | h | h)
    · exact hdecimal hm h
    · exact absurd he (by decide)
    · exact absurd (hsign _ h) (by decide)
    · exact absurd (hpower _ h) (by decide)
  | hex x digits =>
    rw [Numeral.text, List.mem_cons, List.mem_cons]
    rintro (h | rfl | h)
    · exact absurd h (by decide)
    · exact absurd hn.1 (by decide)
    · exact absurd (hn.2 _ h) (by decide)

theorem getLast?_commentEnd {depth : ℕ} {s : List Char} (h : commentEnd depth s = some []) :
    s.getLast? = some '/' := by
  have hcons {c : Char} {t : List Char} (ht : t.getLast? = some '/') :
      (c :: t).getLast? = some '/' := by
    cases t with
    | nil => cases ht
    | cons d t => rwa [List.getLast?_cons_cons]
  induction depth, s using commentEnd.induct with
  | case1 depth => cases h
  | case2 s =>
    obtain rfl := Option.some.inj h
    rfl
  | case3 depth s ih =>
    -- one level up, and in the next case one down
    rw [commentEnd] at h
    exact hcons (hcons (ih h))
  | case4 depth s ih =>
    rw [commentEnd] at h
    exact hcons (hcons (ih h))
  | case5 depth c s h0 h1 h2 ih =>
    rw [commentEnd] at h
    · exact hcons (ih h)
    all_goals assumption

section

variable {isLetter : Char → Bool} {tok : Token}

theorem Token.text_ne_nil (htok : tok.WF isLetter) : tok.text ≠ [] := by
  cases tok with
  | number n =>
    obtain ⟨c, s, hn, -⟩ := Numeral.head htok
    rw [Token.text, hn]
    exact List.cons_ne_nil c s
  | word name =>
    rintro rfl
    exact Bool.false_ne_true htok.1
  | string | lineComment | blockComment | bracketed | quoted | other => exact List.cons_ne_nil _ _

/-- A quote behind a token does not join one at its end. -/
theorem Token.EndsAt.apart {rest : List Char} (htok : tok.WF isLetter)
    (hend : tok.EndsAt isLetter rest) :
    ¬ (tok.text.getLast? = some '\'' ∧ rest.head? = some '\'') := by
  rintro ⟨hlast, hhead⟩
  have hgoes := hend.1
  rw [hhead, Option.any_some] at hgoes
  have hmem := List.mem_of_getLast? hlast
  cases tok with
  | string content => exact absurd (show ('\'' == '\'') = false from hgoes) (by decide)
  | number n => exact quote_notMem_numeral htok hmem
  | lineComment body => exact absurd hgoes (by simp [Token.goesOn])
  | blockComment body =>
    have hbody := getLast?_commentEnd htok
    cases body with
    | nil => cases hbody
    | cons c body =>
      rw [Token.text, List.getLast?_cons_cons, List.getLast?_cons_cons, hbody] at hlast
      cases hlast
  | bracketed name => simp [Token.text, List.getLast?_cons] at hlast
  | quoted name => simp [Token.text, List.getLast?_cons] at hlast
  | word name => exact absurd (htok.2 _ hmem) (by simp [isWordChar, isWordStart])
  | other c =>
    obtain rfl := List.mem_singleton.mp hmem
    exact htok.2.2 List.mem_cons_self

/-! ### Other literals in their place -/

/-- An exponent before a character that is not part of one. -/
theorem startsExponent_append (u : List Char) {c : Char} (w w' : List Char)
    (hc : c.isDigit = false ∧ c ∉ ['e', 'E', '+', '-'])
    (h : startsExponent (u ++ c :: w) = true) : startsExponent (u ++ w') = true := by
  obtain ⟨hdigit, hchars⟩ := hc
  simp only [List.mem_cons, List.not_mem_nil, or_false, not_or] at hchars
  match u with
  | [] => cases w <;> simp [startsExponent, hchars] at h
  | [e] => simp [startsExponent, hdigit, hchars] at h
  | [e, d] =>
    simp only [List.cons_append, List.nil_append, startsExponent, List.head?_cons, Option.any_some,
      hdigit, Bool.and_false, Bool.or_false, Bool.and_eq_true] at h ⊢
    exact ⟨h.1, by rw [h.2, Bool.true_or]⟩
  | e :: d :: b :: u => exact h

theorem bne_of_isDigit {c d : Char} (hc : c.isDigit = true) (hd : d.isDigit = false) :
    (c != d) = true := by
  rw [bne_iff_ne]
  rintro rfl
  exact Bool.false_ne_true (hd.symm.trans hc)

/-- The first character of one literal for that of another, where the tokens before cannot go on
    with either. -/
theorem Token.EndsAt.transfer {u w w' : List Char} {c c' : Char}
    (hc : (c = '\'' ∧ c' = '\'') ∨ ((c.isDigit = true ∨ c = '.') ∧ c' = '.'))
    (hend : tok.EndsAt isLetter (u ++ c :: w)) : tok.EndsAt isLetter (u ++ c' :: w') := by
  refine ⟨?_, fun hdecimal => ?_⟩
  · cases u with
    | cons d u => exact hend.1
    | nil =>
      -- the literal comes right behind the token, which could have gone on with `c`
      have hgoes : tok.goesOn isLetter c = false := hend.1
      show tok.goesOn isLetter c' = false
      rcases hc with ⟨rfl, rfl⟩ | ⟨hc, rfl⟩
      · exact hgoes
      · cases tok with
        | number n =>
          cases n with
          | decimal m =>
            obtain ⟨whole, fraction⟩ := m
            cases fraction with
            | none =>
              rcases hc with hc | rfl
              · rw [Token.goesOn, hc, Bool.true_or] at hgoes
                cases hgoes
              · simp [Token.goesOn] at hgoes
            | some f => simp [Token.goesOn]
          | exponent m e sign power => rfl
          | hex x digits => rfl
        | lineComment body =>
          rcases hc with hc | rfl
          · rw [Token.goesOn, bne_of_isDigit hc (by decide), bne_of_isDigit hc (by decide)] at hgoes
            cases hgoes
          · exact absurd hgoes (by simp [Token.goesOn])
        | word name => simp [Token.goesOn, isWordChar, isWordStart]
        | other d => simp [Token.goesOn]
        | string | blockComment | bracketed | quoted => rfl
  · have hc' : c'.isDigit = false ∧ c' ∉ ['e', 'E', '+', '-'] := by
      rcases hc with ⟨-, rfl⟩ | ⟨-, rfl⟩
      · decide
      · decide
    rw [Bool.eq_false_iff]
    intro hexp
    have := startsExponent_append u w' (c :: w) hc' hexp
    rw [hend.2 hdecimal] at this
    cases this

/-- One literal for another in a list of tokens. -/
theorem Lexed.replace {before after : List Token} {tok tok' : Token} {c c' : Char}
    {w w' : List Char} (htext : tok.text = c :: w) (htext' : tok'.text = c' :: w')
    (hc : (c = '\'' ∧ c' = '\'') ∨ ((c.isDigit = true ∨ c = '.') ∧ c' = '.'))
    (htok : tok'.WF isLetter)
    (hend : tok.EndsAt isLetter (text after) → tok'.EndsAt isLetter (text after))
    (h : Lexed isLetter (before ++ tok :: after)) : Lexed isLetter (before ++ tok' :: after) := by
  induction before with
  | nil => exact ⟨htok, hend h.2.1, h.2.2⟩
  | cons x before ih =>
    obtain ⟨hx, hxend, hrest⟩ := h
    refine ⟨hx, ?_, ih hrest⟩
    change x.EndsAt isLetter (text (before ++ tok :: after)) at hxend
    show x.EndsAt isLetter (text (before ++ tok' :: after))
    rw [text_append, text_cons, htext, List.cons_append] at hxend
    rw [text_append, text_cons, htext', List.cons_append]
    exact hxend.transfer hc

theorem SameToken.forall₂_replace (before after : List Token) {tok tok' : Token}
    (h : SameToken tok tok') : Same (before ++ tok :: after) (before ++ tok' :: after) := by
  have hrefl (ts : List Token) : Same ts ts := List.forall₂_same.mpr fun t _ => .refl t
  exact List.rel_append (hrefl before) (.cons h (hrefl after))

end

end Argus.Collect.TSql
