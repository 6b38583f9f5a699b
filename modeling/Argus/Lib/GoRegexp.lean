import Mathlib.Data.List.Basic
import Mathlib.Order.Basic

/-!
# Regular expressions in Go

The expressions of `regexp` that are matched leftmost first: where several texts match at a
place, the one a backtracking search would find first.

* `Regexp`, `ends` — an expression, and the places where its matches end, in the order of the
  search.
* `replaceAll` — `ReplaceAllString`, for an expression that matches no empty text and a
  replacement without `$`.
* `filter_replaceAll` — characters that neither the expression reads nor the replacement has stay
  in their order.
-/

namespace GoRegexp

/-- A place in a text: the character before it and the text from it on. -/
structure Place where
  before : Option Char
  rest : List Char
deriving DecidableEq, Repr

inductive Regexp
  /-- one character, as `[…]`, `\d` or `\s`. -/
  | set (p : Char → Bool)
  /-- `\b`. -/
  | bound
  | seq (r s : Regexp)
  | alt (r s : Regexp)
  /-- `r*`. -/
  | star (r : Regexp)
  /-- `r?`. -/
  | opt (r : Regexp)

/-- A given character. -/
def Regexp.char (c : Char) : Regexp := .set (fun d => d == c)

/-- `r+`. -/
def Regexp.plus (r : Regexp) : Regexp := .seq r (.star r)

/-- `\w`. -/
def isWord (c : Char) : Bool := c.isAlphanum || c == '_'

/-- `\s`. -/
def isBlank (c : Char) : Bool := c ∈ ['\t', '\n', '\x0c', '\r', ' ']

def atBound (p : Place) : Bool := p.before.any isWord != p.rest.head?.any isWord

/-- `step` again and again, as often as it can be first. -/
def repeats (step : Place → List Place) : ℕ → Place → List Place
  | 0, p => [p]
  | n + 1, p =>
    ((step p).filter (fun q => decide (q.rest.length < p.rest.length))).flatMap (repeats step n)
      ++ [p]

/-- A round that can be made in one way. -/
theorem repeats_of_round {step : Place → List Place} {p q : Place} (hstep : step p = [q])
    (hlt : q.rest.length < p.rest.length) (n : ℕ) :
    repeats step (n + 1) p = repeats step n q ++ [p] := by
  have hkept : [q].filter (fun u => decide (u.rest.length < p.rest.length)) = [q] := by
    rw [List.filter_singleton, decide_eq_true hlt, cond_true]
  rw [repeats, hstep, hkept, List.flatMap_singleton]

theorem repeats_of_none {step : Place → List Place} {p : Place} (hstep : step p = []) (n : ℕ) :
    repeats step (n + 1) p = [p] := by
  rw [repeats, hstep]
  rfl

/-- Where the matches that begin at a place end. -/
def ends : Regexp → Place → List Place
  | .set f, ⟨_, c :: rest⟩ => if f c then [⟨some c, rest⟩] else []
  | .set _, ⟨_, []⟩ => []
  | .bound, p => if atBound p then [p] else []
  | .seq r s, p => (ends r p).flatMap (ends s)
  | .alt r s, p => ends r p ++ ends s p
  | .star r, p => repeats (ends r) p.rest.length p
  | .opt r, p => ends r p ++ [p]

/-- The text from a place on with every match replaced. -/
def replaceFrom (r : Regexp) (repl : List Char) : ℕ → Place → List Char
  | _, ⟨_, []⟩ => []
  | 0, ⟨_, c :: rest⟩ => c :: rest
  | n + 1, ⟨before, c :: rest⟩ =>
    match (ends r ⟨before, c :: rest⟩).head? with
    | some q => repl ++ replaceFrom r repl n q
    | none => c :: replaceFrom r repl n ⟨some c, rest⟩

def replace (r : Regexp) (repl : List Char) (p : Place) : List Char :=
  replaceFrom r repl p.rest.length p

/-- `ReplaceAllString`. -/
def replaceAll (r : Regexp) (repl s : List Char) : List Char := replace r repl ⟨none, s⟩

/-! ### The first match -/

theorem head_seq {r s : Regexp} {p q u : Place} (hr : (ends r p).head? = some q)
    (hs : (ends s q).head? = some u) : (ends (.seq r s) p).head? = some u := by
  obtain ⟨t, ht⟩ := List.head?_eq_some_iff.mp hr
  rw [ends, ht, List.flatMap_cons, List.head?_append, hs, Option.some_or]

/-- As many characters as there are. -/
theorem head_star_set {f : Char → Bool} {read rest : List Char} (hread : ∀ c ∈ read, f c = true)
    (hrest : rest.head?.any f = false) (before : Option Char) :
    (ends (.star (.set f)) ⟨before, read ++ rest⟩).head? = some ⟨read.getLast?.or before, rest⟩ := by
  have hstop (b : Option Char) : ends (.set f) ⟨b, rest⟩ = [] := by
    cases rest with
    | nil => rfl
    | cons c rest => exact if_neg (Bool.eq_false_iff.mp hrest)
  show (repeats (ends (.set f)) (read ++ rest).length ⟨before, read ++ rest⟩).head? = _
  induction read generalizing before with
  | nil =>
    show (repeats (ends (.set f)) rest.length ⟨before, rest⟩).head? = some ⟨before, rest⟩
    cases rest.length with
    | zero => rfl
    | succ n => rw [repeats_of_none (hstop before), List.head?_cons]
  | cons c read ih =>
    have hround : ends (.set f) ⟨before, c :: (read ++ rest)⟩ = [⟨some c, read ++ rest⟩] :=
      if_pos (hread c List.mem_cons_self)
    rw [List.cons_append, List.length_cons, repeats_of_round hround (Nat.lt_succ_self _),
      List.head?_append, ih (fun d hd => hread d (List.mem_cons_of_mem c hd)), Option.some_or,
      List.getLast?_cons]
    cases read.getLast? <;> rfl

theorem head_plus_set {f : Char → Bool} {read rest : List Char} (hread : ∀ c ∈ read, f c = true)
    (hne : read ≠ []) (hrest : rest.head?.any f = false) (before : Option Char) :
    (ends (.plus (.set f)) ⟨before, read ++ rest⟩).head? = some ⟨read.getLast?, rest⟩ := by
  obtain ⟨c, read, rfl⟩ := List.exists_cons_of_ne_nil hne
  have hfirst : (ends (.set f) ⟨before, c :: (read ++ rest)⟩).head? = some ⟨some c, read ++ rest⟩ :=
    congrArg List.head? (if_pos (hread c List.mem_cons_self))
  rw [List.getLast?_cons, Regexp.plus, List.cons_append]
  refine (head_seq hfirst (head_star_set (fun d hd => hread d (List.mem_cons_of_mem c hd)) hrest
    (some c))).trans ?_
  cases read.getLast? <;> rfl

/-! ### What is read -/

/-- The characters that may stand in a match. -/
def Regexp.reads : Regexp → Char → Bool
  | .set f, c => f c
  | .bound, _ => false
  | .seq r s, c => r.reads c || s.reads c
  | .alt r s, c => r.reads c || s.reads c
  | .star r, c => r.reads c
  | .opt r, c => r.reads c

/-- From a place on to another, over characters of some kind. -/
def Reaches (f : Char → Bool) (p q : Place) : Prop :=
  ∃ read, p.rest = read ++ q.rest ∧ ∀ c ∈ read, f c = true

theorem Reaches.refl (f : Char → Bool) (p : Place) : Reaches f p p :=
  ⟨[], rfl, fun _ h => nomatch h⟩

theorem Reaches.trans {f : Char → Bool} {p q r : Place} (hpq : Reaches f p q)
    (hqr : Reaches f q r) : Reaches f p r := by
  obtain ⟨m, hm, hf⟩ := hpq
  obtain ⟨n, hn, hg⟩ := hqr
  refine ⟨m ++ n, by rw [hm, hn, List.append_assoc], fun c hc => ?_⟩
  rcases List.mem_append.mp hc with hc | hc
  · exact hf c hc
  · exact hg c hc

theorem Reaches.mono {f g : Char → Bool} {p q : Place} (h : Reaches f p q)
    (hfg : ∀ c, f c = true → g c = true) : Reaches g p q := by
  obtain ⟨m, hm, hf⟩ := h
  exact ⟨m, hm, fun c hc => hfg c (hf c hc)⟩

theorem reaches_of_repeats {step : Place → List Place} {f : Char → Bool}
    (hstep : ∀ p, ∀ q ∈ step p, Reaches f p q) (n : ℕ) {p q : Place}
    (hq : q ∈ repeats step n p) : Reaches f p q := by
  induction n generalizing p with
  | zero =>
    obtain rfl := List.mem_singleton.mp hq
    exact Reaches.refl f q
  | succ n ih =>
    rw [repeats, List.mem_append, List.mem_flatMap, List.mem_singleton] at hq
    rcases hq with ⟨u, hu, hq⟩ | rfl
    · exact (hstep p u (List.mem_filter.mp hu).1).trans (ih hq)
    · exact Reaches.refl f q

theorem reaches_of_ends {r : Regexp} {p q : Place} (hq : q ∈ ends r p) : Reaches r.reads p q := by
  induction r generalizing p q with
  | set f =>
    obtain ⟨before, rest⟩ := p
    cases rest with
    | nil => cases hq
    | cons c rest =>
      rw [ends] at hq
      split at hq
      · next hc =>
        obtain rfl := List.mem_singleton.mp hq
        exact ⟨[c], rfl, fun d hd => (List.mem_singleton.mp hd).symm ▸ hc⟩
      · cases hq
  | bound =>
    rw [ends] at hq
    split at hq
    · obtain rfl := List.mem_singleton.mp hq
      exact Reaches.refl _ q
    · cases hq
  | seq r s ihr ihs =>
    obtain ⟨u, hu, hq⟩ := List.mem_flatMap.mp hq
    refine ((ihr hu).mono fun c hc => ?_).trans ((ihs hq).mono fun c hc => ?_)
    · rw [Regexp.reads, hc, Bool.true_or]
    · rw [Regexp.reads, hc, Bool.or_true]
  | alt r s ihr ihs =>
    rcases List.mem_append.mp hq with hq | hq
    · exact (ihr hq).mono fun c hc => by rw [Regexp.reads, hc, Bool.true_or]
    · exact (ihs hq).mono fun c hc => by rw [Regexp.reads, hc, Bool.or_true]
  | star r ih => exact reaches_of_repeats (fun _ _ h => ih h) _ hq
  | opt r ih =>
    rcases List.mem_append.mp hq with hq | hq
    · exact ih hq
    · obtain rfl := List.mem_singleton.mp hq
      exact Reaches.refl _ q

/-! ### Replacing -/

/-- No match is empty. -/
def Regexp.Consuming (r : Regexp) : Prop :=
  ∀ p, ∀ q ∈ ends r p, q.rest.length < p.rest.length

theorem length_le_of_ends {r : Regexp} {p q : Place} (hq : q ∈ ends r p) :
    q.rest.length ≤ p.rest.length := by
  obtain ⟨m, hm, -⟩ := reaches_of_ends hq
  rw [hm, List.length_append]
  omega

theorem consuming_set (f : Char → Bool) : (Regexp.set f).Consuming := by
  rintro ⟨before, rest⟩ q hq
  cases rest with
  | nil => cases hq
  | cons c rest =>
    rw [ends] at hq
    split at hq
    · obtain rfl := List.mem_singleton.mp hq
      exact Nat.lt_succ_self _
    · cases hq

theorem Regexp.Consuming.seq_left {r : Regexp} (hr : r.Consuming) (s : Regexp) :
    (Regexp.seq r s).Consuming := by
  intro p q hq
  obtain ⟨u, hu, hq⟩ := List.mem_flatMap.mp hq
  exact Nat.lt_of_le_of_lt (length_le_of_ends hq) (hr p u hu)

theorem Regexp.Consuming.seq_right {s : Regexp} (hs : s.Consuming) (r : Regexp) :
    (Regexp.seq r s).Consuming := by
  intro p q hq
  obtain ⟨u, hu, hq⟩ := List.mem_flatMap.mp hq
  exact Nat.lt_of_lt_of_le (hs u q hq) (length_le_of_ends hu)

/-- Induction along a text of which any part may have been read. -/
theorem place_induction {motive : Place → Prop} (nil : ∀ before, motive ⟨before, []⟩)
    (cons : ∀ before c rest, (∀ q : Place, q.rest.length ≤ rest.length → motive q) →
      motive ⟨before, c :: rest⟩) (p : Place) : motive p := by
  obtain ⟨n, hn⟩ : ∃ n, p.rest.length ≤ n := ⟨_, Nat.le_refl _⟩
  induction n generalizing p with
  | zero =>
    obtain ⟨before, rest⟩ := p
    obtain rfl := List.eq_nil_of_length_eq_zero (Nat.le_zero.mp hn)
    exact nil before
  | succ n ih =>
    obtain ⟨before, rest⟩ := p
    cases rest with
    | nil => exact nil before
    | cons c rest =>
      exact cons before c rest fun q hq => ih q (Nat.le_trans hq (Nat.le_of_succ_le_succ hn))

section

variable {r : Regexp} {repl : List Char}

/-- More steps than the text has characters change nothing. -/
theorem replaceFrom_eq (hr : r.Consuming) {n m : ℕ} {p : Place} (hn : p.rest.length ≤ n)
    (hm : p.rest.length ≤ m) : replaceFrom r repl n p = replaceFrom r repl m p := by
  induction n generalizing m p with
  | zero =>
    obtain ⟨before, rest⟩ := p
    obtain rfl := List.eq_nil_of_length_eq_zero (Nat.le_zero.mp hn)
    cases m <;> rfl
  | succ n ih =>
    obtain ⟨before, rest⟩ := p
    cases rest with
    | nil => cases m <;> rfl
    | cons c rest =>
      cases m with
      | zero => simp at hm
      | succ m =>
        rw [List.length_cons] at hn hm
        rw [replaceFrom, replaceFrom]
        cases hfirst : (ends r ⟨before, c :: rest⟩).head? with
        | none =>
          show c :: replaceFrom r repl n _ = c :: replaceFrom r repl m _
          rw [ih (Nat.le_of_succ_le_succ hn) (Nat.le_of_succ_le_succ hm)]
        | some q =>
          have hlt := hr _ q (List.mem_of_mem_head? hfirst)
          rw [List.length_cons] at hlt
          show repl ++ replaceFrom r repl n q = repl ++ replaceFrom r repl m q
          rw [ih (p := q) (m := m) (by omega) (by omega)]

theorem replace_nil (before : Option Char) : replace r repl ⟨before, []⟩ = [] := rfl

theorem replace_of_match (hr : r.Consuming) {before : Option Char} {c : Char}
    {rest : List Char} {q : Place} (h : (ends r ⟨before, c :: rest⟩).head? = some q) :
    replace r repl ⟨before, c :: rest⟩ = repl ++ replace r repl q := by
  have hlt := hr _ q (List.mem_of_mem_head? h)
  rw [List.length_cons] at hlt
  rw [replace, List.length_cons, replaceFrom, h]
  exact congrArg (repl ++ ·) (replaceFrom_eq hr (Nat.le_of_lt_succ hlt) (Nat.le_refl _))

theorem replace_of_no_match {before : Option Char} {c : Char} {rest : List Char}
    (h : (ends r ⟨before, c :: rest⟩).head? = none) :
    replace r repl ⟨before, c :: rest⟩ = c :: replace r repl ⟨some c, rest⟩ := by
  rw [replace, List.length_cons, replaceFrom, h]
  rfl

/-- What the expression cannot read stays. -/
theorem filter_replace (hr : r.Consuming) {f : Char → Bool}
    (hreads : ∀ c, r.reads c = true → f c = false) (hrepl : ∀ c ∈ repl, f c = false) (p : Place) :
    (replace r repl p).filter f = p.rest.filter f := by
  induction p using place_induction with
  | nil before => rfl
  | cons before c rest ih =>
    cases hfirst : (ends r ⟨before, c :: rest⟩).head? with
    | none =>
      rw [replace_of_no_match hfirst, List.filter_cons, List.filter_cons,
        ih ⟨some c, rest⟩ (Nat.le_refl _)]
    | some q =>
      have hmem := List.mem_of_mem_head? hfirst
      have hlt : q.rest.length < rest.length + 1 := hr _ q hmem
      -- neither what was read nor what takes its place passes the filter
      obtain ⟨read, hread, hchars⟩ := reaches_of_ends hmem
      have hnone : read.filter f = [] :=
        List.filter_eq_nil_iff.mpr fun d hd => by simp [hreads d (hchars d hd)]
      have hnone' : repl.filter f = [] :=
        List.filter_eq_nil_iff.mpr fun d hd => by simp [hrepl d hd]
      rw [replace_of_match hr hfirst, List.filter_append, hnone', List.nil_append,
        ih q (Nat.le_of_lt_succ hlt)]
      have hwhole : (c :: rest).filter f = (read ++ q.rest).filter f := congrArg _ hread
      rw [hwhole, List.filter_append, hnone, List.nil_append]

theorem filter_replaceAll (hr : r.Consuming) {f : Char → Bool}
    (hreads : ∀ c, r.reads c = true → f c = false) (hrepl : ∀ c ∈ repl, f c = false)
    (s : List Char) : (replaceAll r repl s).filter f = s.filter f :=
  filter_replace hr hreads hrepl ⟨none, s⟩

end

/-! ### Cutting a text

Before a character that the expression does not read, and that is no part of a word, the matches
are those of the text that ends there. -/

def Place.append (p : Place) (w : List Char) : Place := ⟨p.before, p.rest ++ w⟩

theorem repeats_eq {step : Place → List Place} {n m : ℕ} {p : Place} (hn : p.rest.length ≤ n)
    (hm : p.rest.length ≤ m) : repeats step n p = repeats step m p := by
  have hend {p : Place} (h : p.rest.length ≤ 0) (k : ℕ) : repeats step k p = [p] := by
    cases k with
    | zero => rfl
    | succ k =>
      have hnone : (step p).filter (fun q => decide (q.rest.length < p.rest.length)) = [] :=
        List.filter_eq_nil_iff.mpr fun q _ => by simp only [decide_eq_true_eq]; omega
      rw [repeats, hnone]
      rfl
  induction n generalizing m p with
  | zero => rw [hend hn, hend hn]
  | succ n ih =>
    cases m with
    | zero => rw [hend hm, hend hm]
    | succ m =>
      rw [repeats, repeats]
      congr 1
      refine List.flatMap_congr fun q hq => ?_
      have hlt : q.rest.length < p.rest.length := of_decide_eq_true (List.mem_filter.mp hq).2
      exact ih (by omega) (by omega)

theorem repeats_append {step : Place → List Place} {w : List Char}
    (hstep : ∀ p : Place, step (p.append w) = (step p).map (·.append w)) (n : ℕ) (p : Place) :
    repeats step n (p.append w) = (repeats step n p).map (·.append w) := by
  induction n generalizing p with
  | zero => rfl
  | succ n ih =>
    have hshorter : (fun q : Place => decide (q.rest.length < (p.append w).rest.length))
        ∘ (fun q : Place => q.append w)
        = fun q : Place => decide (q.rest.length < p.rest.length) := by
      funext q
      show decide ((q.rest ++ w).length < (p.rest ++ w).length) = _
      rw [List.length_append, List.length_append]
      exact decide_eq_decide.mpr (by omega)
    rw [repeats, repeats, hstep, List.filter_map, hshorter, List.flatMap_map, List.map_append,
      List.map_flatMap]
    congr 1
    exact List.flatMap_congr fun q _ => ih q

section

variable {r : Regexp} {c : Char}

theorem ends_append (hreads : r.reads c = false) (hword : isWord c = false) (w : List Char)
    (p : Place) : ends r (p.append (c :: w)) = (ends r p).map (·.append (c :: w)) := by
  induction r generalizing p with
  | set f =>
    obtain ⟨before, rest⟩ := p
    cases rest with
    | nil =>
      show (if f c then _ else _) = []
      rw [show f c = false from hreads]
      rfl
    | cons d rest =>
      show (if f d then _ else _) = (if f d then _ else _ : List Place).map _
      split <;> rfl
  | bound =>
    -- `c` is no part of a word, like the end of a text
    have hat : atBound (p.append (c :: w)) = atBound p := by
      obtain ⟨before, rest⟩ := p
      cases rest with
      | nil =>
        show (before.any isWord != isWord c) = (before.any isWord != false)
        rw [hword]
      | cons d rest => rfl
    rw [ends, ends, hat]
    split <;> rfl
  | seq r s ihr ihs =>
    rw [Regexp.reads, Bool.or_eq_false_iff] at hreads
    rw [ends, ends, ihr hreads.1, List.flatMap_map, List.map_flatMap]
    exact List.flatMap_congr fun q _ => ihs hreads.2 q
  | alt r s ihr ihs =>
    rw [Regexp.reads, Bool.or_eq_false_iff] at hreads
    rw [ends, ends, ihr hreads.1, ihs hreads.2, List.map_append]
  | star r ih =>
    rw [ends, ends, repeats_append (ih hreads)]
    congr 1
    -- the longer text only allows for more turns
    refine repeats_eq ?_ (Nat.le_refl _)
    show p.rest.length ≤ (p.rest ++ c :: w).length
    rw [List.length_append]
    exact Nat.le_add_right _ _
  | opt r ih =>
    rw [ends, ends, ih hreads, List.map_append]
    rfl

theorem replace_append (hr : r.Consuming) {repl : List Char} (hreads : r.reads c = false)
    (hword : isWord c = false) (w : List Char) (p : Place) :
    replace r repl (p.append (c :: w))
      = replace r repl p ++ c :: replace r repl ⟨some c, w⟩ := by
  have hends := ends_append hreads hword w
  induction p using place_induction with
  | nil before =>
    have hnone : ends r ⟨before, []⟩ = [] :=
      List.eq_nil_iff_forall_not_mem.mpr fun q hq => Nat.not_lt_zero _ (hr _ q hq)
    have hfirst : (ends r ⟨before, c :: w⟩).head? = none := by
      rw [show (⟨before, c :: w⟩ : Place) = Place.append ⟨before, []⟩ (c :: w) from rfl, hends,
        hnone]
      rfl
    exact replace_of_no_match hfirst
  | cons before d rest ih =>
    -- the first match is the same with `c :: w` behind it as without
    have hhead := congrArg List.head? (hends ⟨before, d :: rest⟩)
    rw [List.head?_map] at hhead
    cases hfirst : (ends r ⟨before, d :: rest⟩).head? with
    | none =>
      rw [hfirst] at hhead
      rw [replace_of_no_match hfirst, List.cons_append, ← ih ⟨some d, rest⟩ (Nat.le_refl _)]
      exact replace_of_no_match hhead
    | some q =>
      have hlt : q.rest.length < rest.length + 1 := hr _ q (List.mem_of_mem_head? hfirst)
      rw [hfirst] at hhead
      rw [replace_of_match hr hfirst, List.append_assoc, ← ih q (Nat.le_of_lt_succ hlt)]
      exact replace_of_match hr hhead

end

end GoRegexp
