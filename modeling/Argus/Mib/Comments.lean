import Argus.Mib.Parse
import Mathlib.Data.List.Infix

namespace Argus.Mib

/-!
# Comments

`stripComments` of `mib.ts` with its indices, and the lexical rule it implements.

* `skipComment`, `stripLoop` — the two loops; `stripLoop_eq`, they end with `stripComments`.
* `Piece`, `Scanned` — a text from left to right in characters, strings and comments.
* `exists_scanned`, `scanned_unique` — every text has one reading.
* `Stripped` — exactly the comments are left out, and what follows from it.
-/

/-! ### The loops -/

/-- The inner loop: where it leaves a comment. -/
def skipComment (src : List Char) : ℕ → ℕ → Option ℕ
  | 0, _ => none
  | fuel + 1, i =>
    if i < src.length ∧ src[i]? ≠ some '\n' then
      -- the two hyphens are skipped too, the end of a line is not
      if src[i]? = some '-' ∧ src[i + 1]? = some '-' then some (i + 2)
      else skipComment src fuel (i + 1)
    else some i

/-- `stripComments`, from `i` on, with what has been put out. -/
def stripLoop (src : List Char) : ℕ → ℕ → Bool → List Char → Option (List Char)
  | 0, _, _, _ => none
  | fuel + 1, i, inStr, out =>
    match src[i]? with
    | none => some out
    | some c =>
      if inStr then stripLoop src fuel (i + 1) (if c = '"' then false else inStr) (out ++ [c])
      else if c = '"' then stripLoop src fuel (i + 1) true (out ++ [c])
      else if c = '-' ∧ src[i + 1]? = some '-' then
        (skipComment src fuel (i + 2)).bind fun i => stripLoop src fuel i inStr out
      else stripLoop src fuel (i + 1) inStr (out ++ [c])

/-! ### One character -/

/-- No two hyphens in a row. -/
def noDashes (s : List Char) : Bool := !decide (['-', '-'] <:+: s)

def startsWithDash (s : List Char) : Bool := s.head? == some '-'

/-- Two hyphens in a row stand at the front, or further on. -/
theorem noDashes_cons {c : Char} {s : List Char} : noDashes (c :: s) = true ↔
    noDashes s = true ∧ (c = '-' → startsWithDash s = false) := by
  have hfront : ¬ ['-', '-'] <+: c :: s ↔ (c = '-' → startsWithDash s = false) := by
    rw [List.cons_prefix_cons, not_and]
    apply imp_congr eq_comm
    cases s with
    | nil => simp [startsWithDash]
    | cons d s =>
      rw [List.cons_prefix_cons, @eq_comm _ '-' d]
      simp [startsWithDash]
  simp only [noDashes, Bool.not_eq_true', decide_eq_false_iff_not, List.infix_cons_iff, not_or,
    hfront]
  exact and_comm

theorem strip_comment_cons {c : Char} {s : List Char} (hline : c ≠ '\n')
    (hdash : c = '-' → startsWithDash s = false) :
    strip .comment (c :: s) = strip .comment s := by
  cases s with
  | nil => simp [strip]
  | cons d s =>
    by_cases hc : c = '-'
    · have hd : d ≠ '-' := by
        have hstart := hdash hc
        rintro rfl
        cases hstart
      simp [strip, hd]
    · simp [strip, hc]

theorem strip_code_cons {c : Char} {s : List Char} (hquote : c ≠ '"')
    (hdash : c = '-' → startsWithDash s = false) :
    strip .code (c :: s) = c :: strip .code s := by
  cases s with
  | nil => simp [strip]
  | cons d s =>
    by_cases hc : c = '-'
    · have hd : d ≠ '-' := by
        have hstart := hdash hc
        rintro rfl
        cases hstart
      simp [strip, hd]
    · simp [strip, hc]

/-! ### The end of the loops -/

section

variable {src : List Char}

/-- The two characters at an index. -/
theorem drop_of_getElem? {i : ℕ} {c : Char} (h : src[i]? = some c) :
    src.drop i = c :: src.drop (i + 1) := by
  obtain ⟨hlt, hc⟩ := List.getElem?_eq_some_iff.mp h
  rw [List.drop_eq_getElem_cons hlt, hc]

theorem startsWithDash_drop {i : ℕ} : startsWithDash (src.drop i) = (src[i]? == some '-') := by
  rw [startsWithDash, List.head?_drop]

/-- Two hyphens at an index. -/
theorem drop_of_dashes {i : ℕ} (h : src[i]? = some '-') (h' : src[i + 1]? = some '-') :
    src.drop i = '-' :: '-' :: src.drop (i + 2) := by
  rw [drop_of_getElem? h, drop_of_getElem? h']

/-- No hyphen follows the one at an index. -/
theorem dash_of_not {i : ℕ} {c : Char} (h : ¬ (c = '-' ∧ src[i + 1]? = some '-')) :
    c = '-' → startsWithDash (src.drop (i + 1)) = false := by
  intro hc
  rw [startsWithDash_drop]
  simpa using fun hdash => h ⟨hc, hdash⟩

/-- The inner loop ends where the rest is code. -/
theorem skipComment_eq {fuel i : ℕ} (hpos : 0 < fuel) (h : src.length < i + fuel) : ∃ j,
    skipComment src fuel i = some j ∧ i ≤ j
      ∧ strip .comment (src.drop i) = strip .code (src.drop j) := by
  induction fuel generalizing i with
  | zero => omega
  | succ fuel ih =>
    rw [skipComment]
    cases hc : src[i]? with
    | none =>
      -- the end of the text
      have hend : src.length ≤ i := List.getElem?_eq_none_iff.mp hc
      refine ⟨i, if_neg (by omega), Nat.le_refl i, ?_⟩
      rw [List.drop_eq_nil_of_le hend]
      rfl
    | some c =>
      have hlt : i < src.length := (List.getElem?_eq_some_iff.mp hc).1
      by_cases hline : c = '\n'
      · -- the end of the line stays for the outer loop
        subst hline
        refine ⟨i, if_neg (by simp), Nat.le_refl i, ?_⟩
        rw [drop_of_getElem? hc]
        rfl
      have hinside : i < src.length ∧ some c ≠ some '\n' := ⟨hlt, by simpa using hline⟩
      rw [if_pos hinside]
      by_cases hdash : c = '-' ∧ src[i + 1]? = some '-'
      · obtain ⟨rfl, hnext⟩ := hdash
        refine ⟨i + 2, if_pos ⟨rfl, hnext⟩, by omega, ?_⟩
        rw [drop_of_dashes hc hnext]
        rfl
      · -- one character of the comment, or one hyphen alone
        obtain ⟨j, hj, hle, hstrip⟩ := ih (by omega) (by omega : src.length < i + 1 + fuel)
        refine ⟨j, ?_, by omega, ?_⟩
        · rw [if_neg (by simpa using hdash), hj]
        · rw [drop_of_getElem? hc, strip_comment_cons hline (dash_of_not hdash), hstrip]

/-- Both loops end, with the text without its comments. -/
theorem stripLoop_eq {fuel i : ℕ} (hpos : 0 < fuel) (h : src.length < i + fuel) (inStr : Bool)
    (out : List Char) : stripLoop src fuel i inStr out
      = some (out ++ strip (if inStr then .str else .code) (src.drop i)) := by
  induction fuel generalizing i inStr out with
  | zero => omega
  | succ fuel ih =>
    rw [stripLoop]
    cases hc : src[i]? with
    | none =>
      rw [List.drop_eq_nil_of_le (List.getElem?_eq_none_iff.mp hc)]
      cases inStr <;> simp [strip]
    | some c =>
      have hlt : i < src.length := (List.getElem?_eq_some_iff.mp hc).1
      have hnext (inStr : Bool) :=
        ih (by omega) (by omega : src.length < i + 1 + fuel) inStr (out ++ [c])
      dsimp only
      cases inStr with
      | true =>
        -- the quote that ends the string is put out as well
        rw [if_pos rfl, hnext, drop_of_getElem? hc]
        by_cases hquote : c = '"'
        · simp [strip, hquote]
        · simp [strip, hquote]
      | false =>
        rw [if_neg Bool.false_ne_true]
        by_cases hquote : c = '"'
        · rw [if_pos hquote, hnext, drop_of_getElem? hc]
          simp [strip, hquote]
        rw [if_neg hquote]
        by_cases hdash : c = '-' ∧ src[i + 1]? = some '-'
        · -- the inner loop goes on at `j`, with what has been put out so far
          obtain ⟨j, hj, hle, hstrip⟩ :=
            skipComment_eq (by omega) (by omega : src.length < i + 2 + fuel)
          rw [if_pos hdash, hj, Option.bind_some, ih (by omega) (by omega)]
          obtain ⟨rfl, hsecond⟩ := hdash
          rw [drop_of_dashes hc hsecond]
          exact congrArg (fun rest => some (out ++ rest)) hstrip.symm
        · rw [if_neg hdash, hnext, drop_of_getElem? hc]
          show _ = some (out ++ strip .code (c :: src.drop (i + 1)))
          rw [strip_code_cons hquote (dash_of_not hdash)]
          simp

end

/-! ### Pieces -/

/-- A character outside of strings and comments, a string or a comment; the last string may lack
    its quote, and a comment may go on to the end of its line. -/
inductive Piece
  | char (c : Char)
  | str (s : List Char) (closed : Bool)
  | comment (s : List Char) (closed : Bool)
deriving DecidableEq, Repr

namespace Piece

def text : Piece → List Char
  | char c => [c]
  | str s closed => '"' :: s ++ if closed then ['"'] else []
  | comment s closed => '-' :: '-' :: s ++ if closed then ['-', '-'] else []

/-- What is left of it. -/
def kept : Piece → List Char
  | comment _ _ => []
  | piece => piece.text

/-- The piece is the first one of its text and the rest: a string goes on to the next quote, and a
    comment to the next two hyphens or to the end of the line, whichever comes first. -/
def Starts (rest : List Char) : Piece → Prop
  | char c => c ≠ '"' ∧ (c = '-' → startsWithDash rest = false)
  | str s closed => '"' ∉ s ∧ (closed = false → rest = [])
  | comment s closed => '\n' ∉ s ∧ noDashes (if closed then s ++ ['-'] else s) = true
    ∧ (closed = false → rest = [] ∨ rest.head? = some '\n')

end Piece

def pieceText (ps : List Piece) : List Char := ps.flatMap Piece.text

def keptText (ps : List Piece) : List Char := ps.flatMap Piece.kept

/-- The pieces are read from left to right. -/
def Scanned : List Piece → Prop
  | [] => True
  | piece :: ps => piece.Starts (pieceText ps) ∧ Scanned ps

theorem Scanned.of_append {before after : List Piece} (h : Scanned (before ++ after)) :
    Scanned after := by
  induction before with
  | nil => exact h
  | cons piece before ih => exact ih h.2

/-! ### What is left out -/

/-- A string is kept. -/
theorem strip_str {s rest : List Char} {closed : Bool} (h : (Piece.str s closed).Starts rest) :
    strip .str (s ++ (if closed then ['"'] else []) ++ rest)
      = s ++ (if closed then ['"'] else []) ++ strip .code rest := by
  obtain ⟨hs, hend⟩ := h
  induction s with
  | nil =>
    cases closed with
    | true => rfl
    | false =>
      rw [hend rfl]
      rfl
  | cons c s ih =>
    rw [List.mem_cons, not_or] at hs
    rw [List.cons_append, List.cons_append, strip, if_neg (Ne.symm hs.1), ih hs.2]
    rfl

/-- A hyphen behind a place in a comment is one of the comment or of its end. -/
theorem startsWithDash_comment {s rest : List Char} {closed : Bool}
    (hend : closed = false → rest = [] ∨ rest.head? = some '\n') :
    startsWithDash (s ++ (if closed then ['-', '-'] else []) ++ rest)
      = startsWithDash (if closed then s ++ ['-'] else s) := by
  cases s with
  | cons d s => cases closed <;> rfl
  | nil =>
    cases closed with
    | true => rfl
    | false =>
      rcases hend rfl with rfl | hhead
      · rfl
      · show startsWithDash rest = false
        rw [startsWithDash, hhead]
        rfl

/-- A comment goes on behind its first character, which is no end of it. -/
theorem starts_comment_cons {c : Char} {s rest : List Char} {closed : Bool} :
    (Piece.comment (c :: s) closed).Starts rest ↔ c ≠ '\n'
      ∧ (c = '-' → startsWithDash (s ++ (if closed then ['-', '-'] else []) ++ rest) = false)
      ∧ (Piece.comment s closed).Starts rest := by
  have hcons : noDashes (if closed then c :: s ++ ['-'] else c :: s)
      = noDashes (c :: if closed then s ++ ['-'] else s) := by
    cases closed <;> rfl
  constructor
  · rintro ⟨hline, hdashes, hend⟩
    rw [List.mem_cons, not_or] at hline
    obtain ⟨hrest, hdash⟩ := noDashes_cons.mp (hcons.symm.trans hdashes)
    rw [startsWithDash_comment hend]
    exact ⟨Ne.symm hline.1, hdash, hline.2, hrest, hend⟩
  · rintro ⟨hline, hdash, hs, hdashes, hend⟩
    rw [startsWithDash_comment hend] at hdash
    refine ⟨?_, hcons.trans (noDashes_cons.mpr ⟨hdashes, hdash⟩), hend⟩
    rw [List.mem_cons, not_or]
    exact ⟨Ne.symm hline, hs⟩

/-- A comment is left out. -/
theorem strip_comment {s rest : List Char} {closed : Bool}
    (h : (Piece.comment s closed).Starts rest) :
    strip .comment (s ++ (if closed then ['-', '-'] else []) ++ rest) = strip .code rest := by
  induction s with
  | nil =>
    cases closed with
    | true => rfl
    | false =>
      rcases h.2.2 rfl with rfl | hhead
      · rfl
      · obtain ⟨rest, rfl⟩ := List.head?_eq_some_iff.mp hhead
        rfl
  | cons c s ih =>
    obtain ⟨hline, hdash, hs⟩ := starts_comment_cons.mp h
    rw [List.cons_append, List.cons_append, strip_comment_cons hline hdash, ih hs]

/-- The first piece is kept, or left out if it is a comment. -/
theorem strip_piece {piece : Piece} {rest : List Char} (h : piece.Starts rest) :
    strip .code (piece.text ++ rest) = piece.kept ++ strip .code rest := by
  cases piece with
  | char c => exact strip_code_cons h.1 h.2
  | str s closed => exact congrArg ('"' :: ·) (strip_str h)
  | comment s closed => exact strip_comment h

/-- Of a text that is read to the end exactly the comments are left out. -/
theorem stripComments_pieces {ps : List Piece} (h : Scanned ps) :
    stripComments (pieceText ps) = keptText ps := by
  induction ps with
  | nil => rfl
  | cons piece ps ih =>
    show strip .code (piece.text ++ pieceText ps) = piece.kept ++ keptText ps
    rw [strip_piece h.1]
    exact congrArg (piece.kept ++ ·) (ih h.2)

/-! ### One reading -/

/-- What is in a string, whether it ends, and what follows. -/
def spanStr : List Char → List Char × Bool × List Char
  | [] => ([], false, [])
  | c :: t => if c = '"' then ([], true, t) else (c :: (spanStr t).1, (spanStr t).2)

/-- What is in a comment, whether two hyphens end it, and what follows. -/
def spanComment : List Char → List Char × Bool × List Char
  | [] => ([], false, [])
  | c :: t =>
    if c = '\n' then ([], false, c :: t)
    else if c = '-' ∧ startsWithDash t = true then ([], true, t.tail)
    else (c :: (spanComment t).1, (spanComment t).2)

theorem exists_str (t : List Char) : ∃ s closed rest,
    t = s ++ (if closed then ['"'] else []) ++ rest ∧ (Piece.str s closed).Starts rest := by
  by_cases hquote : '"' ∈ t
  · obtain ⟨s, rest, ht, hs⟩ := List.eq_append_cons_of_mem hquote
    exact ⟨s, true, rest, by simp [ht], hs, by simp⟩
  · exact ⟨t, false, [], by simp, hquote, fun _ => rfl⟩

theorem spanStr_eq {s rest : List Char} {closed : Bool} (h : (Piece.str s closed).Starts rest) :
    spanStr (s ++ (if closed then ['"'] else []) ++ rest) = (s, closed, rest) := by
  obtain ⟨hs, hend⟩ := h
  induction s with
  | nil =>
    cases closed with
    | true => rfl
    | false =>
      rw [hend rfl]
      rfl
  | cons c s ih =>
    rw [List.mem_cons, not_or] at hs
    rw [List.cons_append, List.cons_append, spanStr, if_neg (Ne.symm hs.1), ih hs.2]

theorem exists_comment (t : List Char) : ∃ s closed rest,
    t = s ++ (if closed then ['-', '-'] else []) ++ rest
      ∧ (Piece.comment s closed).Starts rest := by
  have hnil : noDashes [] = true := by decide
  induction t with
  | nil => exact ⟨[], false, [], rfl, List.not_mem_nil, hnil, fun _ => Or.inl rfl⟩
  | cons c t ih =>
    by_cases hline : c = '\n'
    · subst hline
      exact ⟨[], false, _, rfl, List.not_mem_nil, hnil, fun _ => Or.inr rfl⟩
    by_cases hdash : c = '-' ∧ startsWithDash t = true
    · obtain ⟨rfl, hstart⟩ := hdash
      obtain ⟨rest, rfl⟩ := List.head?_eq_some_iff.mp (beq_iff_eq.mp hstart)
      exact ⟨[], true, rest, rfl, List.not_mem_nil, by decide, by simp⟩
    · -- one character more in front of the comment of the rest
      obtain ⟨s, closed, rest, rfl, hstarts⟩ := ih
      refine ⟨c :: s, closed, rest, rfl, starts_comment_cons.mpr ⟨hline, fun hc => ?_, hstarts⟩⟩
      exact Bool.eq_false_of_not_eq_true fun hstart => hdash ⟨hc, hstart⟩

theorem spanComment_eq {s rest : List Char} {closed : Bool}
    (h : (Piece.comment s closed).Starts rest) :
    spanComment (s ++ (if closed then ['-', '-'] else []) ++ rest) = (s, closed, rest) := by
  induction s with
  | nil =>
    cases closed with
    | true => rfl
    | false =>
      rcases h.2.2 rfl with rfl | hhead
      · rfl
      · obtain ⟨rest, rfl⟩ := List.head?_eq_some_iff.mp hhead
        rfl
  | cons c s ih =>
    obtain ⟨hline, hdash, hs⟩ := starts_comment_cons.mp h
    have hnot : ¬ (c = '-'
        ∧ startsWithDash (s ++ (if closed then ['-', '-'] else []) ++ rest) = true) := by
      rintro ⟨hc, hstart⟩
      rw [hdash hc] at hstart
      exact Bool.false_ne_true hstart
    rw [List.cons_append, List.cons_append, spanComment, if_neg hline, if_neg hnot, ih hs]

/-- Every text begins with a piece. -/
theorem exists_piece {t : List Char} (h : t ≠ []) : ∃ piece rest,
    t = Piece.text piece ++ rest ∧ piece.Starts rest ∧ rest.length < t.length := by
  obtain ⟨c, t, rfl⟩ := List.exists_cons_of_ne_nil h
  by_cases hquote : c = '"'
  · subst hquote
    obtain ⟨s, closed, rest, rfl, hstarts⟩ := exists_str t
    refine ⟨.str s closed, rest, by simp [Piece.text], hstarts, ?_⟩
    simp only [List.length_cons, List.length_append]
    omega
  by_cases hdash : c = '-' ∧ startsWithDash t = true
  · obtain ⟨rfl, hstart⟩ := hdash
    obtain ⟨t, rfl⟩ := List.head?_eq_some_iff.mp (beq_iff_eq.mp hstart)
    obtain ⟨s, closed, rest, rfl, hstarts⟩ := exists_comment t
    refine ⟨.comment s closed, rest, by simp [Piece.text], hstarts, ?_⟩
    simp only [List.length_cons, List.length_append]
    omega
  · exact ⟨.char c, t, rfl, ⟨hquote, fun hc => Bool.eq_false_of_not_eq_true fun h => hdash ⟨hc, h⟩⟩,
      Nat.lt_succ_self _⟩

theorem exists_scanned (t : List Char) : ∃ ps, Scanned ps ∧ pieceText ps = t := by
  induction hn : t.length using Nat.strong_induction_on generalizing t with
  | _ n ih =>
    by_cases hnil : t = []
    · exact ⟨[], trivial, hnil.symm⟩
    -- the rest is shorter
    obtain ⟨piece, rest, ht, hstarts, hlt⟩ := exists_piece hnil
    obtain ⟨ps, hps, hrest⟩ := ih rest.length (by omega) rest rfl
    refine ⟨piece :: ps, ⟨by rwa [hrest], hps⟩, ?_⟩
    rw [ht, ← hrest]
    rfl

/-- A text begins with one piece only. -/
theorem piece_unique {piece piece' : Piece} {rest rest' : List Char} (h : piece.Starts rest)
    (h' : piece'.Starts rest') (heq : piece.text ++ rest = piece'.text ++ rest') :
    piece = piece' ∧ rest = rest' := by
  -- what a piece begins with tells of which kind it is
  have hchar {c : Char} {rest t : List Char} (h : (Piece.char c).Starts rest) :
      c :: rest ≠ '"' :: t ∧ c :: rest ≠ '-' :: '-' :: t := by
    constructor
    · intro heq
      exact h.1 (List.cons.inj heq).1
    · intro heq
      obtain ⟨rfl, rfl⟩ := List.cons.inj heq
      cases h.2 rfl
  cases piece with
  | char c =>
    cases piece' with
    | char c' =>
      obtain ⟨rfl, rfl⟩ := List.cons.inj heq
      exact ⟨rfl, rfl⟩
    | str s' closed' => exact absurd heq (hchar h).1
    | comment s' closed' => exact absurd heq (hchar h).2
  | str s closed =>
    cases piece' with
    | char c' => exact absurd heq.symm (hchar h').1
    | str s' closed' =>
      have hspan : spanStr (s ++ (if closed then ['"'] else []) ++ rest)
          = spanStr (s' ++ (if closed' then ['"'] else []) ++ rest') :=
        congrArg spanStr (List.cons.inj heq).2
      rw [spanStr_eq h, spanStr_eq h'] at hspan
      simpa [and_assoc] using hspan
    | comment s' closed' => cases heq
  | comment s closed =>
    cases piece' with
    | char c' => exact absurd heq.symm (hchar h').2
    | str s' closed' => cases heq
    | comment s' closed' =>
      have hspan : spanComment (s ++ (if closed then ['-', '-'] else []) ++ rest)
          = spanComment (s' ++ (if closed' then ['-', '-'] else []) ++ rest') :=
        congrArg spanComment (List.cons.inj (List.cons.inj heq).2).2
      rw [spanComment_eq h, spanComment_eq h'] at hspan
      simpa [and_assoc] using hspan

theorem Piece.text_ne_nil (piece : Piece) : piece.text ≠ [] := by
  cases piece <;> exact List.cons_ne_nil _ _

theorem scanned_unique {ps ps' : List Piece} (h : Scanned ps) (h' : Scanned ps')
    (heq : pieceText ps = pieceText ps') : ps = ps' := by
  induction ps generalizing ps' with
  | nil =>
    cases ps' with
    | nil => rfl
    | cons piece' ps' =>
      exact absurd (List.append_eq_nil_iff.mp heq.symm).1 piece'.text_ne_nil
  | cons piece ps ih =>
    cases ps' with
    | nil => exact absurd (List.append_eq_nil_iff.mp heq).1 piece.text_ne_nil
    | cons piece' ps' =>
      obtain ⟨rfl, hrest⟩ := piece_unique h.1 h'.1 heq
      rw [ih h.2 h'.2 hrest]

/-! ### What follows -/

theorem strip_sublist (mode : Mode) (t : List Char) : (strip mode t).Sublist t := by
  fun_induction strip mode t with
  | case1 => exact List.Sublist.refl _
  | case2 c t ih => exact ih.cons_cons c
  | case3 t ih => exact ih.cons_cons _
  | case4 t ih => exact (ih.cons _).cons _
  | case5 c t _ _ ih => exact ih.cons_cons c
  | case6 t ih => exact ih.cons_cons _
  | case7 t ih => exact (ih.cons _).cons _
  | case8 c t _ _ ih => exact ih.cons _

/-- Line by line, something is left out and nothing else changed. -/
def Lines (out src : List Char) : Prop :=
  List.Forall₂ List.Sublist (out.splitOn '\n') (src.splitOn '\n')

namespace Lines

variable {out src : List Char} {c : Char}

/-- A character in front of both texts. -/
theorem cons (h : Lines out src) (c : Char) : Lines (c :: out) (c :: src) := by
  rw [Lines, List.splitOn_cons_eq_if_modifyHead, List.splitOn_cons_eq_if_modifyHead]
  rw [Lines] at h
  generalize out.splitOn '\n' = a at h ⊢
  generalize src.splitOn '\n' = b at h ⊢
  split
  · exact List.Forall₂.cons (List.Sublist.refl _) h
  · cases h with
    | nil => exact List.Forall₂.nil
    | cons hline hrest => exact List.Forall₂.cons (hline.cons_cons c) hrest

/-- A character that is left out, and does not end a line. -/
theorem skip (h : Lines out src) (hline : c ≠ '\n') : Lines out (c :: src) := by
  rw [Lines, List.splitOn_cons_eq_if_modifyHead, if_neg (by simpa using hline)]
  rw [Lines] at h
  generalize out.splitOn '\n' = a at h ⊢
  generalize src.splitOn '\n' = b at h ⊢
  cases h with
  | nil => exact List.Forall₂.nil
  | cons hsub hrest => exact List.Forall₂.cons (hsub.cons c) hrest

end Lines

theorem strip_lines (mode : Mode) (t : List Char) : Lines (strip mode t) t := by
  fun_induction strip mode t with
  | case1 => exact List.Forall₂.cons (List.Sublist.refl _) List.Forall₂.nil
  | case2 c t ih => exact ih.cons c
  | case3 t ih => exact ih.cons _
  | case4 t ih => exact (ih.skip (by decide)).skip (by decide)
  | case5 c t _ _ ih => exact ih.cons c
  | case6 t ih => exact ih.cons _
  | case7 t ih => exact (ih.skip (by decide)).skip (by decide)
  | case8 c t hline _ ih => exact ih.skip hline

/-- Where two hyphens stand, in a text and behind its first character. -/
theorem forall_dashes_cons {p : List Char → Prop} {c : Char} {t : List Char} :
    (∀ u v, c :: t = u ++ '-' :: '-' :: v → p u)
      ↔ (c = '-' → startsWithDash t = true → p [])
        ∧ ∀ u v, t = u ++ '-' :: '-' :: v → p (c :: u) := by
  constructor
  · intro h
    refine ⟨?_, fun u v ht => h (c :: u) v (by rw [ht]; rfl)⟩
    rintro rfl hstart
    obtain ⟨v, rfl⟩ := List.head?_eq_some_iff.mp (beq_iff_eq.mp hstart)
    exact h [] v rfl
  · rintro ⟨hfirst, hrest⟩ u v heq
    cases u with
    | nil =>
      obtain ⟨rfl, rfl⟩ := List.cons.inj heq
      exact hfirst rfl rfl
    | cons d u =>
      obtain ⟨rfl, ht⟩ := List.cons.inj heq
      exact hrest u v ht

/-- Whether a place is in a string, where all quotes in front of it count. -/
def inStrAfter (inStr : Bool) : List Char → Bool
  | [] => inStr
  | c :: u => inStrAfter (if c = '"' then !inStr else inStr) u

theorem inStrAfter_eq (inStr : Bool) (u : List Char) :
    inStrAfter inStr u = (inStr != decide (u.count '"' % 2 = 1)) := by
  induction u generalizing inStr with
  | nil => cases inStr <;> rfl
  | cons c u ih =>
    rw [inStrAfter, ih, List.count_cons]
    by_cases hquote : c = '"'
    · have hparity : ((u.count '"' + 1) % 2 = 1) = ¬ (u.count '"' % 2 = 1) := by
        rw [eq_iff_iff]
        omega
      simp only [hquote, if_true, beq_self_eq_true, hparity, decide_not]
      cases inStr <;> cases decide (u.count '"' % 2 = 1) <;> rfl
    · simp [hquote]

/-- Where no comment begins, one character is kept. -/
theorem strip_cons {inStr : Bool} {c : Char} {t : List Char}
    (h : inStr = true ∨ ¬ (c = '-' ∧ startsWithDash t = true)) :
    strip (if inStr then .str else .code) (c :: t)
      = c :: strip (if (if c = '"' then !inStr else inStr) then .str else .code) t := by
  by_cases hquote : c = '"'
  · subst hquote
    cases inStr <;> rfl
  · rw [if_neg hquote]
    cases inStr with
    | true =>
      show c :: strip (if c = '"' then .code else .str) t = _
      rw [if_neg hquote]
      rfl
    | false =>
      refine strip_code_cons hquote fun hc => Bool.eq_false_of_not_eq_true fun hstart => ?_
      exact h.elim Bool.false_ne_true fun hnot => hnot ⟨hc, hstart⟩

/-- A text is left as it is where two hyphens stand in strings only. -/
theorem strip_eq_self_iff (t : List Char) (inStr : Bool) :
    strip (if inStr then .str else .code) t = t
      ↔ ∀ u v, t = u ++ '-' :: '-' :: v → inStrAfter inStr u = true := by
  induction t generalizing inStr with
  | nil => cases inStr <;> simp [strip]
  | cons c t ih =>
    rw [forall_dashes_cons]
    by_cases h : inStr = true ∨ ¬ (c = '-' ∧ startsWithDash t = true)
    · rw [strip_cons h, List.cons_inj_right, ih]
      have hfirst : c = '-' → startsWithDash t = true → inStrAfter inStr [] = true :=
        fun hc hstart => h.elim id fun hnot => absurd ⟨hc, hstart⟩ hnot
      exact ⟨fun hrest => ⟨hfirst, hrest⟩, fun hboth => hboth.2⟩
    · -- a comment begins, and the text gets shorter
      rw [not_or, not_not, Bool.not_eq_true] at h
      obtain ⟨rfl, rfl, hstart⟩ := h
      obtain ⟨t, rfl⟩ := List.head?_eq_some_iff.mp (beq_iff_eq.mp hstart)
      constructor
      · intro heq
        have hle := (strip_sublist .comment t).length_le
        have hlength := congrArg List.length heq
        change (strip .comment t).length = t.length + 1 + 1 at hlength
        omega
      · intro hboth
        cases hboth.1 rfl hstart

/-! ### The rule -/

/-- The text without its comments: it is read from left to right in one way; newlines stay; without
    two hyphens outside of strings nothing is left out; and behind a comment the reading goes on as
    at the beginning, whatever is in it. -/
structure Stripped (src out : List Char) : Prop where
  pieces : ∃ ps, Scanned ps ∧ pieceText ps = src ∧ keptText ps = out
    ∧ ∀ ps', Scanned ps' → pieceText ps' = src → ps' = ps
  lines : Lines out src
  unchanged : out = src ↔ ∀ u v, src = u ++ '-' :: '-' :: v → u.count '"' % 2 = 1
  resumed : ∀ before s closed after, Scanned (before ++ .comment s closed :: after) →
    pieceText (before ++ .comment s closed :: after) = src →
    out = keptText before ++ stripComments (pieceText after)

/-- For every text the loops end, with the text without its comments. -/
theorem stripComments_stripped (src : List Char) :
    (∀ fuel, src.length < fuel → stripLoop src fuel 0 false [] = some (stripComments src))
      ∧ Stripped src (stripComments src) := by
  refine ⟨?_, ?_, strip_lines .code src, ?_, ?_⟩
  · intro fuel hfuel
    exact stripLoop_eq (by omega) (by omega) false []
  · obtain ⟨ps, hps, rfl⟩ := exists_scanned src
    exact ⟨ps, hps, rfl, (stripComments_pieces hps).symm,
      fun ps' hps' heq => scanned_unique hps' hps heq⟩
  · have hself := strip_eq_self_iff src false
    simp only [inStrAfter_eq, Bool.false_bne, decide_eq_true_eq] at hself
    exact hself
  · rintro before s closed after hps rfl
    rw [stripComments_pieces hps, stripComments_pieces hps.of_append.2]
    simp [keptText, Piece.kept]

end Argus.Mib
