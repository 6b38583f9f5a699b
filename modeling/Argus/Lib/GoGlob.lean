import Mathlib.Data.List.Basic

/-!
# File names that match a pattern

`filepath.Match` where `\` separates the parts of a path and so escapes nothing.  A pattern is
taken for the name of one file, in which no separator stands.

* `Term`, `parse` — the terms of a pattern; none for a pattern that is not well formed.
* `globMatch` — whether a name matches.
* `parse_literal_append`, `globMatch_literal_append` — characters that mean nothing else stand for
  themselves.
-/

namespace GoGlob

inductive Term
  | star
  | any
  | range (negated : Bool) (ranges : List (Char × Char))
  | lit (c : Char)
deriving DecidableEq, Repr

/-- The ranges up to the bracket that closes them, which is not the first thing to stand there. -/
def parseRanges (found : Bool) : List Char → Option (List (Char × Char) × List Char)
  | [] => none
  | ']' :: cs => if found then some ([], cs) else none
  | '-' :: _ => none
  | lo :: '-' :: hi :: cs =>
    if hi = '-' ∨ hi = ']' then none
    else (parseRanges true cs).map fun r => ((lo, hi) :: r.1, r.2)
  | lo :: cs => (parseRanges true cs).map fun r => ((lo, lo) :: r.1, r.2)

def parseBracket : List Char → Option (Term × List Char)
  | '^' :: cs => (parseRanges false cs).map fun r => (.range true r.1, r.2)
  | cs => (parseRanges false cs).map fun r => (.range false r.1, r.2)

/-- The terms of a text of at most `n` characters. -/
def parseUpTo : ℕ → List Char → Option (List Term)
  | _, [] => some []
  | 0, _ :: _ => none
  | n + 1, '*' :: cs => (parseUpTo n cs).map (.star :: ·)
  | n + 1, '?' :: cs => (parseUpTo n cs).map (.any :: ·)
  | n + 1, '[' :: cs => (parseBracket cs).bind fun r => (parseUpTo n r.2).map (r.1 :: ·)
  | n + 1, c :: cs => (parseUpTo n cs).map (.lit c :: ·)

def parse (pattern : List Char) : Option (List Term) := parseUpTo pattern.length pattern

/-- The whole name matches. -/
def globMatch : List Term → List Char → Bool
  | [], name => name.isEmpty
  | .star :: ts, name => name.tails.any (globMatch ts)
  | .any :: ts, _ :: cs => globMatch ts cs
  | .range negated ranges :: ts, c :: cs =>
    (ranges.any (fun r => decide (r.1 ≤ c) && decide (c ≤ r.2)) != negated) && globMatch ts cs
  | .lit d :: ts, c :: cs => d == c && globMatch ts cs
  | _ :: _, [] => false

/-- `Match`; nothing matches a pattern that is not well formed. -/
def matchName (pattern name : String) : Bool :=
  ((parse pattern.toList).map (fun ts => globMatch ts name.toList)).getD false

/-! ### Characters that stand for themselves -/

/-- No term but itself starts with the character. -/
def IsLiteral (c : Char) : Prop := c ≠ '*' ∧ c ≠ '?' ∧ c ≠ '['

theorem parseUpTo_literal_cons {c : Char} (h : IsLiteral c) (n : ℕ) (cs : List Char) :
    parseUpTo (n + 1) (c :: cs) = (parseUpTo n cs).map (.lit c :: ·) := by
  obtain ⟨hstar, hany, hbracket⟩ := h
  rw [parseUpTo]
  · exact hstar
  · exact hany
  · exact hbracket

theorem parse_literal_append {literal : List Char} (h : ∀ c ∈ literal, IsLiteral c)
    (rest : List Char) :
    parse (literal ++ rest) = (parse rest).map (literal.map Term.lit ++ ·) := by
  show parseUpTo (literal ++ rest).length _ = _
  induction literal with
  | nil => cases hrest : parse rest <;> simpa [parse] using hrest
  | cons c literal ih =>
    rw [List.cons_append, List.length_cons, parseUpTo_literal_cons (h c List.mem_cons_self),
      ih fun d hd => h d (List.mem_cons_of_mem c hd), Option.map_map]
    rfl

theorem globMatch_literal_append (literal : List Char) (ts : List Term) (name : List Char) :
    globMatch (literal.map Term.lit ++ ts) name = true ↔
      ∃ rest, name = literal ++ rest ∧ globMatch ts rest = true := by
  induction literal generalizing name with
  | nil => simp
  | cons c literal ih =>
    rw [List.map_cons, List.cons_append]
    cases name with
    | nil => simp [globMatch]
    | cons d name =>
      rw [globMatch, Bool.and_eq_true, beq_iff_eq, ih]
      constructor
      · rintro ⟨rfl, rest, rfl, hrest⟩
        exact ⟨rest, rfl, hrest⟩
      · rintro ⟨rest, hname, hrest⟩
        obtain ⟨rfl, rfl⟩ := List.cons_eq_cons.mp hname
        exact ⟨rfl, rest, rfl, hrest⟩

/-- A pattern that goes on behind a literal name does not match that name, unless what follows
    matches nothing. -/
theorem matchName_literal_append {name rest : String} (h : ∀ c ∈ name.toList, IsLiteral c) :
    matchName (name ++ rest) name = matchName rest "" := by
  rw [matchName, matchName, String.toList_append, parse_literal_append h]
  cases parse rest.toList with
  | none => rfl
  | some ts =>
    rw [Option.map_some, Option.map_some, Option.map_some, Option.getD_some, Option.getD_some,
      Bool.eq_iff_iff, globMatch_literal_append]
    constructor
    · rintro ⟨tail, hname, htail⟩
      have htail' : tail = [] := List.append_right_eq_self.mp hname.symm
      rw [htail'] at htail
      exact htail
    · intro hempty
      exact ⟨[], (List.append_nil _).symm, hempty⟩

/-- Brackets in a name may take it for a pattern that matches the name itself. -/
example : matchName ("[^.old.x][^a].old" ++ ".*.old") "[^.old.x][^a].old" = true := by decide

end GoGlob
