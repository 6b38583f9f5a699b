import Argus.Mib.Comments
import Argus.Mib.Store
import Mathlib.Data.List.Infix

namespace Argus.Mib

/-!
# Module texts

The texts that `parseMib` is made for: a header with its imports, and definitions, of which some
assign a value `name MACRO clauses ::= { parent ... n }` and the others a type.  Comments may stand
wherever blanks may, and strings wherever the syntax has one.

* `Chunk` — a character of the code, a string or a comment; `stripComments_written` says that
  `stripComments` leaves out exactly the comments.
* `Assignment`, `Module` — what is written, and what it means (`Assignment.raw`).
* `quiet`, `Module.plain` — the expressions match nowhere but where they should.
* `matchAt_assignment`, `matchAll_definitions` — `ASSIGN_RE` matches the assignments one by one.
* `rawsOf_text`, `parseMib_reads` — what is read from a plain module.
-/

open JsText (isSpace trimChars)

/-! ### Chunks -/

inductive Chunk
  | code (c : Char)
  | str (s : List Char)
  /-- A comment, up to two hyphens or to the end of the line. -/
  | comment (s : List Char) (closed : Bool)
deriving DecidableEq, Repr

namespace Chunk

/-- The chunk as it is written. -/
def text : Chunk → List Char
  | code c => [c]
  | str s => '"' :: s ++ ['"']
  | comment s true => '-' :: '-' :: s ++ ['-', '-']
  | comment s false => '-' :: '-' :: s ++ ['\n']

/-- What is left of it without comments. -/
def clean : Chunk → List Char
  | comment _ true => []
  | comment _ false => ['\n']
  | chunk => chunk.text

/-- Blanks and comments. -/
def isFiller : Chunk → Bool
  | code c => isSpace c
  | str _ => false
  | comment _ _ => true

end Chunk

def written (cs : List Chunk) : List Char := cs.flatMap Chunk.text

def cleaned (cs : List Chunk) : List Char := cs.flatMap Chunk.clean

def codes (s : List Char) : List Chunk := s.map .code

/-- The chunks are those of their text. -/
def Lexed : List Chunk → Prop
  | [] => True
  | .code c :: cs => c ≠ '"' ∧ (c = '-' → startsWithDash (written cs) = false) ∧ Lexed cs
  | .str s :: cs => '"' ∉ s ∧ Lexed cs
  | .comment s closed :: cs =>
    '\n' ∉ s ∧ noDashes (if closed then s ++ ['-'] else s) = true ∧ Lexed cs

instance decidableLexed : (cs : List Chunk) → Decidable (Lexed cs)
  | [] => inferInstanceAs (Decidable True)
  | .code c :: cs =>
    have := decidableLexed cs
    inferInstanceAs (Decidable
      (c ≠ '"' ∧ (c = '-' → startsWithDash (written cs) = false) ∧ Lexed cs))
  | .str s :: cs =>
    have := decidableLexed cs
    inferInstanceAs (Decidable ('"' ∉ s ∧ Lexed cs))
  | .comment s closed :: cs =>
    have := decidableLexed cs
    inferInstanceAs (Decidable ('\n' ∉ s ∧
      noDashes (if closed then s ++ ['-'] else s) = true ∧ Lexed cs))

@[simp] theorem cleaned_append (cs ds : List Chunk) :
    cleaned (cs ++ ds) = cleaned cs ++ cleaned ds := List.flatMap_append

@[simp] theorem cleaned_codes (s : List Char) : cleaned (codes s) = s := by
  induction s with
  | nil => rfl
  | cons c s ih => exact congrArg (c :: ·) ih

/-- The pieces of a chunk; the end of a line is not part of the comment. -/
def Chunk.pieces : Chunk → List Piece
  | code c => [.char c]
  | str s => [.str s true]
  | comment s true => [.comment s true]
  | comment s false => [.comment s false, .char '\n']

theorem pieceText_pieces (cs : List Chunk) : pieceText (cs.flatMap Chunk.pieces) = written cs := by
  rw [pieceText, List.flatMap_assoc, written]
  apply List.flatMap_congr
  intro chunk _
  cases chunk with
  | code c => rfl
  | str s => simp [Chunk.pieces, Piece.text, Chunk.text]
  | comment s closed => cases closed <;> simp [Chunk.pieces, Piece.text, Chunk.text]

theorem keptText_pieces (cs : List Chunk) : keptText (cs.flatMap Chunk.pieces) = cleaned cs := by
  rw [keptText, List.flatMap_assoc, cleaned]
  apply List.flatMap_congr
  intro chunk _
  cases chunk with
  | code c => rfl
  | str s => simp [Chunk.pieces, Piece.kept, Piece.text, Chunk.clean, Chunk.text]
  | comment s closed => cases closed <;> simp [Chunk.pieces, Piece.kept, Piece.text, Chunk.clean]

/-- The chunks of a text are read as they are. -/
theorem scanned_pieces {cs : List Chunk} (h : Lexed cs) : Scanned (cs.flatMap Chunk.pieces) := by
  induction cs with
  | nil => trivial
  | cons chunk cs ih =>
    have htext := pieceText_pieces cs
    cases chunk with
    | code c =>
      obtain ⟨hquote, hdash, hrest⟩ := h
      refine ⟨⟨hquote, ?_⟩, ih hrest⟩
      rwa [← htext] at hdash
    | str s => exact ⟨⟨h.1, Bool.noConfusion⟩, ih h.2⟩
    | comment s closed =>
      obtain ⟨hline, hdashes, hrest⟩ := h
      cases closed with
      | true => exact ⟨⟨hline, hdashes, Bool.noConfusion⟩, ih hrest⟩
      | false =>
        exact ⟨⟨hline, hdashes, fun _ => Or.inr rfl⟩,
          ⟨by decide, fun hc => absurd hc (by decide)⟩, ih hrest⟩

/-- The comments are left out, and nothing else. -/
theorem stripComments_written {cs : List Chunk} (h : Lexed cs) :
    stripComments (written cs) = cleaned cs := by
  rw [← pieceText_pieces, stripComments_pieces (scanned_pieces h), keptText_pieces]

theorem Lexed.append {cs ds : List Chunk} (hcs : Lexed cs)
    (hlast : cs.getLast? ≠ some (.code '-')) (hds : Lexed ds) : Lexed (cs ++ ds) := by
  induction cs with
  | nil => exact hds
  | cons chunk cs ih =>
    have hrest : cs.getLast? ≠ some (.code '-') := by
      intro hdash
      cases cs with
      | nil => cases hdash
      | cons next cs => exact hlast (List.getLast?_cons_cons.trans hdash)
    cases chunk with
    | str s => exact ⟨hcs.1, ih hcs.2 hrest⟩
    | comment s closed => exact ⟨hcs.1, hcs.2.1, ih hcs.2.2 hrest⟩
    | code c =>
      refine ⟨hcs.1, ?_, ih hcs.2.2 hrest⟩
      rintro rfl
      cases cs with
      | nil => exact absurd rfl hlast
      | cons next cs =>
        have hstart := hcs.2.1 rfl
        cases next with
        | code d => exact hstart
        | str s => rfl
        | comment s closed => cases closed <;> exact hstart

/-! ### Modules -/

/-- The six macros, as they are written. -/
inductive Keyword
  | objectType
  | objectIdentifier (gap : List Chunk)
  | moduleIdentity
  | objectIdentity
  | objectGroup
  | notificationType
deriving DecidableEq, Repr

def Keyword.chunks : Keyword → List Chunk
  | objectType => codes "OBJECT-TYPE".toList
  | objectIdentifier gap => codes "OBJECT".toList ++ gap ++ codes "IDENTIFIER".toList
  | moduleIdentity => codes "MODULE-IDENTITY".toList
  | objectIdentity => codes "OBJECT-IDENTITY".toList
  | objectGroup => codes "OBJECT-GROUP".toList
  | notificationType => codes "NOTIFICATION-TYPE".toList

inductive Clause
  /-- A word and a string, such as `UNITS "celsius"`. -/
  | quoting (word : List Char) (gap : List Chunk) (s : List Char)
  | other (cs : List Chunk)
deriving DecidableEq, Repr

namespace Clause

def chunks : Clause → List Chunk
  | quoting word gap s => codes word ++ gap ++ [.str s]
  | other cs => cs

/-- The string of a clause that begins with the word, and what stands between them. -/
def quotes (word : List Char) : Clause → Option (List Chunk × List Char)
  | quoting word' gap s => if word' = word then some (gap, s) else none
  | other _ => none

end Clause

/-- `name MACRO clauses ::= { parent ... n }`. -/
structure Assignment where
  name : List Char
  afterName : List Chunk
  keyword : Keyword
  clauses : List Clause
  afterBecomes : List Chunk
  /-- The tokens between the braces, each with what stands before it. -/
  value : List (List Chunk × List Char)
  afterValue : List Chunk
  after : List Chunk
deriving DecidableEq, Repr

namespace Assignment

variable (a : Assignment)

def body : List Chunk := a.clauses.flatMap Clause.chunks

def braces : List Chunk := a.value.flatMap (fun v => v.1 ++ codes v.2) ++ a.afterValue

def chunks : List Chunk :=
  codes a.name ++ (a.afterName ++ (a.keyword.chunks ++ (a.body ++ (codes "::=".toList ++
    (a.afterBecomes ++ (codes ['\x7b'] ++ (a.braces ++ (codes ['\x7d'] ++ a.after))))))))

def tokens : List String := a.value.map fun v => String.ofList v.2

/-- The string of the first clause with the word. -/
def clause (word : String) : Option (List Char) :=
  a.clauses.findSome? fun c => (c.quotes word.toList).map Prod.snd

/-- What the assignment says. -/
def raw : Raw where
  name := String.ofList a.name
  tokens := a.tokens
  unit := (a.clause "UNITS").map String.ofList
  description := (a.clause "DESCRIPTION").map describe

def fillers (cs : List Chunk) : Bool := cs.all Chunk.isFiller

/-- The parts are what the syntax has in their places. -/
structure Proper : Prop where
  name_alpha : (a.name.head?.map Char.isAlpha).getD false = true
  name_chars : a.name.all isNameChar = true
  afterName : fillers a.afterName = true
  keyword : ∀ gap, a.keyword = .objectIdentifier gap → fillers gap = true
  clauses : ∀ word gap s, .quoting word gap s ∈ a.clauses → fillers gap = true ∧ '"' ∉ s
  afterBecomes : fillers a.afterBecomes = true
  value_ne : a.value ≠ []
  value : ∀ v ∈ a.value, fillers v.1 = true ∧ v.2 ≠ [] ∧
    ∀ c ∈ v.2, isSpace c = false ∧ c ≠ '\x7d'
  afterValue : fillers a.afterValue = true
  after : fillers a.after = true

end Assignment

inductive Definition
  | value (a : Assignment)
  /-- A type, with whatever stands up to the next definition. -/
  | type (cs : List Chunk)
deriving DecidableEq, Repr

def Definition.chunks : Definition → List Chunk
  | value a => a.chunks
  | type cs => cs

def Definition.assigned : Definition → Option Assignment
  | value a => some a
  | type _ => none

structure Module where
  /-- `MODULE DEFINITIONS ::= BEGIN IMPORTS ...;`. -/
  header : List Chunk
  definitions : List Definition
  /-- `END`. -/
  ending : List Chunk
deriving DecidableEq, Repr

namespace Module

variable (m : Module)

/-- From some definition on. -/
def chunksFrom (ds : List Definition) : List Chunk := ds.flatMap Definition.chunks ++ m.ending

def chunks : List Chunk := m.header ++ m.chunksFrom m.definitions

def text : String := String.ofList (written m.chunks)

def assignments : List Assignment := m.definitions.filterMap Definition.assigned

def raws : List Raw := m.assignments.map Assignment.raw

end Module

/-! ### What the expressions do not misread -/

/-- At no place of a text does the expression match, with the rest behind it. -/
def quiet (matchesAt : List Char → Bool) : List Char → List Char → Bool
  | [], _ => true
  | c :: s, rest => !matchesAt (c :: s ++ rest) && quiet matchesAt s rest

def Keyword.plain : Keyword → Bool
  | objectIdentifier gap => cleaned gap ≠ []
  | _ => true

/-- The first string behind the word and blanks is that of its clause. -/
def findable (word : List Char) : List Clause → Bool
  | [] => true
  | c :: cs =>
    match c.quotes word with
    | some (gap, _) => cleaned gap ≠ []
    | none =>
      quiet (fun s => (quotedAt word s).isSome) (cleaned c.chunks)
        (cleaned (cs.flatMap Clause.chunks)) && findable word cs

/-- The value of an assignment, up to what follows. -/
def Assignment.valueText (a : Assignment) (rest : List Char) : List Char :=
  "::=".toList ++ (cleaned a.afterBecomes ++ '\x7b' :: (cleaned a.braces ++ '\x7d' ::
    (cleaned a.after ++ rest)))

/-- Blanks are left between words when the comments are gone, no clause has a value in a string,
    and the two clauses are found. -/
def Assignment.plain (a : Assignment) (rest : List Char) : Bool :=
  cleaned a.afterName ≠ [] && a.keyword.plain && wordEnds (cleaned a.body ++ a.valueText rest) &&
    quiet (fun s => (assignedValue s).isSome) (cleaned a.body) (a.valueText rest) &&
    findable "UNITS".toList a.clauses && findable "DESCRIPTION".toList a.clauses &&
    a.value.tail.all (fun v => cleaned v.1 ≠ [])

namespace Module

variable (m : Module)

def plainFrom : List Definition → Bool
  | [] => quiet (fun s => (matchAt s).isSome) (cleaned m.ending) []
  | .value a :: ds => a.plain (cleaned (m.chunksFrom ds)) && plainFrom ds
  | .type cs :: ds =>
    quiet (fun s => (matchAt s).isSome) (cleaned cs) (cleaned (m.chunksFrom ds)) && plainFrom ds

/-- Outside the assignments of values `ASSIGN_RE` matches nowhere: no name stands before one of the
    macros, in the header, in a type or in a string. -/
def plain : Bool :=
  quiet (fun s => (matchAt s).isSome) (cleaned m.header) (cleaned (m.chunksFrom m.definitions)) &&
    m.plainFrom m.definitions

end Module

/-! ### Pieces of the expressions -/

theorem isSpace_of_fillers {cs : List Chunk} (h : Assignment.fillers cs = true) {c : Char}
    (hc : c ∈ cleaned cs) : isSpace c = true := by
  obtain ⟨chunk, hchunk, hc⟩ := List.mem_flatMap.mp hc
  have hfiller := List.all_eq_true.mp h chunk hchunk
  cases chunk with
  | code d =>
    obtain rfl := List.mem_singleton.mp hc
    exact hfiller
  | str s => cases hfiller
  | comment s closed =>
    cases closed with
    | true => exact absurd hc List.not_mem_nil
    | false =>
      obtain rfl := List.mem_singleton.mp hc
      decide

theorem isNameChar_of_isSpace {c : Char} (h : isSpace c = true) : isNameChar c = false := by
  refine Bool.eq_false_iff.mpr (fun hname => ?_)
  simp only [isNameChar, isWord, Char.isAlphanum, Bool.or_eq_true, beq_iff_eq] at hname
  rcases hname with ((halpha | hdigit) | rfl) | rfl
  · rw [JsText.isSpace_of_isAlpha halpha] at h
    cases h
  · rw [JsText.isSpace_of_isDigit hdigit] at h
    cases h
  · exact absurd h (by decide)
  · exact absurd h (by decide)

/-- The text does not begin with such a character. -/
def Stops (p : Char → Bool) (s : List Char) : Prop := ∀ c, s.head? = some c → p c = false

theorem Stops.dropWhile {p : Char → Bool} {s : List Char} (h : Stops p s) : s.dropWhile p = s := by
  cases s with
  | nil => rfl
  | cons c s => exact List.dropWhile_cons_of_neg (by simp [h c rfl])

theorem Stops.takeWhile {p : Char → Bool} {s : List Char} (h : Stops p s) : s.takeWhile p = [] := by
  cases s with
  | nil => rfl
  | cons c s => exact List.takeWhile_cons_of_neg (by simp [h c rfl])

theorem dropWhile_append {p : Char → Bool} {w s : List Char} (hw : ∀ c ∈ w, p c = true)
    (hs : Stops p s) : (w ++ s).dropWhile p = s := by
  rw [List.dropWhile_append_of_pos hw, hs.dropWhile]

theorem takeWhile_append {p : Char → Bool} {w s : List Char} (hw : ∀ c ∈ w, p c = true)
    (hs : Stops p s) : (w ++ s).takeWhile p = w := by
  rw [List.takeWhile_append_of_pos hw, hs.takeWhile, List.append_nil]

theorem stops_append {p : Char → Bool} {w s : List Char} (hne : w ≠ [])
    (hw : ∀ c ∈ w, p c = false) : Stops p (w ++ s) := by
  obtain ⟨c, w, rfl⟩ := List.exists_cons_of_ne_nil hne
  rintro d hd
  obtain rfl : c = d := by simpa using hd
  exact hw c List.mem_cons_self

theorem stops_text {p : Char → Bool} {w s : List Char} (hne : w ≠ []) (hw : w.any p = false) :
    Stops p (w ++ s) :=
  stops_append hne (fun c hc => Bool.eq_false_iff.mpr (List.any_eq_false.mp hw c hc))

theorem spaces_append {w s : List Char} (hne : w ≠ []) (hw : ∀ c ∈ w, isSpace c = true)
    (hs : Stops isSpace s) : spaces (w ++ s) = some s := by
  obtain ⟨c, w, rfl⟩ := List.exists_cons_of_ne_nil hne
  have hc : isSpace c = true := hw c List.mem_cons_self
  rw [spaces, if_pos (by simpa using hc), dropWhile_append hw hs]

theorem spaces_of_stops {s : List Char} (hs : Stops isSpace s) : spaces s = none := by
  cases s with
  | nil => rfl
  | cons c s => exact if_neg (by simp [hs c rfl])

theorem literal_append (k s : List Char) : literal k (k ++ s) = some s := by
  rw [literal, if_pos (List.isPrefixOf_iff_prefix.mpr (List.prefix_append k s)), List.drop_left]

/-- Two words that differ where both have a character. -/
theorem literal_eq_none {k l : List Char} (h : k.take l.length ≠ l.take k.length)
    (s : List Char) : literal k (l ++ s) = none := by
  rw [literal, if_neg]
  intro hprefix
  obtain ⟨t, ht⟩ := List.isPrefixOf_iff_prefix.mp hprefix
  apply h
  have hleft : (k ++ t).take (min k.length l.length) = k.take l.length := by
    rw [List.take_append_of_le_length (Nat.min_le_left _ _), ← List.take_take,
      List.take_of_length_le (by simp)]
  have hright : (l ++ s).take (min k.length l.length) = l.take k.length := by
    rw [List.take_append_of_le_length (Nat.min_le_right _ _), Nat.min_comm, ← List.take_take,
      List.take_of_length_le (by simp)]
  rw [← hleft, ht, hright]

/-- `OBJECT\s+IDENTIFIER` does not match a word that goes on after `OBJECT`. -/
theorem objectIdentifier_eq_none {s : List Char} (hs : Stops isSpace s) :
    ((literal "OBJECT".toList ("OBJECT".toList ++ s)).bind spaces).bind
      (literal "IDENTIFIER".toList) = none := by
  rw [literal_append, Option.bind_some, spaces_of_stops hs, Option.bind_none]

theorem stops_keyword (k : Keyword) (s : List Char) : Stops isSpace (cleaned k.chunks ++ s) := by
  cases k with
  | objectIdentifier gap =>
    rw [Keyword.chunks, cleaned_append, cleaned_append, cleaned_codes, List.append_assoc,
      List.append_assoc]
    exact stops_text (by decide) (by decide)
  | objectType | moduleIdentity | objectIdentity | objectGroup | notificationType =>
    rw [Keyword.chunks, cleaned_codes]
    exact stops_text (by decide) (by decide)

theorem macroKeyword_append {k : Keyword} {s : List Char} (hplain : k.plain = true)
    (hgap : ∀ gap, k = .objectIdentifier gap → Assignment.fillers gap = true)
    (hends : wordEnds s = true) : macroKeyword (cleaned k.chunks ++ s) = some s := by
  have hfound : (some s).filter wordEnds = some s := by simp [hends]
  have hhyphen : ∀ word : List Char, Stops isSpace ('-' :: word) := by
    rintro word c hc
    obtain rfl : '-' = c := Option.some.inj hc
    decide
  cases k with
  | objectType =>
    rw [Keyword.chunks, cleaned_codes]
    simp only [macroKeyword, macros, List.findSome?_cons, literal_append, hfound]
  | objectIdentifier gap =>
    have hne : cleaned gap ≠ [] := by simpa [Keyword.plain] using hplain
    have hblank : ∀ c ∈ cleaned gap, isSpace c = true := fun c hc =>
      isSpace_of_fillers (hgap gap rfl) hc
    obtain ⟨b, w, hw⟩ := List.exists_cons_of_ne_nil hne
    have hb : b ≠ '-' := by
      rintro rfl
      have hspace := hblank '-' (by rw [hw]; exact List.mem_cons_self)
      exact absurd hspace (by decide)
    have htype : literal "OBJECT-TYPE".toList
        ("OBJECT".toList ++ (cleaned gap ++ ("IDENTIFIER".toList ++ s))) = none := by
      have hsplit : "OBJECT".toList ++ (cleaned gap ++ ("IDENTIFIER".toList ++ s))
          = ("OBJECT".toList ++ [b]) ++ (w ++ ("IDENTIFIER".toList ++ s)) := by rw [hw]; simp
      rw [hsplit]
      refine literal_eq_none (fun htake => hb ?_) _
      have hseven : "OBJECT-".toList = "OBJECT".toList ++ [b] := htake
      have hlast := congrArg List.getLast? hseven
      rw [List.getLast?_concat] at hlast
      exact (Option.some.inj hlast).symm
    have hword : Stops isSpace ("IDENTIFIER".toList ++ s) := stops_text (by decide) (by decide)
    rw [Keyword.chunks, cleaned_append, cleaned_append, cleaned_codes, cleaned_codes,
      List.append_assoc, List.append_assoc]
    simp only [macroKeyword, macros, List.findSome?_cons, htype, Option.filter_none,
      literal_append, Option.bind_some, spaces_append hne hblank hword, hfound]
  | moduleIdentity =>
    rw [Keyword.chunks, cleaned_codes]
    simp only [macroKeyword, macros, List.findSome?_cons, literal_append, hfound,
      literal_eq_none (k := "OBJECT-TYPE".toList) (l := "MODULE-IDENTITY".toList) (by decide),
      literal_eq_none (k := "OBJECT".toList) (l := "MODULE-IDENTITY".toList) (by decide),
      Option.filter_none, Option.bind_none]
  | objectIdentity =>
    rw [Keyword.chunks, cleaned_codes]
    have hobject : ((literal "OBJECT".toList ("OBJECT-IDENTITY".toList ++ s)).bind spaces).bind
        (literal "IDENTIFIER".toList) = none :=
      objectIdentifier_eq_none (hhyphen ("IDENTITY".toList ++ s))
    simp only [macroKeyword, macros, List.findSome?_cons, literal_append, hfound, hobject,
      literal_eq_none (k := "OBJECT-TYPE".toList) (l := "OBJECT-IDENTITY".toList) (by decide),
      literal_eq_none (k := "MODULE-IDENTITY".toList) (l := "OBJECT-IDENTITY".toList) (by decide),
      Option.filter_none]
  | objectGroup =>
    rw [Keyword.chunks, cleaned_codes]
    have hobject : ((literal "OBJECT".toList ("OBJECT-GROUP".toList ++ s)).bind spaces).bind
        (literal "IDENTIFIER".toList) = none :=
      objectIdentifier_eq_none (hhyphen ("GROUP".toList ++ s))
    simp only [macroKeyword, macros, List.findSome?_cons, literal_append, hfound, hobject,
      literal_eq_none (k := "OBJECT-TYPE".toList) (l := "OBJECT-GROUP".toList) (by decide),
      literal_eq_none (k := "MODULE-IDENTITY".toList) (l := "OBJECT-GROUP".toList) (by decide),
      literal_eq_none (k := "OBJECT-IDENTITY".toList) (l := "OBJECT-GROUP".toList) (by decide),
      Option.filter_none]
  | notificationType =>
    rw [Keyword.chunks, cleaned_codes]
    simp only [macroKeyword, macros, List.findSome?_cons, literal_append, hfound,
      literal_eq_none (k := "OBJECT-TYPE".toList) (l := "NOTIFICATION-TYPE".toList) (by decide),
      literal_eq_none (k := "OBJECT".toList) (l := "NOTIFICATION-TYPE".toList) (by decide),
      literal_eq_none (k := "MODULE-IDENTITY".toList) (l := "NOTIFICATION-TYPE".toList) (by decide),
      literal_eq_none (k := "OBJECT-IDENTITY".toList) (l := "NOTIFICATION-TYPE".toList) (by decide),
      literal_eq_none (k := "OBJECT-GROUP".toList) (l := "NOTIFICATION-TYPE".toList) (by decide),
      Option.filter_none, Option.bind_none]

/-! ### Matches -/

theorem Assignment.Proper.name_ne {a : Assignment} (h : a.Proper) : a.name ≠ [] := by
  rintro hnil
  have halpha := h.name_alpha
  rw [hnil] at halpha
  cases halpha

theorem notMem_braces {a : Assignment} (h : a.Proper) : '\x7d' ∉ cleaned a.braces := by
  have hspace : ∀ cs : List Chunk, Assignment.fillers cs = true → '\x7d' ∉ cleaned cs := by
    intro cs hcs hmem
    exact absurd (isSpace_of_fillers hcs hmem) (by decide)
  rw [Assignment.braces, cleaned_append, List.mem_append]
  rintro (hmem | hmem)
  · obtain ⟨chunk, hchunk, hmem⟩ := List.mem_flatMap.mp hmem
    obtain ⟨v, hv, hchunk⟩ := List.mem_flatMap.mp hchunk
    obtain ⟨hgap, -, htoken⟩ := h.value v hv
    have hpart : '\x7d' ∈ cleaned (v.1 ++ codes v.2) := List.mem_flatMap.mpr ⟨chunk, hchunk, hmem⟩
    rw [cleaned_append, cleaned_codes, List.mem_append] at hpart
    rcases hpart with hpart | hpart
    · exact hspace _ hgap hpart
    · exact (htoken _ hpart).2 rfl
  · exact hspace _ h.afterValue hmem

theorem assignedValue_append {w v rest : List Char} (hw : ∀ c ∈ w, isSpace c = true)
    (hv : '\x7d' ∉ v) :
    assignedValue ("::=".toList ++ (w ++ '\x7b' :: (v ++ '\x7d' :: rest))) = some (v, rest) := by
  have hopen : Stops isSpace ('\x7b' :: (v ++ '\x7d' :: rest)) := by
    rintro c hc
    obtain rfl : '\x7b' = c := Option.some.inj hc
    decide
  have hclose : Stops (· != '\x7d') ('\x7d' :: rest) := by
    rintro c hc
    obtain rfl : '\x7d' = c := Option.some.inj hc
    decide
  have hinside : ∀ c ∈ v, (c != '\x7d') = true := by
    intro c hc
    simp only [bne_iff_ne]
    rintro rfl
    exact hv hc
  rw [assignedValue, literal_append, Option.map_some, dropWhile_append hw hopen]
  simp only [dropWhile_append hinside hclose, takeWhile_append hinside hclose]

/-- The body ends with the first value. -/
theorem lazyBody_append {body value braces rest : List Char}
    (hquiet : quiet (fun s => (assignedValue s).isSome) body value = true)
    (hvalue : assignedValue value = some (braces, rest)) :
    lazyBody (body ++ value) = some (body, braces, rest) := by
  induction body with
  | nil =>
    cases value with
    | nil => cases hvalue
    | cons c s => rw [List.nil_append, lazyBody, hvalue]
  | cons c body ih =>
    rw [quiet, Bool.and_eq_true, Bool.not_eq_true', Option.isSome_eq_false_iff,
      Option.isNone_iff_eq_none] at hquiet
    rw [List.cons_append, lazyBody]
    rw [List.cons_append] at hquiet
    rw [hquiet.1, ih hquiet.2]
    rfl

/-- The expression matches an assignment as a whole. -/
theorem matchAt_assignment {a : Assignment} {rest : List Char} (h : a.Proper)
    (hplain : a.plain rest = true) :
    matchAt (cleaned a.chunks ++ rest)
      = some (⟨a.name, cleaned a.body, cleaned a.braces⟩, cleaned a.after ++ rest) := by
  simp only [Assignment.plain, Bool.and_eq_true, decide_eq_true_eq] at hplain
  obtain ⟨⟨⟨⟨⟨⟨hblank, hkeyword⟩, hends⟩, hquiet⟩, -⟩, -⟩, -⟩ := hplain
  have htext : cleaned a.chunks ++ rest = a.name ++ (cleaned a.afterName ++
      (cleaned a.keyword.chunks ++ (cleaned a.body ++ a.valueText rest))) := by
    simp only [Assignment.chunks, Assignment.valueText, cleaned_append, cleaned_codes,
      List.append_assoc, List.cons_append, List.nil_append]
  have hspace : ∀ c ∈ cleaned a.afterName, isSpace c = true := fun c hc =>
    isSpace_of_fillers h.afterName hc
  have hname : ∀ c ∈ a.name, isNameChar c = true := List.all_eq_true.mp h.name_chars
  have hne := h.name_ne
  have hafter : Stops isNameChar (cleaned a.afterName ++
      (cleaned a.keyword.chunks ++ (cleaned a.body ++ a.valueText rest))) :=
    stops_append hblank (fun c hc => isNameChar_of_isSpace (hspace c hc))
  have hhead : ((a.name ++ (cleaned a.afterName ++
      (cleaned a.keyword.chunks ++ (cleaned a.body ++ a.valueText rest)))).head?.map
        Char.isAlpha).getD false = true := by
    rw [List.head?_append_of_ne_nil _ hne]
    exact h.name_alpha
  have hvalue : assignedValue (a.valueText rest)
      = some (cleaned a.braces, cleaned a.after ++ rest) :=
    assignedValue_append (fun c hc => isSpace_of_fillers h.afterBecomes hc) (notMem_braces h)
  rw [htext, matchAt, if_pos hhead, dropWhile_append hname hafter, takeWhile_append hname hafter,
    spaces_append hblank hspace (stops_keyword _ _), Option.bind_some,
    macroKeyword_append hkeyword h.keyword hends, Option.bind_some, lazyBody_append hquiet hvalue]
  rfl

/-- The match of an assignment. -/
def Assignment.matched (a : Assignment) : Match := ⟨a.name, cleaned a.body, cleaned a.braces⟩

theorem quiet_blanks {w rest : List Char} (hw : ∀ c ∈ w, isSpace c = true) :
    quiet (fun s => (matchAt s).isSome) w rest = true := by
  induction w with
  | nil => rfl
  | cons c w ih =>
    rw [List.forall_mem_cons] at hw
    have halpha : c.isAlpha = false := by
      refine Bool.eq_false_iff.mpr (fun halpha => ?_)
      rw [JsText.isSpace_of_isAlpha halpha] at hw
      cases hw.1
    have hnone : matchAt (c :: w ++ rest) = none := by
      rw [List.cons_append, matchAt, if_neg]
      simp [halpha]
    rw [quiet, hnone, ih hw.2]
    rfl

theorem matchAll_nil (fuel : ℕ) : matchAll fuel [] = [] := by
  cases fuel <;> rfl

/-- `matchAll` goes over a text in which nothing matches. -/
theorem matchAll_quiet {t rest : List Char} {fuel : ℕ}
    (hquiet : quiet (fun s => (matchAt s).isSome) t rest = true)
    (hfuel : (t ++ rest).length ≤ fuel) :
    ∃ left, rest.length ≤ left ∧ matchAll fuel (t ++ rest) = matchAll left rest := by
  induction t generalizing fuel with
  | nil => exact ⟨fuel, hfuel, rfl⟩
  | cons c t ih =>
    rw [quiet, Bool.and_eq_true, Bool.not_eq_true', Option.isSome_eq_false_iff,
      Option.isNone_iff_eq_none] at hquiet
    rw [List.cons_append, List.length_cons] at hfuel
    obtain ⟨fuel, rfl⟩ := Nat.exists_eq_succ_of_ne_zero (n := fuel) (by omega)
    have hshorter : (t ++ rest).length ≤ fuel := by omega
    obtain ⟨left, hleft, hmatch⟩ := ih hquiet.2 hshorter
    refine ⟨left, hleft, ?_⟩
    rw [List.cons_append] at hquiet ⊢
    rw [matchAll, hquiet.1]
    exact hmatch

theorem matchAll_some {s rest : List Char} {m : Match} (h : matchAt s = some (m, rest))
    (fuel : ℕ) : matchAll (fuel + 1) s = m :: matchAll fuel rest := by
  cases s with
  | nil => cases h
  | cons c s => rw [matchAll, h]

theorem chunksFrom_cons (m : Module) (d : Definition) (ds : List Definition) :
    cleaned (m.chunksFrom (d :: ds)) = cleaned d.chunks ++ cleaned (m.chunksFrom ds) := by
  rw [Module.chunksFrom, List.flatMap_cons, List.append_assoc, cleaned_append]
  rfl

theorem matchAll_definitions {m : Module} {ds : List Definition}
    (hproper : ∀ a, .value a ∈ ds → a.Proper) (hplain : m.plainFrom ds = true) {fuel : ℕ}
    (hfuel : (cleaned (m.chunksFrom ds)).length ≤ fuel) :
    matchAll fuel (cleaned (m.chunksFrom ds))
      = (ds.filterMap Definition.assigned).map Assignment.matched := by
  induction ds generalizing fuel with
  | nil =>
    have htext : cleaned (m.chunksFrom []) = cleaned m.ending ++ [] := by
      rw [List.append_nil]
      rfl
    rw [htext] at hfuel ⊢
    obtain ⟨left, -, hmatch⟩ := matchAll_quiet hplain hfuel
    rw [hmatch, matchAll_nil]
    rfl
  | cons d ds ih =>
    have hrest : ∀ a, .value a ∈ ds → a.Proper := fun a ha =>
      hproper a (List.mem_cons_of_mem d ha)
    rw [chunksFrom_cons] at hfuel ⊢
    cases d with
    | type cs =>
      rw [Module.plainFrom, Bool.and_eq_true] at hplain
      obtain ⟨left, hleft, hmatch⟩ := matchAll_quiet hplain.1 hfuel
      exact hmatch.trans (ih hrest hplain.2 hleft)
    | value a =>
      rw [Module.plainFrom, Bool.and_eq_true] at hplain
      have ha := hproper a List.mem_cons_self
      have hmatch := matchAt_assignment ha hplain.1
      have hafter : quiet (fun s => (matchAt s).isSome) (cleaned a.after)
          (cleaned (m.chunksFrom ds)) = true :=
        quiet_blanks (fun c hc => isSpace_of_fillers ha.after hc)
      have hlength : (cleaned a.after ++ cleaned (m.chunksFrom ds)).length < fuel := by
        refine Nat.lt_of_lt_of_le ?_ hfuel
        have hname := List.length_pos_of_ne_nil ha.name_ne
        simp only [Definition.chunks, Assignment.chunks, cleaned_append, cleaned_codes,
          List.length_append]
        omega
      obtain ⟨fuel, rfl⟩ := Nat.exists_eq_succ_of_ne_zero (n := fuel) (by omega)
      obtain ⟨left, hleft, hskip⟩ := matchAll_quiet hafter (Nat.le_of_lt_succ hlength)
      show matchAll (fuel + 1) (cleaned a.chunks ++ cleaned (m.chunksFrom ds)) = _
      rw [matchAll_some hmatch, hskip, ih hrest hplain.2 hleft]
      rfl

/-! ### Tokens -/

theorem words_append_cons {c : Char} (hc : isSpace c = true) (s t : List Char) :
    words (s ++ c :: t) = words s ++ words t := by
  rw [words, List.splitOnP_append_cons s t hc, List.filter_append]
  rfl

theorem words_blanks {w : List Char} (hw : ∀ c ∈ w, isSpace c = true) : words w = [] := by
  induction w with
  | nil => rfl
  | cons c w ih =>
    rw [List.forall_mem_cons] at hw
    exact (words_append_cons hw.1 [] w).trans (ih hw.2)

theorem words_blanks_append {w : List Char} (hw : ∀ c ∈ w, isSpace c = true) (s : List Char) :
    words (w ++ s) = words s := by
  induction w with
  | nil => rfl
  | cons c w ih =>
    rw [List.forall_mem_cons] at hw
    exact (words_append_cons hw.1 [] (w ++ s)).trans (ih hw.2)

theorem words_append_blanks {w : List Char} (hw : ∀ c ∈ w, isSpace c = true) (s : List Char) :
    words (s ++ w) = words s := by
  cases w with
  | nil => rw [List.append_nil]
  | cons c w =>
    rw [List.forall_mem_cons] at hw
    rw [words_append_cons hw.1, words_blanks hw.2, List.append_nil]

theorem words_trimChars (s : List Char) : words (trimChars s) = words s := by
  have hfront : words (s.dropWhile isSpace) = words s := by
    conv_rhs => rw [← List.takeWhile_append_dropWhile (p := isSpace) (l := s)]
    exact (words_blanks_append (fun c hc => List.mem_takeWhile_imp hc) _).symm
  have hback : words ((s.dropWhile isSpace).rdropWhile isSpace) = words (s.dropWhile isSpace) := by
    conv_rhs => rw [← List.rdropWhile_append_rtakeWhile (p := isSpace) (l := s.dropWhile isSpace)]
    exact (words_append_blanks (fun c hc => List.mem_rtakeWhile_imp hc) _).symm
  exact hback.trans hfront

theorem words_token {t : List Char} (hne : t ≠ []) (ht : ∀ c ∈ t, isSpace c = false) :
    words t = [t] := by
  rw [words, List.splitOnP_eq_singleton ht, List.filter_singleton]
  simp [hne]

/-- Blanks between them make tokens of the words of a value. -/
theorem words_value {value : List (List Chunk × List Char)} {after : List Chunk}
    (hvalue : ∀ v ∈ value, Assignment.fillers v.1 = true ∧ v.2 ≠ [] ∧ ∀ c ∈ v.2, isSpace c = false)
    (hafter : Assignment.fillers after = true)
    (hblank : ∀ v ∈ value.tail, cleaned v.1 ≠ []) :
    words (cleaned (value.flatMap (fun v => v.1 ++ codes v.2) ++ after)) = value.map Prod.snd := by
  induction value with
  | nil => exact words_blanks (fun c hc => isSpace_of_fillers hafter hc)
  | cons v value ih =>
    rw [List.forall_mem_cons] at hvalue
    obtain ⟨⟨hgap, hne, htoken⟩, hvalue⟩ := hvalue
    have hrest := ih hvalue (fun u hu => hblank u (List.mem_of_mem_tail hu))
    rw [List.flatMap_cons, List.append_assoc, List.append_assoc, cleaned_append, cleaned_append,
      cleaned_codes, words_blanks_append (fun c hc => isSpace_of_fillers hgap hc), List.map_cons,
      ← hrest]
    -- What follows the token begins with a blank, or it is nothing.
    cases hfollow : cleaned (value.flatMap (fun v => v.1 ++ codes v.2) ++ after) with
    | nil =>
      rw [List.append_nil, words_token hne htoken]
      rfl
    | cons c s =>
      have hc : isSpace c = true := by
        cases value with
        | nil => exact isSpace_of_fillers hafter (by
            rw [List.flatMap_nil, List.nil_append] at hfollow
            rw [hfollow]
            exact List.mem_cons_self)
        | cons u value =>
          have hfirst := hblank u List.mem_cons_self
          obtain ⟨b, w, hw⟩ := List.exists_cons_of_ne_nil hfirst
          rw [List.flatMap_cons, List.append_assoc, List.append_assoc, cleaned_append,
            hw] at hfollow
          obtain ⟨rfl, -⟩ := List.cons.inj hfollow
          exact isSpace_of_fillers (hvalue u List.mem_cons_self).1 (by
            rw [hw]
            exact List.mem_cons_self)
      rw [words_append_cons hc, words_token hne htoken]
      exact congrArg (v.2 :: ·) (words_append_cons hc [] s).symm

/-! ### Clauses -/

theorem quoted_quiet {word t rest : List Char}
    (hquiet : quiet (fun s => (quotedAt word s).isSome) t rest = true) :
    quoted word (t ++ rest) = quoted word rest := by
  induction t with
  | nil => rfl
  | cons c t ih =>
    rw [quiet, Bool.and_eq_true, Bool.not_eq_true', Option.isSome_eq_false_iff,
      Option.isNone_iff_eq_none, List.cons_append] at hquiet
    rw [List.cons_append, quoted, hquiet.1, ih hquiet.2]
    rfl

theorem quotedAt_append {word w s rest : List Char} (hne : w ≠ [])
    (hw : ∀ c ∈ w, isSpace c = true) (hs : '"' ∉ s) :
    quotedAt word (word ++ (w ++ '"' :: (s ++ '"' :: rest))) = some s := by
  have hquote : Stops isSpace ('"' :: (s ++ '"' :: rest)) := by
    rintro c hc
    obtain rfl : '"' = c := Option.some.inj hc
    decide
  have hclose : Stops (· != '"') ('"' :: rest) := by
    rintro c hc
    obtain rfl : '"' = c := Option.some.inj hc
    decide
  have hinside : ∀ c ∈ s, (c != '"') = true := by
    intro c hc
    simp only [bne_iff_ne]
    rintro rfl
    exact hs hc
  rw [quotedAt, literal_append, Option.bind_some, spaces_append hne hw hquote]
  simp only [takeWhile_append hinside hclose]
  exact if_pos (List.mem_append_right s List.mem_cons_self)

theorem quoted_of_quotedAt {word s t : List Char} (h : quotedAt word s = some t) :
    quoted word s = some t := by
  cases s with
  | nil =>
    cases word with
    | nil => cases h
    | cons c word => cases h
  | cons c s => rw [quoted, h, Option.some_or]

theorem quotes_eq_some {c : Clause} {word s : List Char} {gap : List Chunk}
    (h : c.quotes word = some (gap, s)) : c = .quoting word gap s := by
  cases c with
  | quoting word' gap' s' =>
    rw [Clause.quotes] at h
    split at h
    · rename_i hword
      obtain ⟨rfl, rfl⟩ := Prod.mk.inj (Option.some.inj h)
      rw [hword]
    · cases h
  | other cs => cases h

/-- The string of a clause is found. -/
theorem quoted_clauses {word : List Char} {clauses : List Clause}
    (hproper : ∀ word gap s, .quoting word gap s ∈ clauses →
      Assignment.fillers gap = true ∧ '"' ∉ s)
    (hfind : findable word clauses = true) :
    quoted word (cleaned (clauses.flatMap Clause.chunks))
      = clauses.findSome? fun c => (c.quotes word).map Prod.snd := by
  induction clauses with
  | nil => rfl
  | cons c clauses ih =>
    rw [List.flatMap_cons, cleaned_append, List.findSome?_cons]
    rw [findable] at hfind
    cases hquotes : c.quotes word with
    | none =>
      rw [hquotes] at hfind
      dsimp only at hfind
      rw [Bool.and_eq_true] at hfind
      rw [quoted_quiet hfind.1, ih (fun word gap s hs =>
        hproper word gap s (List.mem_cons_of_mem c hs)) hfind.2]
      rfl
    | some found =>
      obtain ⟨gap, s⟩ := found
      obtain rfl := quotes_eq_some hquotes
      rw [hquotes] at hfind
      obtain ⟨hgap, hs⟩ := hproper word gap s List.mem_cons_self
      have hne : cleaned gap ≠ [] := of_decide_eq_true hfind
      have htext : cleaned (Clause.quoting word gap s).chunks
            ++ cleaned (clauses.flatMap Clause.chunks)
          = word ++ (cleaned gap ++ '"' :: (s ++ '"' ::
              cleaned (clauses.flatMap Clause.chunks))) := by
        have hstr : cleaned [Chunk.str s] = '"' :: (s ++ ['"']) := List.append_nil _
        rw [Clause.chunks, cleaned_append, cleaned_append, cleaned_codes, hstr]
        simp
      rw [htext]
      exact quoted_of_quotedAt
        (quotedAt_append hne (fun c hc => isSpace_of_fillers hgap hc) hs)

/-! ### What is read -/

/-- A match says what the assignment says. -/
theorem raw_matched {a : Assignment} {rest : List Char} (h : a.Proper)
    (hplain : a.plain rest = true) : a.matched.raw = some a.raw := by
  simp only [Assignment.plain, Bool.and_eq_true, decide_eq_true_eq] at hplain
  obtain ⟨⟨⟨⟨⟨⟨-, -⟩, -⟩, -⟩, hunits⟩, hdescription⟩, hblank⟩ := hplain
  have htokens : words (trimChars (cleaned a.braces)) = a.value.map Prod.snd := by
    rw [words_trimChars]
    refine words_value (fun v hv => ?_) h.afterValue (fun v hv => ?_)
    · obtain ⟨hgap, hne, htoken⟩ := h.value v hv
      exact ⟨hgap, hne, fun c hc => (htoken c hc).1⟩
    · exact of_decide_eq_true (List.all_eq_true.mp hblank v hv)
  have hne : trimChars (cleaned a.braces) ≠ [] := by
    intro hnil
    rw [hnil] at htokens
    exact h.value_ne (List.map_eq_nil_iff.mp htokens.symm)
  have hunit : quoted "UNITS".toList (cleaned a.body) = a.clause "UNITS" :=
    quoted_clauses h.clauses hunits
  have htext : quoted "DESCRIPTION".toList (cleaned a.body) = a.clause "DESCRIPTION" :=
    quoted_clauses h.clauses hdescription
  show (if trimChars (cleaned a.braces) = [] then none else some (Raw.mk (String.ofList a.name)
    ((words (trimChars (cleaned a.braces))).map String.ofList)
    ((quoted "UNITS".toList (cleaned a.body)).map String.ofList)
    ((quoted "DESCRIPTION".toList (cleaned a.body)).map describe))) = some a.raw
  rw [if_neg hne, htokens, hunit, htext, List.map_map]
  rfl

theorem plain_of_plainFrom {m : Module} {ds : List Definition} (h : m.plainFrom ds = true)
    {a : Assignment} (ha : .value a ∈ ds) : ∃ rest, a.plain rest = true := by
  induction ds with
  | nil => exact absurd ha List.not_mem_nil
  | cons d ds ih =>
    cases d with
    | type cs =>
      rw [Module.plainFrom, Bool.and_eq_true] at h
      rcases List.mem_cons.mp ha with heq | ha
      · cases heq
      · exact ih h.2 ha
    | value b =>
      rw [Module.plainFrom, Bool.and_eq_true] at h
      rcases List.mem_cons.mp ha with heq | ha
      · obtain rfl : a = b := Definition.value.inj heq
        exact ⟨_, h.1⟩
      · exact ih h.2 ha

/-- The module is written as the syntax has it. -/
structure Module.Proper (m : Module) : Prop where
  lexed : Lexed m.chunks
  assignments : ∀ a, .value a ∈ m.definitions → a.Proper

theorem value_mem_of_mem_assignments {m : Module} {a : Assignment} (h : a ∈ m.assignments) :
    .value a ∈ m.definitions := by
  obtain ⟨d, hd, hassigned⟩ := List.mem_filterMap.mp h
  cases d with
  | type cs => cases hassigned
  | value b =>
    obtain rfl : b = a := Option.some.inj hassigned
    exact hd

/-- `parseMib` reads one raw definition for each assignment of a value, and nothing else. -/
theorem rawsOf_text {m : Module} (h : m.Proper) (hplain : m.plain = true) :
    rawsOf m.text = m.raws := by
  rw [Module.plain, Bool.and_eq_true] at hplain
  have hclean : stripComments m.text.toList
      = cleaned m.header ++ cleaned (m.chunksFrom m.definitions) := by
    rw [Module.text, String.toList_ofList, stripComments_written h.lexed, Module.chunks,
      cleaned_append]
  obtain ⟨left, hleft, hskip⟩ := matchAll_quiet hplain.1 le_rfl
  rw [rawsOf, hclean, hskip, matchAll_definitions h.assignments hplain.2 hleft,
    List.filterMap_map, Module.raws, Module.assignments, ← List.filterMap_eq_map]
  refine List.filterMap_congr (fun a ha => ?_)
  have hd := value_mem_of_mem_assignments ha
  obtain ⟨rest, hrest⟩ := plain_of_plainFrom hplain.2 hd
  exact raw_matched (h.assignments a hd) hrest

/-- An object for every resolved definition, if no two have the same identifier. -/
theorem mem_objectsOf_iff {map : String → Option Oid} {raws : List Raw}
    (hoids : ((raws.filterMap (objectOf map)).map MibObject.oid).Nodup) {o : MibObject} :
    o ∈ objectsOf map raws ↔ ∃ r ∈ raws, objectOf map r = some o := by
  constructor
  · exact mem_objectsOf
  · intro ho
    have hmem := List.mem_filterMap.mpr ho
    have hwf : Fields.WF ((raws.filterMap (objectOf map)).map fun o => (o.oid, o)) := by
      rw [Fields.WF, List.map_map]
      exact hoids
    have hfields : objectsOf map raws
        = (Fields.spread [] ((raws.filterMap (objectOf map)).map fun o => (o.oid, o))).map
            Prod.snd := by
      rw [objectsOf, Fields.spread, List.foldl_map]
    have hget := Fields.get_of_mem hwf (List.mem_map_of_mem hmem)
    rw [hfields]
    refine List.mem_map.mpr ⟨(o.oid, o), Fields.mem_of_get ?_, rfl⟩
    rw [Fields.get_spread _ hwf, hget]
    rfl

/-- The module is well formed: names of its own, and identifiers of its own. -/
structure Module.WellFormed (m : Module) : Prop extends m.Proper where
  names : (m.raws.map Raw.name).Nodup
  roots : ∀ r ∈ m.raws, base r.name = none
  oids : ∀ r ∈ m.raws, ∀ r' ∈ m.raws, ∀ oid oid', Expansion m.raws r.tokens oid →
    Expansion m.raws r'.tokens oid' → joinOid oid = joinOid oid' → r = r'

/-- `parseMib` returns an object for each assignment that is grounded, with what it says, and
    nothing else. -/
def Module.ReadRight (m : Module) : Prop :=
  ∃ parsed, parseMib m.text = some parsed ∧ (parsed.objects.map MibObject.name).Nodup ∧
    ∀ o, o ∈ parsed.objects ↔ ∃ a ∈ m.assignments, ∃ oid, Expansion m.raws a.tokens oid ∧
      o = ⟨joinOid oid, String.ofList a.name, (a.clause "UNITS").map String.ofList,
        (a.clause "DESCRIPTION").map describe⟩

/-- A well-formed module is read right if nothing in it misleads the expressions. -/
theorem parseMib_reads {m : Module} (h : m.WellFormed) (hplain : m.plain = true) :
    m.ReadRight := by
  obtain ⟨map, hmap⟩ := Option.isSome_iff_exists.mp (resolveAll_isSome m.raws)
  have hiff : ∀ r ∈ m.raws, ∀ oid,
      map r.name = some oid ↔ r.tokens ≠ [] ∧ Expansion m.raws r.tokens oid :=
    fun r hr oid => resolved_iff_expansion h.names h.roots hmap hr
  have hinj : ∀ r ∈ m.raws, ∀ r' ∈ m.raws, ∀ o o', objectOf map r = some o →
      objectOf map r' = some o' → o.oid = o'.oid → r = r' := by
    intro r hr r' hr' o o' ho ho' heq
    obtain ⟨oid, hoid, rfl⟩ := Option.map_eq_some_iff.mp ho
    obtain ⟨oid', hoid', rfl⟩ := Option.map_eq_some_iff.mp ho'
    exact h.oids r hr r' hr' oid oid' ((hiff r hr oid).mp hoid).2 ((hiff r' hr' oid').mp hoid').2
      heq
  have hoids : ((m.raws.filterMap (objectOf map)).map MibObject.oid).Nodup := by
    refine List.pairwise_map.mpr (List.pairwise_filterMap.mpr ?_)
    refine (h.names.of_map _).imp_of_mem (fun {r r'} hr hr' hne o ho o' ho' heq => ?_)
    exact hne (hinj r hr r' hr' o o' ho ho' heq)
  have hparsed : parseMib m.text = some ⟨objectsOf map m.raws, m.raws.length,
      (m.raws.filterMap (objectOf map)).length⟩ := by
    rw [parseMib, rawsOf_text h.toProper hplain]
    simp only [hmap, Option.map_some]
  refine ⟨_, hparsed, ?_, fun o => ?_⟩
  · have hobjects : (objectsOf map m.raws).Nodup := (nodup_objectsOf map m.raws).of_map _
    refine hobjects.map_on (fun o ho o' ho' hname => ?_)
    obtain ⟨r, hr, hobject⟩ := mem_objectsOf ho
    obtain ⟨r', hr', hobject'⟩ := mem_objectsOf ho'
    have hsame : r = r' := by
      obtain ⟨oid, -, rfl⟩ := Option.map_eq_some_iff.mp hobject
      obtain ⟨oid', -, rfl⟩ := Option.map_eq_some_iff.mp hobject'
      exact List.inj_on_of_nodup_map h.names hr hr' hname
    rw [hsame, hobject'] at hobject
    exact (Option.some.inj hobject).symm
  · rw [mem_objectsOf_iff hoids]
    constructor
    · rintro ⟨r, hr, hobject⟩
      obtain ⟨a, ha, rfl⟩ := List.mem_map.mp hr
      obtain ⟨oid, hoid, rfl⟩ := Option.map_eq_some_iff.mp hobject
      exact ⟨a, ha, oid, ((hiff _ hr oid).mp hoid).2, rfl⟩
    · rintro ⟨a, ha, oid, hexp, rfl⟩
      have hr : a.raw ∈ m.raws := List.mem_map_of_mem ha
      have hne : a.raw.tokens ≠ [] := fun hnil =>
        (h.assignments a (value_mem_of_mem_assignments ha)).value_ne (List.map_eq_nil_iff.mp hnil)
      refine ⟨a.raw, hr, ?_⟩
      rw [objectOf, (hiff _ hr oid).mpr ⟨hne, hexp⟩]
      rfl

namespace Sample

def fanClauses : List Clause :=
  [.other [.code ' '], .quoting "UNITS".toList [.code ' '] "rpm".toList, .other [.code '\n'],
    .quoting "DESCRIPTION".toList [.code ' '] "turns -- a  minute".toList, .other [.code '\n']]

/-- A definition with its clauses and a comment in its value. -/
def fanRpm : Assignment where
  name := "fanRpm".toList
  afterName := [.code ' ']
  keyword := .objectType
  clauses := fanClauses
  afterBecomes := [.code ' ']
  value :=
    [([.code ' '], "enterprises".toList),
      ([.code ' ', .comment " a \x7d ".toList true], "1".toList)]
  afterValue := [.code ' ']
  after := [.code '\n']

/-- A module with this list of imports. -/
def importing (imports : String) : Module where
  header := codes "M DEFINITIONS ::= BEGIN IMPORTS ".toList ++ codes imports.toList ++
    [.code ';', .comment " b OBJECT-TYPE ::= \x7b a 1 \x7d".toList false]
  definitions := [.value fanRpm]
  ending := codes "END".toList

theorem fanRpm_proper : fanRpm.Proper where
  name_alpha := by decide
  name_chars := by decide
  afterName := by decide
  keyword := nofun
  clauses := by
    intro word gap s hmem
    change .quoting word gap s ∈ fanClauses at hmem
    simp only [fanClauses, List.mem_cons, List.not_mem_nil, or_false, reduceCtorEq, false_or,
      Clause.quoting.injEq] at hmem
    rcases hmem with ⟨rfl, rfl, rfl⟩ | ⟨rfl, rfl, rfl⟩
    · decide
    · decide
  afterBecomes := by decide
  value_ne := by decide
  value := by
    intro v hv
    have hchars : v.2.all (fun c => !isSpace c && c != '\x7d') = true ∧
        Assignment.fillers v.1 = true ∧ v.2 ≠ [] := by
      rcases List.mem_pair.mp hv with rfl | rfl
      · decide
      · decide
    refine ⟨hchars.2.1, hchars.2.2, fun c hc => ?_⟩
    simpa using List.all_eq_true.mp hchars.1 c hc
  afterValue := by decide
  after := by decide

theorem importing_wellFormed {imports : String} (h : Lexed (importing imports).header) :
    (importing imports).WellFormed where
  lexed := by
    have hdefinition : Lexed (fanRpm.chunks ++ codes "END".toList) := by decide +kernel
    refine h.append (fun hlast => ?_) hdefinition
    have hcomment : (importing imports).header.getLast?
        = some (.comment " b OBJECT-TYPE ::= \x7b a 1 \x7d".toList false) :=
      List.getLast?_append_of_ne_nil _ (List.cons_ne_nil _ _)
    cases hcomment.symm.trans hlast
  assignments := by
    intro a ha
    obtain rfl := Definition.value.inj (List.mem_singleton.mp ha)
    exact fanRpm_proper
  names := List.nodup_singleton _
  roots := by
    intro r hr
    obtain rfl := List.mem_singleton.mp hr
    rfl
  oids := by
    intro r hr r' hr' _ _ _ _ _
    rw [List.mem_singleton.mp hr, List.mem_singleton.mp hr']

end Sample

open Sample in
theorem parseMib_reads_fan : (importing "a FROM B").ReadRight :=
  parseMib_reads (importing_wellFormed (by decide +kernel)) (by decide +kernel)

open Sample in
/-- A macro that is imported first is taken for that of a definition `IMPORTS`, which takes the
    place of the first definition. -/
theorem parseMib_misreads_imports : ¬ ∀ m : Module, m.WellFormed → m.ReadRight := by
  intro h
  obtain ⟨parsed, hparsed, -, hiff⟩ :=
    h (importing "OBJECT-TYPE FROM B")
      (importing_wellFormed (by decide +kernel))
  have hraws : (rawsOf (importing "OBJECT-TYPE FROM B").text).map Raw.name
      = ["IMPORTS"] := by
    rw [rawsOf, Module.text, String.toList_ofList]
    decide +kernel
  have hexp : Expansion (importing "OBJECT-TYPE FROM B").raws fanRpm.tokens
      ([.ofNat 1, .ofNat 3, .ofNat 6, .ofNat 1, .ofNat 4, .ofNat 1] ++ [.ofNat 1]) :=
    .root rfl rfl (.number rfl .nil)
  have hmem := (hiff _).mpr ⟨fanRpm, List.mem_singleton_self _, _, hexp, rfl⟩
  obtain ⟨map, hobjects⟩ := objects_of_parseMib hparsed
  rw [hobjects] at hmem
  obtain ⟨r, hr, hobject⟩ := mem_objectsOf hmem
  have hname : r.name = "IMPORTS" := by
    have hmapped := List.mem_map_of_mem (f := Raw.name) hr
    rw [hraws] at hmapped
    exact List.mem_singleton.mp hmapped
  obtain ⟨oid, -, heq⟩ := Option.map_eq_some_iff.mp hobject
  have hnames : "IMPORTS" = String.ofList fanRpm.name := by
    rw [← hname]
    exact congrArg MibObject.name heq
  exact absurd hnames (by decide)

end Argus.Mib
