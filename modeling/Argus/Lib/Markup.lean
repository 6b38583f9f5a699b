import Mathlib.Data.List.Basic

/-!
# Text inside markup

The three characters that mean something to a reader of markup, written as entities, and the
tokens such a reader finds.

* `text`, `element` — the writer.
* `read` — the reader, one character after the other.
* `read_text`, `read_element` — what is written as text comes back as its characters; an
  element comes back as its two tags with what is between them.
-/

namespace Markup

inductive Token
  | tag (name : List Char)
  | char (c : Char)
deriving DecidableEq, Repr

/-! ### The writer -/

def escape : Char → List Char
  | '&' => ['&', 'a', 'm', 'p', ';']
  | '<' => ['&', 'l', 't', ';']
  | '>' => ['&', 'g', 't', ';']
  | c => [c]

def text (s : List Char) : List Char := s.flatMap escape

def opening (name : List Char) : List Char := '<' :: name ++ ['>']

def closing (name : List Char) : List Char := '<' :: '/' :: name ++ ['>']

def element (name body : List Char) : List Char := opening name ++ body ++ closing name

/-! ### The reader -/

/-- Where the reader is, and what it has of a tag or of an entity. -/
inductive Mode
  | text
  | tag (name : List Char)
  | entity (name : List Char)
deriving DecidableEq, Repr

def entityChar : List Char → Option Char
  | ['a', 'm', 'p'] => some '&'
  | ['l', 't'] => some '<'
  | ['g', 't'] => some '>'
  | _ => none

def read : Mode → List Char → Option (List Token)
  | .text, [] => some []
  | _, [] => none
  | .text, c :: cs =>
    if c = '<' then read (.tag []) cs
    else if c = '&' then read (.entity []) cs
    else (read .text cs).map (.char c :: ·)
  | .tag name, c :: cs =>
    if c = '>' then (read .text cs).map (.tag name :: ·) else read (.tag (name ++ [c])) cs
  | .entity name, c :: cs =>
    if c = ';' then
      match entityChar name with
      | some e => (read .text cs).map (.char e :: ·)
      | none => none
    else read (.entity (name ++ [c])) cs

/-! ### What is written is read back -/

variable {rest : List Char} {tokens : List Token}

theorem escape_eq_self {c : Char} (hamp : c ≠ '&') (hlt : c ≠ '<') (hgt : c ≠ '>') :
    escape c = [c] := by
  unfold escape
  split
  · exact absurd rfl hamp
  · exact absurd rfl hlt
  · exact absurd rfl hgt
  · rfl

theorem read_escape (c : Char) (rest : List Char) :
    read .text (escape c ++ rest) = (read .text rest).map (.char c :: ·) := by
  by_cases hamp : c = '&'
  · subst hamp
    rfl
  · by_cases hlt : c = '<'
    · subst hlt
      rfl
    · by_cases hgt : c = '>'
      · subst hgt
        rfl
      · rw [escape_eq_self hamp hlt hgt, List.singleton_append, read, if_neg hlt, if_neg hamp]

/-- **Text.**  Whatever its characters are, they come back as characters. -/
theorem read_text (s : List Char) (h : read .text rest = some tokens) :
    read .text (text s ++ rest) = some (s.map Token.char ++ tokens) := by
  induction s with
  | nil => exact h
  | cons c s ih =>
    rw [text, List.flatMap_cons, List.append_assoc, read_escape]
    show Option.map _ (read .text (text s ++ rest)) = _
    rw [ih]
    rfl

theorem read_tag {name : List Char} (hname : '>' ∉ name) (acc rest : List Char) :
    read (.tag acc) (name ++ '>' :: rest)
      = (read .text rest).map (.tag (acc ++ name) :: ·) := by
  induction name generalizing acc with
  | nil => rw [List.nil_append, read, if_pos rfl, List.append_nil]
  | cons c name ih =>
    rw [List.mem_cons, not_or] at hname
    rw [List.cons_append, read, if_neg (Ne.symm hname.1), ih hname.2, List.append_assoc,
      List.singleton_append]

theorem read_opening {name : List Char} (hname : '>' ∉ name)
    (h : read .text rest = some tokens) :
    read .text (opening name ++ rest) = some (.tag name :: tokens) := by
  have hopening : opening name ++ rest = '<' :: (name ++ '>' :: rest) := by simp [opening]
  rw [hopening, read, if_pos rfl, read_tag hname, h]
  rfl

theorem read_closing {name : List Char} (hname : '>' ∉ name)
    (h : read .text rest = some tokens) :
    read .text (closing name ++ rest) = some (.tag ('/' :: name) :: tokens) :=
  read_opening (by simpa using hname) h

/-- What a piece of markup stands for, wherever it is put. -/
def Means (markup : List Char) (tokens : List Token) : Prop :=
  ∀ rest more, read .text rest = some more → read .text (markup ++ rest) = some (tokens ++ more)

theorem Means.read {markup : List Char} (h : Means markup tokens) :
    Markup.read .text markup = some tokens := by
  simpa using h [] [] rfl

theorem means_text (s : List Char) : Means (text s) (s.map .char) :=
  fun _ _ h => read_text s h

theorem Means.append {markup markup' : List Char} {tokens' : List Token}
    (h : Means markup tokens) (h' : Means markup' tokens') :
    Means (markup ++ markup') (tokens ++ tokens') := by
  intro rest more hrest
  rw [List.append_assoc, List.append_assoc]
  exact h _ _ (h' _ _ hrest)

/-- **Element.**  Its two tags, and between them what its body stands for. -/
theorem Means.element {name body : List Char} (hname : '>' ∉ name) (h : Means body tokens) :
    Means (element name body) (.tag name :: tokens ++ [.tag ('/' :: name)]) := by
  intro rest more hrest
  rw [Markup.element, List.append_assoc, List.append_assoc]
  have hclosing := h _ _ (read_closing hname hrest)
  rw [read_opening hname hclosing]
  simp

/-- A series of pieces. -/
theorem means_flatMap {α : Type} {f : α → List Char} {g : α → List Token}
    (h : ∀ a, Means (f a) (g a)) (as : List α) : Means (as.flatMap f) (as.flatMap g) := by
  induction as with
  | nil => exact fun _ _ h => h
  | cons a as ih => exact (h a).append ih

end Markup
