import Mathlib.Data.List.Basic

/-!
# Tables as comma-separated text

A writer that quotes the cells that need it, and a reader of such texts: cells separated by
commas, rows by CR LF, a quoted cell with its quotes doubled.

* `cell`, `line`, `write` — the writer.
* `read` — the reader, one character after the other; a CR is held back until the next
  character tells whether a row ends.
* `read_write` — what is written is read back.
-/

namespace Csv

/-! ### The writer -/

/-- A cell that may stand without quotes: none of the characters `"`, `,` and LF in it. -/
def plain (s : List Char) : Bool := s.all (fun c => c ≠ '"' && c ≠ ',' && c ≠ '\n')

/-- A character inside quotes. -/
def escape (c : Char) : List Char := if c = '"' then ['"', '"'] else [c]

def cell (s : List Char) : List Char :=
  if plain s then s else '"' :: (s.flatMap escape ++ ['"'])

def line (cells : List (List Char)) : List Char := [','].intercalate (cells.map cell)

def write (rows : List (List (List Char))) : List Char := ['\r', '\n'].intercalate (rows.map line)

/-! ### The reader -/

/-- Where the reader is in a cell. -/
inductive Mode
  | start
  | plain
  /-- After a CR in a cell without quotes. -/
  | cr
  | quoted
  /-- After a quote in a quoted cell. -/
  | closed
  /-- After a CR behind a quoted cell. -/
  | closedCr
deriving DecidableEq, Repr

/-- The rows of a text, from inside a row whose cells so far are `row`, in a cell whose
    characters so far are `cell`. -/
def read : Mode → List Char → List (List Char) → List Char → Option (List (List (List Char)))
  | .quoted, _, _, [] => none
  | .closedCr, _, _, [] => none
  | .cr, cell, row, [] => some [row ++ [cell ++ ['\r']]]
  | _, cell, row, [] => some [row ++ [cell]]
  | .quoted, cell, row, c :: cs =>
    if c = '"' then read .closed cell row cs else read .quoted (cell ++ [c]) row cs
  | .closed, cell, row, c :: cs =>
    if c = '"' then read .quoted (cell ++ ['"']) row cs
    else if c = ',' then read .start [] (row ++ [cell]) cs
    else if c = '\r' then read .closedCr cell row cs
    else none
  | .closedCr, cell, row, c :: cs =>
    if c = '\n' then (read .start [] [] cs).map ((row ++ [cell]) :: ·) else none
  | .cr, cell, row, c :: cs =>
    if c = '\n' then (read .start [] [] cs).map ((row ++ [cell]) :: ·)
    else if c = '\r' then read .cr (cell ++ ['\r']) row cs
    else if c = ',' then read .start [] (row ++ [cell ++ ['\r']]) cs
    else read .plain (cell ++ ['\r', c]) row cs
  | .plain, cell, row, c :: cs =>
    if c = ',' then read .start [] (row ++ [cell]) cs
    else if c = '\r' then read .cr cell row cs
    else read .plain (cell ++ [c]) row cs
  | .start, cell, row, c :: cs =>
    if c = '"' then read .quoted cell row cs
    else if c = ',' then read .start [] (row ++ [cell]) cs
    else if c = '\r' then read .cr cell row cs
    else read .plain (cell ++ [c]) row cs

/-! ### What is written is read back -/

/-- What may follow a cell. -/
inductive Ends : List Char → Prop
  | nil : Ends []
  | comma (cs : List Char) : Ends (',' :: cs)
  | row (cs : List Char) : Ends ('\r' :: '\n' :: cs)

variable {rest : List Char}

/-- At its start a cell without quotes is read like further on. -/
theorem read_start {cell : List Char} {row : List (List Char)} {c : Char} (hc : c ≠ '"')
    (cs : List Char) : read .start cell row (c :: cs) = read .plain cell row (c :: cs) := by
  rw [read, read, if_neg hc]

theorem read_start_ends (h : Ends rest) (cell : List Char) (row : List (List Char)) :
    read .start cell row rest = read .plain cell row rest := by
  cases h with
  | nil => rfl
  | comma cs => exact read_start (by decide) cs
  | row cs => exact read_start (by decide) _

/-- A CR held back belongs to the cell where another cell or the end follows, or another CR. -/
theorem read_cr_ends (h : Ends rest) (cell : List Char) (row : List (List Char)) :
    read .cr cell row rest = read .plain (cell ++ ['\r']) row rest := by
  cases h with
  | nil => rfl
  | comma cs => rfl
  | row cs => rfl

/-- The characters of a cell without quotes, also behind a CR. -/
theorem read_plain {s : List Char} (hs : plain s = true) (hrest : Ends rest) (acc : List Char)
    (row : List (List Char)) :
    read .plain acc row (s ++ rest) = read .plain (acc ++ s) row rest ∧
      read .cr acc row (s ++ rest) = read .plain (acc ++ '\r' :: s) row rest := by
  induction s generalizing acc with
  | nil => exact ⟨by simp, by simpa using read_cr_ends hrest acc row⟩
  | cons c s ih =>
    simp only [plain, List.all_cons, Bool.and_eq_true, decide_eq_true_eq] at hs
    obtain ⟨⟨⟨hquote, hcomma⟩, hlf⟩, hs⟩ := hs
    rw [List.cons_append]
    by_cases hcr : c = '\r'
    · subst hcr
      obtain ⟨-, hplain⟩ := ih hs acc
      obtain ⟨-, hcr⟩ := ih hs (acc ++ ['\r'])
      constructor
      · rw [read, if_neg (by decide), if_pos rfl, hplain]
      · rw [read, if_neg (by decide), if_pos rfl, hcr, List.append_assoc, List.singleton_append]
    · constructor
      · rw [read, if_neg hcomma, if_neg hcr, (ih hs (acc ++ [c])).1, List.append_assoc,
          List.singleton_append]
      · rw [read, if_neg hlf, if_neg hcr, if_neg hcomma, (ih hs (acc ++ ['\r', c])).1,
          List.append_assoc]
        rfl

/-- The characters of a quoted cell, up to the quote that closes it. -/
theorem read_quoted (s acc : List Char) (row : List (List Char)) (rest : List Char) :
    read .quoted acc row (s.flatMap escape ++ '"' :: rest) = read .closed (acc ++ s) row rest := by
  induction s generalizing acc with
  | nil => rw [List.flatMap_nil, List.nil_append, read, if_pos rfl, List.append_nil]
  | cons c s ih =>
    rw [List.flatMap_cons, List.append_assoc, escape]
    split
    · rename_i hc
      -- the doubled quote closes the cell and opens it again
      rw [List.cons_append, List.singleton_append, read, if_pos rfl, read, if_pos rfl, ih, hc,
        List.append_assoc, List.singleton_append]
    · rename_i hc
      rw [List.singleton_append, read, if_neg hc, ih, List.append_assoc, List.singleton_append]

theorem read_closed_ends (h : Ends rest) (cell : List Char) (row : List (List Char)) :
    read .closed cell row rest = read .plain cell row rest := by
  cases h with
  | nil => rfl
  | comma cs => rfl
  | row cs => rfl

/-- **A cell.**  Written, it is read back up to what follows. -/
theorem read_cell (s : List Char) (row : List (List Char)) (hrest : Ends rest) :
    read .start [] row (cell s ++ rest) = read .plain s row rest := by
  rw [cell]
  split
  · rename_i hs
    have hread := (read_plain hs hrest [] row).1
    rw [List.nil_append] at hread
    cases s with
    | nil => exact read_start_ends hrest [] row
    | cons c s =>
      have hquote : c ≠ '"' := by
        simp only [plain, List.all_cons, Bool.and_eq_true, decide_eq_true_eq] at hs
        exact hs.1.1.1
      rw [List.cons_append, read_start hquote, ← List.cons_append, hread]
  · rw [List.cons_append, read, if_pos rfl, List.append_assoc, List.singleton_append, read_quoted,
      List.nil_append, read_closed_ends hrest]

/-- A row, behind the cells `row`. -/
theorem read_line {cells : List (List Char)} (hne : cells ≠ []) (row : List (List Char))
    (hrest : rest = [] ∨ ∃ cs, rest = '\r' :: '\n' :: cs) :
    read .start [] row (line cells ++ rest) =
      match rest with
      | _ :: _ :: cs => (read .start [] [] cs).map ((row ++ cells) :: ·)
      | _ => some [row ++ cells] := by
  induction cells generalizing row with
  | nil => exact absurd rfl hne
  | cons s cells ih =>
    cases cells with
    | nil =>
      rw [line, List.map_singleton, List.intercalate_singleton]
      rcases hrest with rfl | ⟨cs, rfl⟩
      · rw [read_cell s row .nil]
        rfl
      · rw [read_cell s row (.row cs)]
        rfl
    | cons s' cells =>
      have hline : line (s :: s' :: cells) ++ rest
          = cell s ++ ',' :: (line (s' :: cells) ++ rest) := by
        simp [line, List.intercalate_cons_cons]
      rw [hline, read_cell s row (.comma _), read, if_pos rfl, ih (List.cons_ne_nil _ _)]
      rw [List.append_assoc, List.singleton_append]

/-- **Round trip.**  A table of at least one row, with at least one cell in each, is read back
    as it was written. -/
theorem read_write {rows : List (List (List Char))} (hne : rows ≠ [])
    (hcells : ∀ r ∈ rows, r ≠ []) :
    read .start [] [] (write rows) = some rows := by
  induction rows with
  | nil => exact absurd rfl hne
  | cons r rows ih =>
    rw [List.forall_mem_cons] at hcells
    cases rows with
    | nil =>
      have hline := read_line hcells.1 [] (Or.inl rfl)
      rw [List.append_nil] at hline
      rw [write, List.map_singleton, List.intercalate_singleton, hline]
      rfl
    | cons r' rows =>
      have hwrite : write (r :: r' :: rows) = line r ++ '\r' :: '\n' :: write (r' :: rows) := by
        simp [write, List.intercalate_cons_cons]
      rw [hwrite, read_line hcells.1 [] (Or.inr ⟨_, rfl⟩)]
      dsimp only
      rw [ih (List.cons_ne_nil _ _) hcells.2]
      rfl

end Csv
