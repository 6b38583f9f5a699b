import Mathlib.Data.List.Basic
import Mathlib.Data.String.Basic

/-!
# JSON texts

JSON values, the text that `JSON.stringify` gives for them, and the reader `JSON.parse`.

* `Json` — the values; an object is the list of its fields in the order they are listed in,
  and a number is its literal, so that no arithmetic enters.
* `Json.chars` — the text, without white space.
* `Json.parse` — the reader: white space between tokens, every escape of a string, the
  grammar of numbers, and the last one of several fields of one name.
* `Json.parse_stringify` — what is written is read back, for every value whose objects have
  no field twice (`Json.wf`), as those of a running program have.
-/

/-! ### Numbers -/

namespace JsonNumber

/-- The characters a number literal is made of. -/
def isNumberChar (c : Char) : Bool :=
  c.isDigit || c == '-' || c == '+' || c == '.' || c == 'e' || c == 'E'

def digits (cs : List Char) : Bool := !cs.isEmpty && cs.all Char.isDigit

/-- An optional exponent. -/
def exponent : List Char → Bool
  | [] => true
  | c :: '+' :: cs => (c == 'e' || c == 'E') && digits cs
  | c :: '-' :: cs => (c == 'e' || c == 'E') && digits cs
  | c :: cs => (c == 'e' || c == 'E') && digits cs

/-- An optional fraction, and what follows it. -/
def fraction : List Char → Bool
  | '.' :: cs => !(cs.takeWhile Char.isDigit).isEmpty && exponent (cs.dropWhile Char.isDigit)
  | cs => exponent cs

/-- A literal without its sign: no leading zero but a single one. -/
def unsigned : List Char → Bool
  | '0' :: cs => fraction cs
  | cs => !(cs.takeWhile Char.isDigit).isEmpty && fraction (cs.dropWhile Char.isDigit)

/-- The grammar of numbers. -/
def grammar : List Char → Bool
  | '-' :: cs => unsigned cs
  | cs => unsigned cs

/-- The first character of a literal is a digit or the sign. -/
def starts : List Char → Bool
  | [] => false
  | c :: _ => c.isDigit || c == '-'

def isNumber (cs : List Char) : Bool := cs.all isNumberChar && starts cs && grammar cs

end JsonNumber

/-- A number, as the literal it is written with. -/
structure JsonNumber where
  text : List Char
  valid : JsonNumber.isNumber text = true
deriving DecidableEq

/-! ### Values and their text -/

inductive Json
  | null
  | bool (b : Bool)
  | num (n : JsonNumber)
  | str (s : String)
  | arr (xs : List Json)
  | obj (fields : List (String × Json))

namespace Json

/-- A character inside a string. -/
def escape (c : Char) : List Char :=
  if c = '"' then ['\\', '"']
  else if c = '\\' then ['\\', '\\']
  else if c = '\n' then ['\\', 'n']
  else if c = '\r' then ['\\', 'r']
  else if c = '\t' then ['\\', 't']
  else if c.toNat = 8 then ['\\', 'b']
  else if c.toNat = 12 then ['\\', 'f']
  else if c.toNat < 32 then
    ['\\', 'u', '0', '0', Nat.digitChar (c.toNat / 16), Nat.digitChar (c.toNat % 16)]
  else [c]

/-- A string between its quotes. -/
def quote (cs : List Char) : List Char := '"' :: (cs.flatMap escape ++ ['"'])

mutual

/-- The text of a value. -/
def chars : Json → List Char
  | .null => ['n', 'u', 'l', 'l']
  | .bool true => ['t', 'r', 'u', 'e']
  | .bool false => ['f', 'a', 'l', 's', 'e']
  | .num n => n.text
  | .str s => quote s.toList
  | .arr [] => ['[', ']']
  | .arr (x :: xs) => '[' :: (x.chars ++ elemsTail xs)
  | .obj [] => ['{', '}']
  | .obj ((k, v) :: fs) => '{' :: (quote k.toList ++ ':' :: (v.chars ++ membersTail fs))

/-- The elements behind the first one of an array, and its end. -/
def elemsTail : List Json → List Char
  | [] => [']']
  | x :: xs => ',' :: (x.chars ++ elemsTail xs)

/-- The fields behind the first one of an object, and its end. -/
def membersTail : List (String × Json) → List Char
  | [] => ['}']
  | (k, v) :: fs => ',' :: (quote k.toList ++ ':' :: (v.chars ++ membersTail fs))

end

/-- `JSON.stringify`. -/
def stringify (j : Json) : String := String.ofList j.chars

/-- A field of an object. -/
def field (k : String) : Json → Option Json
  | .obj fs => fs.lookup k
  | _ => none

/-! ### Reading -/

def isSpace (c : Char) : Bool := c == ' ' || c == '\n' || c == '\r' || c == '\t'

def skip (cs : List Char) : List Char := cs.dropWhile isSpace

/-- The value of a hexadecimal digit. -/
def hexValue (c : Char) : Option ℕ :=
  if c.isDigit then some (c.toNat - 48)
  else if 'a'.toNat ≤ c.toNat ∧ c.toNat ≤ 'f'.toNat then some (c.toNat - 87)
  else if 'A'.toNat ≤ c.toNat ∧ c.toNat ≤ 'F'.toNat then some (c.toNat - 55)
  else none

/-- Four hexadecimal digits. -/
def hex4 (a b c d : Char) : Option ℕ := do
  let a ← hexValue a
  let b ← hexValue b
  let c ← hexValue c
  let d ← hexValue d
  return ((a * 16 + b) * 16 + c) * 16 + d

/-- The escapes of one character. -/
def unescape (c : Char) : Option Char :=
  if c = '"' ∨ c = '\\' ∨ c = '/' then some c
  else if c = 'n' then some '\n'
  else if c = 'r' then some '\r'
  else if c = 't' then some '\t'
  else if c = 'b' then some (Char.ofNat 8)
  else if c = 'f' then some (Char.ofNat 12)
  else none

/-- The rest of a string behind its opening quote, and what follows it.  A surrogate stands
    for a character only in a pair. -/
def parseString : List Char → Option (List Char × List Char)
  | [] => none
  | '"' :: r => some ([], r)
  | '\\' :: 'u' :: a :: b :: c :: d :: r =>
    match hex4 a b c d with
    | none => none
    | some u =>
      if u < 0xD800 ∨ 0xE000 ≤ u then
        (parseString r).map (fun p => (Char.ofNat u :: p.1, p.2))
      else
        match r with
        | '\\' :: 'u' :: a' :: b' :: c' :: d' :: r' =>
          match hex4 a' b' c' d' with
          | none => none
          | some v =>
            if u < 0xDC00 ∧ 0xDC00 ≤ v ∧ v < 0xE000 then
              (parseString r').map (fun p =>
                (Char.ofNat (0x10000 + (u - 0xD800) * 0x400 + (v - 0xDC00)) :: p.1, p.2))
            else none
        | _ => none
  | '\\' :: c :: r =>
    match unescape c with
    | some c' => (parseString r).map (fun p => (c' :: p.1, p.2))
    | none => none
  | c :: r => if c.toNat < 32 then none else (parseString r).map (fun p => (c :: p.1, p.2))

/-- The fields of an object from those of its text: of several with one name the last value
    counts, at the place of the first. -/
def setField (fs : List (String × Json)) (f : String × Json) : List (String × Json) :=
  if fs.any (fun g => g.1 == f.1) then fs.map (fun g => if g.1 == f.1 then f else g)
  else fs ++ [f]

def parseNumber (cs : List Char) : Option (Json × List Char) :=
  if h : JsonNumber.isNumber (cs.takeWhile JsonNumber.isNumberChar) = true then
    some (.num ⟨_, h⟩, cs.dropWhile JsonNumber.isNumberChar)
  else none

mutual

/-- A value and what follows it; the fuel bounds the nesting. -/
def parseValue : ℕ → List Char → Option (Json × List Char)
  | 0, _ => none
  | n + 1, cs =>
    match skip cs with
    | [] => none
    | c :: r =>
      if c = 'n' then
        match r with
        | 'u' :: 'l' :: 'l' :: r' => some (.null, r')
        | _ => none
      else if c = 't' then
        match r with
        | 'r' :: 'u' :: 'e' :: r' => some (.bool true, r')
        | _ => none
      else if c = 'f' then
        match r with
        | 'a' :: 'l' :: 's' :: 'e' :: r' => some (.bool false, r')
        | _ => none
      else if c = '"' then (parseString r).map (fun p => (.str (String.ofList p.1), p.2))
      else if c = '[' then
        if (skip r).head? = some ']' then some (.arr [], (skip r).tail)
        else (parseElems n r).map (fun p => (.arr p.1, p.2))
      else if c = '{' then
        if (skip r).head? = some '}' then some (.obj [], (skip r).tail)
        else (parseMembers n r).map (fun p => (.obj (p.1.foldl setField []), p.2))
      else parseNumber (c :: r)

/-- The elements of an array, up to its end. -/
def parseElems : ℕ → List Char → Option (List Json × List Char)
  | 0, _ => none
  | n + 1, cs =>
    match parseValue n cs with
    | none => none
    | some (x, r) =>
      match skip r with
      | [] => none
      | c :: r' =>
        if c = ',' then (parseElems n r').map (fun p => (x :: p.1, p.2))
        else if c = ']' then some ([x], r')
        else none

/-- The fields of an object, up to its end. -/
def parseMembers : ℕ → List Char → Option (List (String × Json) × List Char)
  | 0, _ => none
  | n + 1, cs =>
    match skip cs with
    | '"' :: r =>
      match parseString r with
      | none => none
      | some (k, r₁) =>
        match skip r₁ with
        | ':' :: r₂ =>
          match parseValue n r₂ with
          | none => none
          | some (v, r₃) =>
            match skip r₃ with
            | [] => none
            | c :: r' =>
              if c = ',' then
                (parseMembers n r').map (fun p => ((String.ofList k, v) :: p.1, p.2))
              else if c = '}' then some ([(String.ofList k, v)], r')
              else none
        | _ => none
    | _ => none

end

/-- `JSON.parse`; `none` is the `SyntaxError`. -/
def parse (s : String) : Option Json :=
  match parseValue (s.toList.length + 1) s.toList with
  | none => none
  | some (j, r) => if skip r = [] then some j else none

/-! ### Objects without repeated fields -/

mutual

/-- No object has two fields of one name. -/
def wf : Json → Bool
  | .arr xs => wfElems xs
  | .obj fs => decide ((fs.map Prod.fst).Nodup) && wfMembers fs
  | _ => true

def wfElems : List Json → Bool
  | [] => true
  | x :: xs => x.wf && wfElems xs

def wfMembers : List (String × Json) → Bool
  | [] => true
  | (_, v) :: fs => v.wf && wfMembers fs

end

theorem wfElems_eq (xs : List Json) : wfElems xs = xs.all wf := by
  induction xs with
  | nil => rw [wfElems]; rfl
  | cons x xs ih => rw [wfElems, ih, List.all_cons]

theorem wfMembers_eq (fs : List (String × Json)) : wfMembers fs = fs.all (fun f => f.2.wf) := by
  induction fs with
  | nil => rw [wfMembers]; rfl
  | cons f fs ih =>
    obtain ⟨k, v⟩ := f
    rw [wfMembers, ih, List.all_cons]

/-! ### Strings are read back -/

/-- A hexadecimal digit is read back. -/
theorem hexValue_digitChar : ∀ n < 16, hexValue (Nat.digitChar n) = some n := by decide

/-- A control character is read back from its escape. -/
theorem hex4_control {n : ℕ} (h : n < 256) :
    hex4 '0' '0' (Nat.digitChar (n / 16)) (Nat.digitChar (n % 16)) = some n := by
  have hzero : hexValue '0' = some 0 := by decide
  have hhigh := hexValue_digitChar (n / 16) (by omega)
  have hlow := hexValue_digitChar (n % 16) (by omega)
  have hsum : n / 16 * 16 + n % 16 = n := by omega
  simp [hex4, hzero, hhigh, hlow, hsum]

theorem ofNat_of_toNat {c : Char} {n : ℕ} (h : c.toNat = n) : Char.ofNat n = c := by
  rw [← h, Char.ofNat_toNat]

/-- A character is read back from what `escape` makes of it. -/
theorem parseString_escape (c : Char) (r : List Char) :
    parseString (escape c ++ r) = (parseString r).map (fun p => (c :: p.1, p.2)) := by
  unfold escape
  split_ifs with hquote hback hline hreturn htab hbackspace hfeed hcontrol
  · subst hquote
    simp [parseString, unescape]
  · subst hback
    simp [parseString, unescape]
  · subst hline
    simp [parseString, unescape]
  · subst hreturn
    simp [parseString, unescape]
  · subst htab
    simp [parseString, unescape]
  · obtain rfl := ofNat_of_toNat hbackspace
    simp [parseString, unescape]
  · obtain rfl := ofNat_of_toNat hfeed
    simp [parseString, unescape]
  · have hhex := hex4_control (n := c.toNat) (by omega)
    have hlt : c.toNat < 0xD800 := by omega
    simp only [List.cons_append, List.nil_append, parseString, hhex, hlt, true_or, if_true,
      Char.ofNat_toNat]
  · rw [List.singleton_append, parseString.eq_def]
    split <;> simp_all

/-- A string is read back up to its closing quote. -/
theorem parseString_quote (cs r : List Char) :
    parseString (cs.flatMap escape ++ '"' :: r) = some (cs, r) := by
  induction cs with
  | nil => simp [parseString]
  | cons c cs ih => rw [List.flatMap_cons, List.append_assoc, parseString_escape, ih]; rfl

/-! ### Numbers and first characters -/

/-- The text that follows a number does not continue it. -/
def Stops (r : List Char) : Prop := ∀ c ∈ r.head?, JsonNumber.isNumberChar c = false

theorem stops_cons {c : Char} {r : List Char} (h : JsonNumber.isNumberChar c = false) :
    Stops (c :: r) := by
  intro d hd
  obtain rfl : c = d := by simpa using hd
  exact h

theorem stops_elemsTail (xs : List Json) (r : List Char) : Stops (elemsTail xs ++ r) := by
  cases xs <;> exact stops_cons (by decide)

theorem stops_membersTail (fs : List (String × Json)) (r : List Char) :
    Stops (membersTail fs ++ r) := by
  cases fs <;> exact stops_cons (by decide)

theorem takeWhile_append_of_stops {p : Char → Bool} {cs r : List Char}
    (hall : ∀ c ∈ cs, p c = true) (hstop : ∀ c ∈ r.head?, p c = false) :
    (cs ++ r).takeWhile p = cs ∧ (cs ++ r).dropWhile p = r := by
  induction cs with
  | nil =>
    cases r with
    | nil => simp
    | cons c r => simp [hstop c (by simp)]
  | cons c cs ih =>
    obtain ⟨htake, hdrop⟩ := ih (fun d hd => hall d (List.mem_cons_of_mem c hd))
    simp [hall c List.mem_cons_self, htake, hdrop]

theorem parseNumber_text (n : JsonNumber) {r : List Char} (hr : Stops r) :
    parseNumber (n.text ++ r) = some (.num n, r) := by
  have hvalid := n.valid
  rw [JsonNumber.isNumber, Bool.and_eq_true, Bool.and_eq_true] at hvalid
  obtain ⟨htake, hdrop⟩ := takeWhile_append_of_stops (List.all_eq_true.mp hvalid.1.1) hr
  rw [parseNumber, dif_pos (by rw [htake]; exact n.valid), hdrop]
  simp only [htake]

/-- A number literal starts with a digit or the sign. -/
theorem number_cons (n : JsonNumber) :
    ∃ c cs, n.text = c :: cs ∧ (c.isDigit = true ∨ c = '-') := by
  have hvalid := n.valid
  rw [JsonNumber.isNumber, Bool.and_eq_true, Bool.and_eq_true] at hvalid
  cases htext : n.text with
  | nil => simp [htext, JsonNumber.starts] at hvalid
  | cons c cs =>
    refine ⟨c, cs, rfl, ?_⟩
    simpa [htext, JsonNumber.starts] using hvalid.1.2

/-- What starts a number starts nothing else. -/
theorem ne_of_number {c d : Char} (hc : c.isDigit = true ∨ c = '-') (hd : d.isDigit = false)
    (hne : d ≠ '-') : c ≠ d := by
  rintro rfl
  rcases hc with h | h
  · rw [h] at hd
    exact Bool.noConfusion hd
  · exact hne h

/-- A text starts with a character that is neither white space nor the end of an array. -/
theorem chars_cons (j : Json) :
    ∃ c cs, j.chars = c :: cs ∧ isSpace c = false ∧ c ≠ ']' := by
  cases j with
  | null => exact ⟨_, _, chars.eq_1, by decide, by decide⟩
  | bool b => cases b <;> exact ⟨_, _, by rw [chars], by decide, by decide⟩
  | num n =>
    obtain ⟨c, cs, htext, hc⟩ := number_cons n
    refine ⟨c, cs, by rw [chars, htext], ?_, ne_of_number hc (by decide) (by decide)⟩
    simp [isSpace, ne_of_number hc]
  | str s => exact ⟨_, _, by rw [chars, quote], by decide, by decide⟩
  | arr xs => cases xs <;> exact ⟨_, _, by rw [chars], by decide, by decide⟩
  | obj fs =>
    rcases fs with _ | ⟨⟨k, v⟩, fs⟩ <;> exact ⟨_, _, by rw [chars], by decide, by decide⟩

theorem skip_cons {c : Char} {cs : List Char} (h : isSpace c = false) :
    skip (c :: cs) = c :: cs := by
  rw [skip, List.dropWhile_cons_of_neg (by simp [h])]

theorem skip_chars (j : Json) (r : List Char) : skip (j.chars ++ r) = j.chars ++ r := by
  obtain ⟨c, cs, hcons, hspace, -⟩ := chars_cons j
  rw [hcons, List.cons_append, skip_cons hspace]

theorem skip_elemsTail (xs : List Json) (r : List Char) :
    skip (elemsTail xs ++ r) = elemsTail xs ++ r := by
  cases xs <;> exact skip_cons (by decide)

theorem skip_membersTail (fs : List (String × Json)) (r : List Char) :
    skip (membersTail fs ++ r) = membersTail fs ++ r := by
  rcases fs with _ | ⟨⟨k, v⟩, fs⟩ <;> exact skip_cons (by decide)

/-! ### Values are read back -/

/-- Fields of different names are collected as they stand. -/
theorem foldl_setField (fs : List (String × Json)) :
    ∀ (acc : List (String × Json)), ((acc ++ fs).map Prod.fst).Nodup →
      fs.foldl setField acc = acc ++ fs := by
  induction fs with
  | nil => simp
  | cons f fs ih =>
    intro acc hnodup
    have hnew : acc.any (fun g => g.1 == f.1) = false := by
      rw [List.any_eq_false]
      intro g hg heq
      rw [List.map_append, List.nodup_append] at hnodup
      exact hnodup.2.2 _ (List.mem_map_of_mem hg) f.1 (by simp) (by simpa using heq)
    have hstep : setField acc f = acc ++ [f] := by simp [setField, hnew]
    rw [List.foldl_cons, hstep, ih _ (by simpa using hnodup), List.append_assoc,
      List.singleton_append]

/-- The end of an array is not taken for the start of an element. -/
theorem head_skip_chars (j : Json) (r : List Char) : (skip (j.chars ++ r)).head? ≠ some ']' := by
  obtain ⟨c, cs, hcons, -, hne⟩ := chars_cons j
  rw [skip_chars, hcons]
  simpa using hne

/-- Values whose text fits the fuel are read back, whatever follows them. -/
def ReadsValues (n : ℕ) : Prop :=
  ∀ (j : Json) (r : List Char), j.wf = true → j.chars.length ≤ n → Stops r →
    parseValue n (j.chars ++ r) = some (j, r)

/-- So are the elements of an array. -/
def ReadsElems (n : ℕ) : Prop :=
  ∀ (x : Json) (xs : List Json) (r : List Char), x.wf = true → wfElems xs = true →
    x.chars.length + (elemsTail xs).length ≤ n →
    parseElems n (x.chars ++ (elemsTail xs ++ r)) = some (x :: xs, r)

/-- So are the fields of an object. -/
def ReadsMembers (n : ℕ) : Prop :=
  ∀ (k : String) (v : Json) (fs : List (String × Json)) (r : List Char),
    v.wf = true → wfMembers fs = true → v.chars.length + (membersTail fs).length ≤ n →
    parseMembers n (quote k.toList ++ ':' :: (v.chars ++ (membersTail fs ++ r))) =
      some ((k, v) :: fs, r)

theorem length_elemsTail_pos (xs : List Json) : 0 < (elemsTail xs).length := by
  cases xs <;> simp [elemsTail]

theorem length_membersTail_pos (fs : List (String × Json)) : 0 < (membersTail fs).length := by
  rcases fs with _ | ⟨⟨k, v⟩, fs⟩ <;> simp [membersTail]

theorem readsValues_succ {n : ℕ} (helems : ReadsElems n) (hmembers : ReadsMembers n) :
    ReadsValues (n + 1) := by
  intro j r hwf hfuel hr
  rw [parseValue, skip_chars]
  cases j with
  | null => simp [chars]
  | bool b => cases b <;> simp [chars]
  | num k =>
    obtain ⟨d, ds, htext, hd⟩ := number_cons k
    have hread := parseNumber_text k hr
    have hne : ∀ c : Char, c.isDigit = false → c ≠ '-' → d ≠ c := fun c => ne_of_number hd
    rw [htext, List.cons_append] at hread
    simp only [chars, htext, List.cons_append]
    rw [if_neg (hne 'n' (by decide) (by decide)), if_neg (hne 't' (by decide) (by decide)),
      if_neg (hne 'f' (by decide) (by decide)), if_neg (hne '"' (by decide) (by decide)),
      if_neg (hne '[' (by decide) (by decide)), if_neg (hne '{' (by decide) (by decide)), hread]
  | str s => simp [chars, quote, parseString_quote]
  | arr xs =>
    cases xs with
    | nil => simp [chars, skip_cons (show isSpace ']' = false by decide)]
    | cons x xs =>
      simp only [wf, wfElems, Bool.and_eq_true] at hwf
      simp only [chars, List.length_cons, List.length_append] at hfuel
      have hhead := head_skip_chars x (elemsTail xs ++ r)
      have hread := helems x xs r hwf.1 hwf.2 (by omega)
      simp [chars, hhead, hread]
  | obj fs =>
    rcases fs with _ | ⟨⟨k, v⟩, fs⟩
    · simp [chars, skip_cons (show isSpace '}' = false by decide)]
    · simp only [wf, wfMembers, Bool.and_eq_true, decide_eq_true_eq] at hwf
      simp only [chars, List.length_cons, List.length_append] at hfuel
      have hread := hmembers k v fs r hwf.2.1 hwf.2.2 (by omega)
      have hfields := foldl_setField ((k, v) :: fs) [] hwf.1
      have hhead (cs : List Char) : (skip (quote k.toList ++ cs)).head? = some '"' := by
        rw [quote, List.cons_append, skip_cons (by decide), List.head?_cons]
      simp [chars, hhead, hread, -List.foldl_cons, hfields]

theorem readsElems_succ {n : ℕ} (hvalues : ReadsValues n) (helems : ReadsElems n) :
    ReadsElems (n + 1) := by
  intro x xs r hx hxs hfuel
  have hpos := length_elemsTail_pos xs
  rw [parseElems, hvalues x (elemsTail xs ++ r) hx (by omega) (stops_elemsTail xs r)]
  simp only [skip_elemsTail]
  cases xs with
  | nil => simp [elemsTail]
  | cons y ys =>
    simp only [wfElems, Bool.and_eq_true] at hxs
    simp only [elemsTail, List.length_append, List.length_cons] at hfuel
    have hread := helems y ys r hxs.1 hxs.2 (by omega)
    simp [elemsTail, hread]

theorem readsMembers_succ {n : ℕ} (hvalues : ReadsValues n) (hmembers : ReadsMembers n) :
    ReadsMembers (n + 1) := by
  intro k v fs r hv hfs hfuel
  have hpos := length_membersTail_pos fs
  have hquote (cs : List Char) : skip ('"' :: cs) = '"' :: cs := skip_cons (by decide)
  have hcolon (cs : List Char) : skip (':' :: cs) = ':' :: cs := skip_cons (by decide)
  have hread := hvalues v (membersTail fs ++ r) hv (by omega) (stops_membersTail fs r)
  rw [parseMembers]
  simp only [quote, List.cons_append, List.append_assoc, List.nil_append, hquote,
    parseString_quote, hcolon, hread, skip_membersTail, String.ofList_toList]
  rcases fs with _ | ⟨⟨k', v'⟩, fs'⟩
  · simp [membersTail]
  · simp only [wfMembers, Bool.and_eq_true] at hfs
    simp only [membersTail, List.length_append, List.length_cons] at hfuel
    have htail := hmembers k' v' fs' r hfs.1 hfs.2 (by omega)
    simp [membersTail, htail]

theorem reads_zero : ReadsValues 0 ∧ ReadsElems 0 ∧ ReadsMembers 0 := by
  refine ⟨fun j r _ hfuel _ => ?_, fun x xs r _ _ hfuel => ?_, fun k v fs r _ _ hfuel => ?_⟩
  · obtain ⟨c, cs, hcons, -, -⟩ := chars_cons j
    simp [hcons] at hfuel
  · exact absurd hfuel (by have := length_elemsTail_pos xs; omega)
  · exact absurd hfuel (by have := length_membersTail_pos fs; omega)

/-- Everything is read back when the fuel is the length of the text. -/
theorem reads (n : ℕ) : ReadsValues n ∧ ReadsElems n ∧ ReadsMembers n := by
  induction n with
  | zero => exact reads_zero
  | succ n ih =>
    obtain ⟨hvalues, helems, hmembers⟩ := ih
    exact ⟨readsValues_succ helems hmembers, readsElems_succ hvalues helems,
      readsMembers_succ hvalues hmembers⟩

/-- What `stringify` writes, `parse` reads. -/
theorem parse_stringify {j : Json} (h : j.wf = true) : parse (stringify j) = some j := by
  have hstops : Stops [] := by simp [Stops]
  have hread := (reads (j.chars.length + 1)).1 j [] h (Nat.le_succ _) hstops
  rw [List.append_nil] at hread
  simp [parse, stringify, hread, skip]

/-! ### Texts by their parts -/

/-- Elements with a comma in front of every one but the first. -/
def separated {α : Type*} (body : α → List Char) : List α → List Char
  | [] => []
  | x :: xs => body x ++ xs.flatMap (fun x => ',' :: body x)

theorem separated_map {α β : Type*} (body : β → List Char) (f : α → β) (xs : List α) :
    separated body (xs.map f) = separated (body ∘ f) xs := by
  cases xs with
  | nil => rfl
  | cons x xs => simp [separated, List.flatMap_map]

theorem elemsTail_eq (xs : List Json) :
    elemsTail xs = xs.flatMap (fun x => ',' :: x.chars) ++ [']'] := by
  induction xs with
  | nil => rw [elemsTail]; rfl
  | cons x xs ih => simp [elemsTail, ih]

/-- An array, by its separated elements. -/
theorem chars_arr (xs : List Json) :
    (Json.arr xs).chars = '[' :: (separated chars xs ++ [']']) := by
  cases xs with
  | nil => rw [chars]; rfl
  | cons x xs => simp [chars, separated, elemsTail_eq]

/-- A field and its value. -/
def member (f : String × Json) : List Char := quote f.1.toList ++ ':' :: f.2.chars

theorem membersTail_eq (fs : List (String × Json)) :
    membersTail fs = fs.flatMap (fun f => ',' :: member f) ++ ['}'] := by
  induction fs with
  | nil => rw [membersTail]; rfl
  | cons f fs ih => obtain ⟨k, v⟩ := f; simp [membersTail, member, ih]

/-- An object, by its separated fields. -/
theorem chars_obj (fs : List (String × Json)) :
    (Json.obj fs).chars = '{' :: (separated member fs ++ ['}']) := by
  rcases fs with _ | ⟨⟨k, v⟩, fs⟩
  · rw [chars]; rfl
  · simp [chars, separated, member, membersTail_eq]

end Json
