import Argus.Lib.Segments
import Argus.Schedulers.Smb
import Mathlib.Algebra.BigOperators.Group.List.Basic
import Mathlib.Data.List.Infix
import Mathlib.Data.List.Nodup

namespace Argus.Schedulers

/-!
# Shares

What `smbclient` answers when it is asked for a directory, and how `parseDir` reads it.

* `entryRe`, `parseDir` — the lines of an `ls`.
* `Forest`, `Folder` — a directory with everything below it; `Folder.total` adds up over all of it
  but the system folders, and `Folder.within` lists what it adds up (`total_eq_sum_within`).
* `Share` — where `cd` leads, and what `ls` prints there.
* `relOf` — a path below a root, as the walk writes it; `ancestors_relOf` and `relOf_inj` say that
  it can be read back.
-/

/-! ### Listings -/

/-- `[DAHNRSET]`. -/
def isAttribute (c : Char) : Bool := ['D', 'A', 'H', 'N', 'R', 'S', 'E', 'T'].contains c

def weekdays : List (List Char) :=
  ["Sun", "Mon", "Tue", "Wed", "Thu", "Fri", "Sat"].map String.toList

/-- `\w`. -/
def isWordChar (c : Char) : Bool := c.isAlphanum || c == '_'

/-- The end of `ENTRY_RE`, after the name: attributes, size and the day of the week.  What follows
    a run of one class is of another, so there is one way to match it. -/
def entryTail (s : List Char) : Option (List Char × List Char) :=
  let s1 := s.dropWhile JsText.isSpace
  let s2 := s1.dropWhile isAttribute
  let s3 := s2.dropWhile JsText.isSpace
  let s4 := s3.dropWhile Char.isDigit
  let s5 := s4.dropWhile JsText.isSpace
  if s1 ≠ s ∧ s2 ≠ s1 ∧ s3 ≠ s2 ∧ s4 ≠ s3 ∧ s5 ≠ s4 ∧
      weekdays.any (fun d => d.isPrefixOf s5 && (s5.drop d.length).head?.all (!isWordChar ·)) then
    some (s1.takeWhile isAttribute, s3.takeWhile Char.isDigit)
  else none

/-- `ENTRY_RE`: name, attributes and size.  The blanks in front are as many as possible, the name
    is as short as possible. -/
def entryRe (line : List Char) : Option (List Char × List Char × List Char) :=
  let blanks := (line.takeWhile JsText.isSpace).length
  (List.range blanks).findSome? fun i =>
    let s := line.drop (blanks - i)
    (List.range s.length).findSome? fun n =>
      if (s.take (n + 1)).all (!isLineEnd ·) then
        (entryTail (s.drop (n + 1))).map fun tail => (s.take (n + 1), tail)
      else none

/-- Folders that a NAS or an operating system keeps for itself. -/
def isSystemFolder (name : String) : Bool :=
  (name.toList.head?.any fun c => c == '@' || c == '.') ||
    ["#recycle", "$RECYCLE.BIN", "System Volume Information", "lost+found"].contains name

/-- One line of `parseDir`. -/
def parseLine (l : DirListing) (line : List Char) : DirListing :=
  match entryRe line with
  | none => l
  | some (name, attributes, size) =>
    let name := String.ofList (JsText.trimChars name)
    if name = "." ∨ name = ".." then l
    else if attributes.contains 'D' then
      if isSystemFolder name then l else { l with dirs := l.dirs ++ [name] }
    else
      { l with
        fileBytes := l.fileBytes + Nat.ofDigitChars 10 size 0
        fileCount := l.fileCount + 1 }

def parseDir (out : String) : DirListing :=
  (out.toList.splitOn '\n').foldl parseLine ⟨[], 0, 0⟩

example :
    parseDir "  2024  D  0  Mon Jan\n  @Recycle  DH  0  Mon Jan\n  a b.txt  A  12  Tue Jan\n"
      = ⟨["2024"], 12, 1⟩ := by decide +kernel

/-! ### Folders -/

/-- The folders in a directory, each with the sizes of its files and the folders in it. -/
inductive Forest
  | nil
  | cons (name : String) (files : List ℕ) (inside rest : Forest)
deriving DecidableEq, Repr

/-- A directory: the sizes of its files, and its folders. -/
structure Folder where
  files : List ℕ
  dirs : Forest
deriving DecidableEq, Repr

namespace Forest

def entries : Forest → List (String × Folder)
  | nil => []
  | cons name files inside rest => (name, ⟨files, inside⟩) :: rest.entries

def names (f : Forest) : List String := f.entries.map (·.1)

/-- The sum over the folders and all that is in them, without the system folders. -/
def total (own : Folder → ℕ) : Forest → ℕ
  | nil => 0
  | cons name files inside rest =>
    (if isSystemFolder name then 0 else own ⟨files, inside⟩ + inside.total own) + rest.total own

/-- What it is the sum of. -/
def within : Forest → List (List String × Folder)
  | nil => []
  | cons name files inside rest =>
    (if isSystemFolder name then []
      else (([], ⟨files, inside⟩) :: inside.within).map fun e => (name :: e.1, e.2)) ++ rest.within

/-- What SMB takes for the name of a folder. -/
def ProperName (name : String) : Prop := name ≠ "" ∧ ∀ c ∈ name.toList, isSeparator c = false

instance (name : String) : Decidable (ProperName name) :=
  @instDecidableAnd _ _ inferInstance (List.decidableBAll _ _)

/-- No directory has two folders of one name. -/
def Proper : Forest → Prop
  | nil => True
  | cons name _ inside rest =>
    ProperName name ∧ name ∉ rest.names ∧ inside.Proper ∧ rest.Proper

end Forest

namespace Folder

variable (g : Folder)

/-- What `parseDir` is to read. -/
def listing : DirListing :=
  ⟨g.dirs.names.filter (!isSystemFolder ·), g.files.sum, g.files.length⟩

def total (own : Folder → ℕ) : ℕ := own g + g.dirs.total own

def within : List (List String × Folder) := ([], g) :: g.dirs.within

/-- The bytes of the whole folder. -/
def bytes : ℕ := g.total fun h => h.files.sum

/-- Its files. -/
def fileCount : ℕ := g.total fun h => h.files.length

end Folder

/-- A share as `smbclient` shows it: `cd` and `ls`. -/
structure Share where
  cd : String → Option Folder
  ls : String → String
  proper : ∀ {p g}, cd p = some g → g.dirs.Proper
  cd_join : ∀ {p g name h}, cd p = some g → (name, h) ∈ g.dirs.entries →
    cd (joinPath p name) = some h
  parseDir_ls : ∀ {p g}, cd p = some g → parseDir (ls p) = g.listing

namespace Forest

theorem total_eq_sum_within (own : Folder → ℕ) (f : Forest) :
    f.total own = (f.within.map fun e => own e.2).sum := by
  induction f with
  | nil => rfl
  | cons name files inside rest ihInside ihRest =>
    rw [total, within, ihInside, ihRest, List.map_append, List.sum_append]
    congr 1
    split
    · rfl
    · simp only [List.map_cons, List.map_map, List.sum_cons]
      rfl

theorem mem_within {f : Forest} {e : List String × Folder} :
    e ∈ f.within ↔ ∃ name h, (name, h) ∈ f.entries ∧ isSystemFolder name = false ∧
      ∃ e' ∈ h.within, e = (name :: e'.1, e'.2) := by
  induction f with
  | nil => simp [within, entries]
  | cons name files inside rest ihInside ihRest =>
    rw [within, List.mem_append, ihRest]
    constructor
    · rintro (he | ⟨name', h, hmem, hrest⟩)
      · split at he
        · exact absurd he List.not_mem_nil
        · rename_i hsystem
          obtain ⟨e', he', rfl⟩ := List.mem_map.mp he
          exact ⟨name, ⟨files, inside⟩, List.mem_cons_self, by simpa using hsystem, e', he', rfl⟩
      · exact ⟨name', h, List.mem_cons_of_mem _ hmem, hrest⟩
    · rintro ⟨name', h, hmem, hsystem, e', he', rfl⟩
      rcases List.mem_cons.mp hmem with heq | hmem
      · left
        obtain ⟨rfl, rfl⟩ := Prod.mk.inj heq
        rw [if_neg (by simp [hsystem])]
        exact List.mem_map.mpr ⟨e', he', rfl⟩
      · exact Or.inr ⟨name', h, hmem, hsystem, e', he', rfl⟩

theorem mem_names_of_mem_within {f : Forest} {name : String} {p : List String} {h : Folder}
    (hmem : (name :: p, h) ∈ f.within) : name ∈ f.names := by
  obtain ⟨name', h', hentry, -, e', -, heq⟩ := mem_within.mp hmem
  obtain ⟨hcons, -⟩ := Prod.mk.inj heq
  obtain ⟨rfl, -⟩ := List.cons.inj hcons
  exact List.mem_map.mpr ⟨_, hentry, rfl⟩

theorem properName_of_mem {f : Forest} (hproper : f.Proper) {name : String}
    (h : name ∈ f.names) : ProperName name := by
  induction f with
  | nil => exact absurd h List.not_mem_nil
  | cons name' files inside rest ihInside ihRest =>
    rcases List.mem_cons.mp h with rfl | hrest
    · exact hproper.1
    · exact ihRest hproper.2.2.2 hrest

theorem nodup_names {f : Forest} (hproper : f.Proper) : f.names.Nodup := by
  induction f with
  | nil => exact List.nodup_nil
  | cons name files inside rest ihInside ihRest =>
    exact List.nodup_cons.mpr ⟨hproper.2.1, ihRest hproper.2.2.2⟩

/-- Every folder has one path. -/
theorem nodup_within {f : Forest} (hproper : f.Proper) : (f.within.map (·.1)).Nodup := by
  induction f with
  | nil => exact List.nodup_nil
  | cons name files inside rest ihInside ihRest =>
    obtain ⟨-, hfresh, hinside, hrest⟩ := hproper
    rw [within, List.map_append]
    refine List.nodup_append'.mpr ⟨?_, ihRest hrest, ?_⟩
    · split
      · exact List.nodup_nil
      · have hpaths : (([], (⟨files, inside⟩ : Folder)) :: inside.within).map
            ((·.1) ∘ fun e : List String × Folder => (name :: e.1, e.2))
            = (([] : List String) :: inside.within.map (·.1)).map (name :: ·) := by
          simp [Function.comp_def]
        rw [List.map_map, hpaths]
        refine (List.nodup_cons.mpr ⟨?_, ihInside hinside⟩).map (List.cons_injective)
        intro hnil
        obtain ⟨e, he, hpath⟩ := List.mem_map.mp hnil
        obtain ⟨name', h, -, -, e', -, rfl⟩ := mem_within.mp he
        exact absurd hpath (List.cons_ne_nil _ _)
    · -- The paths of a folder begin with its name, and no other folder has it.
      intro p hp hp'
      obtain ⟨e, he, rfl⟩ := List.mem_map.mp hp
      split at he
      · exact absurd he List.not_mem_nil
      · obtain ⟨e', -, rfl⟩ := List.mem_map.mp he
        obtain ⟨⟨q, h⟩, hq, hpath⟩ := List.mem_map.mp hp'
        dsimp only at hpath
        rw [hpath] at hq
        exact hfresh (mem_names_of_mem_within hq)

end Forest

namespace Folder

variable {g : Folder}

theorem total_eq_sum_within (own : Folder → ℕ) :
    g.total own = (g.within.map fun e => own e.2).sum := by
  rw [total, within, Forest.total_eq_sum_within]
  rfl

theorem mem_within {e : List String × Folder} :
    e ∈ g.within ↔ e = ([], g) ∨ ∃ name h, (name, h) ∈ g.dirs.entries ∧
      isSystemFolder name = false ∧ ∃ e' ∈ h.within, e = (name :: e'.1, e'.2) := by
  rw [within, List.mem_cons, Forest.mem_within]

theorem nil_mem_within {h : Folder} : ([], h) ∈ g.within ↔ h = g := by
  rw [mem_within]
  constructor
  · rintro (heq | ⟨name, k, -, -, e', -, heq⟩)
    · exact (Prod.mk.inj heq).2
    · exact absurd (Prod.mk.inj heq).1.symm (List.cons_ne_nil _ _)
  · rintro rfl
    exact Or.inl rfl

theorem cons_mem_within {name : String} {q : List String} {h : Folder} :
    (name :: q, h) ∈ g.within ↔
      ∃ k, (name, k) ∈ g.dirs.entries ∧ isSystemFolder name = false ∧ (q, h) ∈ k.within := by
  rw [mem_within]
  constructor
  · rintro (heq | ⟨name', k, hentry, hsystem, e', he', heq⟩)
    · exact absurd (Prod.mk.inj heq).1 (List.cons_ne_nil _ _)
    · obtain ⟨hcons, rfl⟩ := Prod.mk.inj heq
      obtain ⟨rfl, rfl⟩ := List.cons.inj hcons
      exact ⟨k, hentry, hsystem, he'⟩
  · rintro ⟨k, hentry, hsystem, he'⟩
    exact Or.inr ⟨name, k, hentry, hsystem, (q, h), he', rfl⟩

/-- A folder of a folder within is within. -/
theorem append_mem_within {q : List String} {name : String} {h k : Folder}
    (hk : (q, k) ∈ g.within) (hentry : (name, h) ∈ k.dirs.entries)
    (hsystem : isSystemFolder name = false) : (q ++ [name], h) ∈ g.within := by
  induction q generalizing g with
  | nil =>
    obtain rfl := nil_mem_within.mp hk
    exact cons_mem_within.mpr ⟨h, hentry, hsystem, nil_mem_within.mpr rfl⟩
  | cons d q ih =>
    obtain ⟨g', hg', hd, hk⟩ := cons_mem_within.mp hk
    exact cons_mem_within.mpr ⟨g', hg', hd, ih hk⟩

theorem mem_within_of_append {q : List String} {name : String} {h : Folder}
    (hmem : (q ++ [name], h) ∈ g.within) :
    ∃ k, (q, k) ∈ g.within ∧ (name, h) ∈ k.dirs.entries ∧ isSystemFolder name = false := by
  induction q generalizing g with
  | nil =>
    obtain ⟨k, hentry, hsystem, hnil⟩ := cons_mem_within.mp hmem
    obtain rfl := nil_mem_within.mp hnil
    exact ⟨g, nil_mem_within.mpr rfl, hentry, hsystem⟩
  | cons d q ih =>
    obtain ⟨g', hg', hd, hmem⟩ := cons_mem_within.mp hmem
    obtain ⟨k, hk, hrest⟩ := ih hmem
    exact ⟨k, cons_mem_within.mpr ⟨g', hg', hd, hk⟩, hrest⟩

theorem within_trans {p q : List String} {h k : Folder} (hk : (p, k) ∈ g.within)
    (hh : (q, h) ∈ k.within) : (p ++ q, h) ∈ g.within := by
  induction p generalizing g with
  | nil =>
    obtain rfl := nil_mem_within.mp hk
    exact hh
  | cons d p ih =>
    obtain ⟨g', hg', hd, hk⟩ := cons_mem_within.mp hk
    exact cons_mem_within.mpr ⟨g', hg', hd, ih hk⟩

theorem nodup_within (hproper : g.dirs.Proper) : (g.within.map (·.1)).Nodup := by
  refine List.nodup_cons.mpr ⟨fun hnil => ?_, Forest.nodup_within hproper⟩
  obtain ⟨e, he, hpath⟩ := List.mem_map.mp hnil
  obtain ⟨name, h, -, -, e', -, rfl⟩ := Forest.mem_within.mp he
  exact absurd hpath (List.cons_ne_nil _ _)

theorem mem_listing_dirs {name : String} :
    name ∈ g.listing.dirs ↔ (∃ h, (name, h) ∈ g.dirs.entries) ∧ isSystemFolder name = false := by
  simp [listing, Forest.names]

end Folder

/-! ### Paths -/

theorem joinPath_empty_left (a : String) : joinPath "" a = a := if_pos rfl

theorem joinPath_empty_right (a : String) : joinPath a "" = a := by
  rw [joinPath]
  split
  · rename_i ha
    exact ha.symm
  · exact if_pos rfl

theorem joinPath_of_ne {a b : String} (ha : a ≠ "") (hb : b ≠ "") :
    joinPath a b = a ++ "\\" ++ b := by
  rw [joinPath, if_neg ha, if_neg hb]

theorem length_lt_joinPath {a b : String} (hb : b ≠ "") : a.length < (joinPath a b).length := by
  by_cases ha : a = ""
  · rw [ha, joinPath_empty_left]
    exact Nat.pos_of_ne_zero (fun h => hb (String.length_eq_zero_iff.mp h))
  · rw [joinPath_of_ne ha hb, String.length_append, String.length_append]
    exact Nat.lt_add_right _ (Nat.lt_succ_self _)

theorem joinPath_ne {a b : String} (hb : b ≠ "") : joinPath a b ≠ "" := by
  intro hempty
  have hlength := length_lt_joinPath (a := a) hb
  rw [hempty] at hlength
  exact absurd hlength (Nat.not_lt_zero _)

theorem joinPath_assoc (a b c : String) :
    joinPath (joinPath a b) c = joinPath a (joinPath b c) := by
  by_cases ha : a = ""
  · rw [ha, joinPath_empty_left, joinPath_empty_left]
  · by_cases hb : b = ""
    · rw [hb, joinPath_empty_left, joinPath_empty_right]
    · by_cases hc : c = ""
      · rw [hc, joinPath_empty_right, joinPath_empty_right]
      · rw [joinPath_of_ne (joinPath_ne hb) hc, joinPath_of_ne ha hb,
          joinPath_of_ne ha (joinPath_ne hc), joinPath_of_ne hb hc]
        simp only [String.append_assoc]

/-- A path below a root, from the names on it. -/
def relOf (p : List String) : String := p.foldl joinPath ""

/-- All names on the path are names of folders. -/
def ProperPath (p : List String) : Prop := ∀ name ∈ p, Forest.ProperName name

@[simp] theorem relOf_nil : relOf [] = "" := rfl

theorem foldl_joinPath (a : String) (p : List String) :
    p.foldl joinPath a = joinPath a (relOf p) := by
  induction p generalizing a with
  | nil => exact (joinPath_empty_right a).symm
  | cons d p ih =>
    rw [relOf, List.foldl_cons, List.foldl_cons, ih, ih (joinPath "" d), joinPath_empty_left,
      joinPath_assoc]

theorem relOf_append (p q : List String) : relOf (p ++ q) = joinPath (relOf p) (relOf q) := by
  rw [relOf, List.foldl_append, foldl_joinPath]
  rfl

theorem relOf_cons (name : String) (p : List String) :
    relOf (name :: p) = joinPath name (relOf p) := by
  rw [relOf, List.foldl_cons, joinPath_empty_left, foldl_joinPath]

theorem relOf_concat (p : List String) (name : String) :
    relOf (p ++ [name]) = joinPath (relOf p) name := by
  rw [relOf_append, relOf_cons, relOf_nil, joinPath_empty_right]

theorem ProperPath.append {p : List String} {name : String} (hp : ProperPath p)
    (hname : Forest.ProperName name) : ProperPath (p ++ [name]) := by
  intro d hd
  rcases List.mem_append.mp hd with hd | hd
  · exact hp d hd
  · obtain rfl := List.mem_singleton.mp hd
    exact hname

theorem ProperPath.left {p q : List String} (h : ProperPath (p ++ q)) : ProperPath p :=
  fun d hd => h d (List.mem_append_left q hd)

theorem ProperPath.last {p : List String} {name : String} (h : ProperPath (p ++ [name])) :
    Forest.ProperName name :=
  h name (List.mem_append_right p (List.mem_singleton_self name))

/-- The names on the path are not empty, and none has a backslash. -/
def PlainPath (p : List String) : Prop := ∀ name ∈ p, name ≠ "" ∧ '\\' ∉ name.toList

theorem ProperPath.plain {p : List String} (h : ProperPath p) : PlainPath p := by
  intro name hname
  refine ⟨(h name hname).1, fun hmem => ?_⟩
  have hsep := (h name hname).2 _ hmem
  exact absurd hsep (by decide)

theorem PlainPath.left {p q : List String} (h : PlainPath (p ++ q)) : PlainPath p :=
  fun d hd => h d (List.mem_append_left q hd)

theorem PlainPath.last {p : List String} {name : String} (h : PlainPath (p ++ [name])) :
    name ≠ "" ∧ '\\' ∉ name.toList :=
  h name (List.mem_append_right p (List.mem_singleton_self name))

theorem relOf_eq_empty {p : List String} (hp : PlainPath p) : relOf p = "" ↔ p = [] := by
  constructor
  · intro hempty
    rcases List.eq_nil_or_concat p with rfl | ⟨q, name, rfl⟩
    · rfl
    · rw [List.concat_eq_append, relOf_concat] at hempty
      rw [List.concat_eq_append] at hp
      exact absurd hempty (joinPath_ne hp.last.1)
  · rintro rfl
    rfl

theorem toList_relOf {p : List String} (hp : PlainPath p) :
    (relOf p).toList = ['\\'].intercalate (p.map String.toList) := by
  induction p using List.reverseRecOn with
  | nil => rfl
  | append_singleton p name ih =>
    rw [relOf_concat]
    by_cases hnil : p = []
    · rw [hnil, relOf_nil, joinPath_empty_left]
      simp
    · have hrel : relOf p ≠ "" := fun h => hnil ((relOf_eq_empty hp.left).mp h)
      rw [joinPath_of_ne hrel hp.last.1, List.map_append,
        Segments.intercalate_append (by simpa using hnil) (by simp), ← ih hp.left]
      simp

theorem relOf_inj {p q : List String} (hp : PlainPath p) (hq : PlainPath q)
    (h : relOf p = relOf q) : p = q := by
  by_cases hnil : q = []
  · rw [hnil] at h ⊢
    exact (relOf_eq_empty hp).mp h
  · have hnil' : p ≠ [] := by
      rintro rfl
      exact hnil ((relOf_eq_empty hq).mp h.symm)
    have hsplit : ∀ {p : List String}, PlainPath p → p ≠ [] →
        (relOf p).toList.splitOn '\\' = p.map String.toList := by
      intro p hp hne
      rw [toList_relOf hp]
      refine List.splitOn_intercalate '\\' ?_ (by simpa using hne)
      intro s hs
      obtain ⟨name, hname, rfl⟩ := List.mem_map.mp hs
      exact (hp name hname).2
    have hmap : p.map String.toList = q.map String.toList := by
      rw [← hsplit hp hnil', ← hsplit hq hnil, h]
    exact List.map_injective_iff.mpr (fun a b hab => String.toList_inj.mp hab) hmap

/-- `p.slice(0, p.lastIndexOf("\\"))` takes off the last name. -/
theorem parentDir_relOf {p : List String} {name : String} (hp : PlainPath (p ++ [name])) :
    parentDir (relOf (p ++ [name])).toList = (relOf p).toList := by
  have hname : ∀ c ∈ name.toList, (c != '\\') = true := by
    intro c hc
    simp only [bne_iff_ne]
    rintro rfl
    exact hp.last.2 hc
  rw [parentDir, relOf_concat]
  by_cases hnil : p = []
  · rw [hnil, relOf_nil, joinPath_empty_left, List.rdropWhile_eq_nil_iff.mpr hname]
    rfl
  · have hrel : relOf p ≠ "" := fun h => hnil ((relOf_eq_empty hp.left).mp h)
    have htext :
        (relOf p ++ "\\" ++ name).toList = ((relOf p).toList ++ ['\\']) ++ name.toList := by
      simp
    rw [joinPath_of_ne hrel hp.last.1, htext, List.rdropWhile, List.reverse_append,
      List.dropWhile_append_of_pos (fun c hc => hname c (List.mem_reverse.mp hc)),
      List.reverse_append, List.reverse_singleton, List.singleton_append,
      List.dropWhile_cons_of_neg (by simp), List.reverse_cons, List.reverse_reverse,
      List.dropLast_concat]

/-- The directories a listing is credited to. -/
theorem ancestors_relOf {p : List String} (hp : PlainPath p) {fuel : ℕ}
    (hfuel : (relOf p).length ≤ fuel) :
    ancestors fuel (relOf p).toList = p.inits.reverse.map relOf := by
  induction p using List.reverseRecOn generalizing fuel with
  | nil =>
    cases fuel with
    | zero => rfl
    | succ fuel => rfl
  | append_singleton p name ih =>
    have hne : relOf (p ++ [name]) ≠ "" := by
      rw [relOf_concat]
      exact joinPath_ne hp.last.1
    have hlength : (relOf p).length < (relOf (p ++ [name])).length := by
      rw [relOf_concat]
      exact length_lt_joinPath hp.last.1
    obtain ⟨fuel, rfl⟩ := Nat.exists_eq_succ_of_ne_zero (n := fuel) (by omega)
    have hinits : (p ++ [name]).inits = p.inits ++ [p ++ [name]] := by
      rw [List.inits_append]
      rfl
    rw [ancestors, if_neg (by simpa using hne), parentDir_relOf hp, ih hp.left (by omega), hinits,
      List.reverse_append, List.reverse_singleton, List.singleton_append, List.map_cons,
      String.ofList_toList]

/-! ### Where paths lead -/

namespace Share

variable {share : Share} {s : String} {g h : Folder} {q : List String}

theorem cd_within (hg : share.cd s = some g) (hmem : (q, h) ∈ g.within) :
    share.cd (joinPath s (relOf q)) = some h := by
  induction q generalizing s g with
  | nil =>
    obtain rfl := Folder.nil_mem_within.mp hmem
    rw [relOf_nil, joinPath_empty_right]
    exact hg
  | cons name q ih =>
    obtain ⟨k, hentry, -, hmem⟩ := Folder.cons_mem_within.mp hmem
    rw [relOf_cons, ← joinPath_assoc]
    exact ih (share.cd_join hg hentry) hmem

end Share

end Argus.Schedulers
