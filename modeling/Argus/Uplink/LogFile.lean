import Argus.Lib.Lines
import Argus.Lib.Machine
import Argus.Lib.Utf8

namespace Argus.Uplink

/-!
# The log file of an agent

`writeFile` and `rotate` of `logbuf.go`: each operational line is mirrored to a file, and a file
that has grown too large is cut to its last half.  The lock guards the path only, so writers on
several goroutines run side by side.

* `rotated` — what `rotate` makes of the bytes of the file.
* `logFile` — any number of writers; every call into the file system is one step.
* `log_lines_whole` — in every interleaving the file consists of whole lines, in the order they
  were written and none of them twice; a rotation may lose lines (`rotation_loses_line`).
* `log_file_bounded` — one writer at a time keeps the file within its bound, and keeps every
  line of the last half.
-/

open Lines

/-! ### The bytes -/

/-- `maxFileBytes`. -/
def maxFileBytes : ℕ := 256 * 1024

def newline : UInt8 := 10

/-- The line of an entry, without its newline. -/
def entryText (ts level msg : String) : List UInt8 :=
  Utf8.bytes (ts ++ " [" ++ level ++ "] " ++ msg)

/-- What `rotate` makes of the bytes it has read. -/
def rotated (b : List UInt8) : List UInt8 :=
  if b.length > maxFileBytes / 2 then
    -- drop the partial first line
    afterFirst newline (b.drop (b.length - maxFileBytes / 2))
  else b

/-! ### Writers side by side -/

/-- How far a call of `writeFile` has got. -/
inductive Writer
  | idle
  | appended
  /-- Past the size check, about to read the file. -/
  | rotating
  /-- About to write the bytes back. -/
  | holding (b : List UInt8)
deriving DecidableEq, Repr

/-- The calls of `writeFile` and `rotate` into the file system; one that fails ends the
    attempt. -/
inductive FileCall
  | append (ts level msg : String)
  | stat
  | read
  | write
  | fail
deriving DecidableEq, Repr

/-- The file, the goroutines that write to it and the lines appended so far. -/
structure LogFile (ι : Type) where
  file : List UInt8
  writers : ι → Writer
  lines : List (List UInt8)

section Machine

variable {ι : Type} [DecidableEq ι]

def LogFile.setWriter (s : LogFile ι) (i : ι) (w : Writer) : LogFile ι :=
  { s with writers := Function.update s.writers i w }

@[simp] theorem LogFile.setWriter_self (s : LogFile ι) (i : ι) (w : Writer) :
    (s.setWriter i w).writers i = w := Function.update_self ..

theorem LogFile.setWriter_of_ne (s : LogFile ι) {i j : ι} (h : j ≠ i) (w : Writer) :
    (s.setWriter i w).writers j = s.writers j := Function.update_of_ne h ..

/-- The writers of a process. -/
def logFile : Machine (LogFile ι) (ι × FileCall) where
  step s l :=
    match s.writers l.1, l.2 with
    | .idle, .append ts level msg => some
        { file := s.file ++ entryText ts level msg ++ [newline]
          writers := Function.update s.writers l.1 .appended
          lines := s.lines ++ (entryText ts level msg).splitOn newline }
    | .appended, .stat => some
        (s.setWriter l.1 (if s.file.length > maxFileBytes then .rotating else .idle))
    | .rotating, .read => some (s.setWriter l.1 (.holding (rotated s.file)))
    | .holding b, .write => some { s.setWriter l.1 .idle with file := b }
    | _, .fail => some (s.setWriter l.1 .idle)
    | _, _ => none

end Machine

/-! ### Whole lines -/

/-- A rotation keeps the last lines of a text of lines, and all that begin in its last half. -/
theorem rotated_render {lines : List (List UInt8)} (h : ∀ l ∈ lines, newline ∉ l) :
    ∃ j, rotated (render newline lines) = render newline (lines.drop j) ∧
      ∀ i < j, maxFileBytes / 2 ≤ (render newline (lines.drop i)).length := by
  unfold rotated
  split
  · rename_i hlong
    obtain ⟨j, heq, hle⟩ := afterFirst_drop_render h
      ((render newline lines).length - maxFileBytes / 2)
    refine ⟨j, heq, fun i hi => ?_⟩
    have hcut := hle i hi
    rw [List.length_drop] at hcut
    omega
  · exact ⟨0, by rw [List.drop_zero], fun i hi => absurd hi (Nat.not_lt_zero i)⟩

/-- Bytes that are whole lines, some of those written and in their order. -/
def WholeLines (lines : List (List UInt8)) (b : List UInt8) : Prop :=
  ∃ kept, b = render newline kept ∧ kept.Sublist lines

namespace WholeLines

variable {lines : List (List UInt8)} {b : List UInt8}

theorem rotated (h : WholeLines lines b) (hlines : ∀ l ∈ lines, newline ∉ l) :
    WholeLines lines (rotated b) := by
  obtain ⟨kept, rfl, hsub⟩ := h
  obtain ⟨j, heq, -⟩ := rotated_render (fun l hl => hlines l (hsub.subset hl))
  exact ⟨kept.drop j, heq, (List.drop_sublist j kept).trans hsub⟩

/-- Further lines are written elsewhere. -/
theorem more (h : WholeLines lines b) (new : List (List UInt8)) :
    WholeLines (lines ++ new) b := by
  obtain ⟨kept, rfl, hsub⟩ := h
  exact ⟨kept, rfl, hsub.trans (List.sublist_append_left _ _)⟩

/-- A line is appended to the bytes themselves. -/
theorem append (h : WholeLines lines b) (text : List UInt8) :
    WholeLines (lines ++ text.splitOn newline) (b ++ text ++ [newline]) := by
  obtain ⟨kept, rfl, hsub⟩ := h
  refine ⟨kept ++ text.splitOn newline, ?_, hsub.append_right _⟩
  rw [render_append, render_splitOn, List.append_assoc]

end WholeLines

section Runs

variable {ι : Type} [DecidableEq ι]

/-- The file, and every copy of it that a rotation holds, consists of whole lines. -/
structure LogFile.Whole (s : LogFile ι) : Prop where
  plain : ∀ l ∈ s.lines, newline ∉ l
  file : WholeLines s.lines s.file
  held : ∀ i b, s.writers i = .holding b → WholeLines s.lines b

/-- A step that leaves the file and the lines alone. -/
theorem LogFile.Whole.setWriter {s : LogFile ι} (h : s.Whole) {i : ι} {w : Writer}
    (hw : ∀ b, w = .holding b → WholeLines s.lines b) : (s.setWriter i w).Whole where
  plain := h.plain
  file := h.file
  held j b hj := by
    by_cases hji : j = i
    · subst hji
      rw [LogFile.setWriter_self] at hj
      exact hw b hj
    · rw [LogFile.setWriter_of_ne _ hji] at hj
      exact h.held j b hj

/-- Every call keeps the lines whole. -/
theorem LogFile.Whole.step {s s' : LogFile ι} {l : ι × FileCall} (h : s.Whole)
    (hstep : logFile.step s l = some s') : s'.Whole := by
  obtain ⟨i, call⟩ := l
  simp only [logFile] at hstep
  split at hstep
  · -- the line goes to the end of the file, whoever holds a copy
    rename_i ts level msg hidle
    obtain rfl := Option.some.inj hstep
    refine ⟨fun l hl => ?_, h.file.append _, fun j b hj => ?_⟩
    · rcases List.mem_append.mp hl with hold | hnew
      · exact h.plain l hold
      · exact not_mem_splitOn hnew
    · dsimp only at hj
      by_cases hji : j = i
      · subst hji
        rw [Function.update_self] at hj
        exact Writer.noConfusion hj
      · rw [Function.update_of_ne hji] at hj
        exact (h.held j b hj).more _
  · obtain rfl := Option.some.inj hstep
    refine h.setWriter (fun b hb => ?_)
    split at hb <;> exact Writer.noConfusion hb
  · obtain rfl := Option.some.inj hstep
    refine h.setWriter (fun b hb => ?_)
    obtain rfl := Writer.holding.inj hb
    exact h.file.rotated h.plain
  · rename_i b hholding
    obtain rfl := Option.some.inj hstep
    have hidle : (s.setWriter i .idle).Whole := h.setWriter (fun _ hb => Writer.noConfusion hb)
    exact ⟨h.plain, h.held i b hholding, hidle.held⟩
  · obtain rfl := Option.some.inj hstep
    exact h.setWriter (fun _ hb => Writer.noConfusion hb)
  · exact absurd hstep (by simp)

/-- A process starts on a file of whole lines; no writer is at work. -/
def LogFile.start (old : List (List UInt8)) : LogFile ι :=
  ⟨render newline old, fun _ => .idle, old⟩

end Runs

/-- A rotation of a file that begins with one long line keeps what follows it. -/
theorem rotated_long {n : ℕ} {rest : List UInt8} {c : UInt8} (hc : c ≠ newline)
    (hlong : maxFileBytes / 2 < n) (hrest : rest.length < maxFileBytes / 2) :
    rotated (List.replicate n c ++ newline :: rest) = rest := by
  have hlen : (List.replicate n c ++ newline :: rest).length = n + rest.length + 1 := by
    rw [List.length_append, List.length_replicate, List.length_cons]
    omega
  have hcut : n + rest.length + 1 - maxFileBytes / 2 ≤ n := by omega
  have hdrop : (List.replicate n c ++ newline :: rest).drop
      (n + rest.length + 1 - maxFileBytes / 2)
      = List.replicate (n - (n + rest.length + 1 - maxFileBytes / 2)) c ++ newline :: rest := by
    rw [List.drop_append, List.drop_replicate, List.length_replicate,
      Nat.sub_eq_zero_of_le hcut, List.drop_zero]
  rw [rotated, hlen, if_pos (by omega), hdrop]
  exact afterFirst_append (fun hmem => hc (List.eq_of_mem_replicate hmem).symm)

/-- A line appended between the read and the write of a rotation is not in the file. -/
theorem exec_rotation {ι : Type} [DecidableEq ι] {s : LogFile ι} {i j : ι} (hij : j ≠ i)
    (hi : s.writers i = .idle) (hj : s.writers j = .idle) {ts level msg ts' level' msg' : String}
    (hlong : maxFileBytes < (s.file ++ entryText ts level msg ++ [newline]).length) :
    ∃ s', logFile.exec s [(i, .append ts level msg), (i, .stat), (i, .read),
        (j, .append ts' level' msg'), (i, .write)] = some s' ∧
      s'.file = rotated (s.file ++ entryText ts level msg ++ [newline]) ∧
      s'.lines = s.lines ++ (entryText ts level msg).splitOn newline
        ++ (entryText ts' level' msg').splitOn newline := by
  set s₁ : LogFile ι :=
    { file := s.file ++ entryText ts level msg ++ [newline]
      writers := Function.update s.writers i .appended
      lines := s.lines ++ (entryText ts level msg).splitOn newline } with hs₁
  have happend : logFile.step s (i, .append ts level msg) = some s₁ := by
    simp only [logFile, hi, hs₁]
  have hstat : logFile.step s₁ (i, .stat) = some (s₁.setWriter i .rotating) := by
    have hw : s₁.writers i = .appended := Function.update_self ..
    have hsize : s₁.file.length > maxFileBytes := hlong
    simp only [logFile, hw, if_pos hsize]
  set s₂ := (s₁.setWriter i .rotating).setWriter i (.holding (rotated s₁.file)) with hs₂
  have hread : logFile.step (s₁.setWriter i .rotating) (i, .read) = some s₂ := by
    simp only [logFile, LogFile.setWriter_self]
    rfl
  have hother : s₂.writers j = .idle := by
    rw [hs₂, LogFile.setWriter_of_ne _ hij, LogFile.setWriter_of_ne _ hij]
    exact (Function.update_of_ne hij ..).trans hj
  set s₃ : LogFile ι :=
    { file := s₂.file ++ entryText ts' level' msg' ++ [newline]
      writers := Function.update s₂.writers j .appended
      lines := s₂.lines ++ (entryText ts' level' msg').splitOn newline } with hs₃
  have happend' : logFile.step s₂ (j, .append ts' level' msg') = some s₃ := by
    simp only [logFile, hother, hs₃]
  have hheld : s₃.writers i = .holding (rotated s₁.file) :=
    (Function.update_of_ne hij.symm ..).trans (LogFile.setWriter_self ..)
  have hwrite : logFile.step s₃ (i, .write)
      = some { s₃.setWriter i .idle with file := rotated s₁.file } := by
    simp only [logFile, hheld]
  refine ⟨{ s₃.setWriter i .idle with file := rotated s₁.file }, ?_, rfl, rfl⟩
  simp only [Machine.exec_cons, happend, hstat, hread, happend', hwrite, Option.bind_some,
    Machine.exec_nil]

/-- **A rotation may lose a line.**  One that another goroutine appends between the read and
    the write of a rotation is gone, though an older one is kept. -/
theorem rotation_loses_line :
    ∃ s, (logFile : Machine (LogFile Bool) _).exec (.start [List.replicate maxFileBytes 97])
        [(true, .append "12:00" "info" "a"), (true, .stat), (true, .read),
          (false, .append "12:00" "warn" "b"), (true, .write)] = some s ∧
      s.file = render newline [entryText "12:00" "info" "a"] ∧
      entryText "12:00" "warn" "b" ∈ s.lines := by
  have hfile : (LogFile.start [List.replicate maxFileBytes 97] : LogFile Bool).file
      ++ entryText "12:00" "info" "a" ++ [newline]
      = List.replicate maxFileBytes 97
        ++ newline :: (entryText "12:00" "info" "a" ++ [newline]) := by
    simp [LogFile.start, render_cons]
  have hlong : maxFileBytes < (List.replicate maxFileBytes 97
      ++ newline :: (entryText "12:00" "info" "a" ++ [newline])).length := by
    rw [List.length_append, List.length_replicate, List.length_cons]
    omega
  obtain ⟨s, hrun, hrot, hlines⟩ := exec_rotation (s := .start [List.replicate maxFileBytes 97])
    Bool.false_ne_true rfl rfl (by rw [hfile]; exact hlong)
  refine ⟨s, hrun, ?_, ?_⟩
  · rw [hrot, hfile, rotated_long (by decide) (by decide) (by decide)]
    decide
  · rw [hlines]
    exact List.mem_append_right _ (by decide)

/-! ### One writer at a time -/

section Alone

variable {ι : Type} [DecidableEq ι]

/-- **Step condition.**  A call of `writeFile` begins when no other is under way, and no call
    into the file system fails. -/
def Alone (s : LogFile ι) (l : ι × FileCall) : Prop :=
  l.2 ≠ .fail ∧ (s.writers l.1 = .idle → ∀ j, s.writers j = .idle)

theorem length_rotated_le (b : List UInt8) : (rotated b).length ≤ maxFileBytes / 2 := by
  unfold rotated
  split
  · have hle : (afterFirst newline _).length ≤ _ :=
      length_afterFirst_le (b.drop (b.length - maxFileBytes / 2))
    rw [List.length_drop] at hle
    omega
  · omega

/-- The bytes are the last lines written, and no line of the last half is missing. -/
def LastLines (lines : List (List UInt8)) (b : List UInt8) : Prop :=
  ∃ j, b = render newline (lines.drop j) ∧
    ∀ i < j, maxFileBytes / 2 ≤ (render newline (lines.drop i)).length

namespace LastLines

variable {lines : List (List UInt8)} {b : List UInt8}

theorem append (h : LastLines lines b) (text : List UInt8) :
    LastLines (lines ++ text.splitOn newline) (b ++ text ++ [newline]) := by
  obtain ⟨j, rfl, hcut⟩ := h
  refine ⟨min j lines.length, ?_, fun i hi => ?_⟩
  · have hdrop : lines.drop j = lines.drop (min j lines.length) := by
      rcases Nat.le_total j lines.length with hle | hge
      · rw [Nat.min_eq_left hle]
      · rw [Nat.min_eq_right hge, List.drop_length, List.drop_eq_nil_of_le hge]
    rw [List.drop_append_of_le_length (Nat.min_le_right _ _), render_append, render_splitOn, hdrop,
      List.append_assoc]
  · have hold := hcut i (by omega)
    rw [List.drop_append_of_le_length (by omega), render_append, List.length_append]
    omega

theorem rotated (h : LastLines lines b) (hlines : ∀ l ∈ lines, newline ∉ l) :
    LastLines lines (rotated b) := by
  obtain ⟨j, rfl, hcut⟩ := h
  obtain ⟨k, heq, hkept⟩ := rotated_render (fun l hl => hlines l (List.mem_of_mem_drop hl))
  refine ⟨j + k, by rw [heq, List.drop_drop], fun i hi => ?_⟩
  rcases Nat.lt_or_ge i j with hlt | hge
  · exact hcut i hlt
  · have hline := hkept (i - j) (by omega)
    rw [List.drop_drop, Nat.add_sub_cancel' hge] at hline
    exact hline

end LastLines

/-- Where writers take turns: at most one is at work, and a copy it holds is that of the file. -/
structure LogFile.InTurn (s : LogFile ι) : Prop where
  plain : ∀ l ∈ s.lines, newline ∉ l
  tail : LastLines s.lines s.file
  one : ∀ i j, s.writers i ≠ .idle → s.writers j ≠ .idle → i = j
  held : ∀ i b, s.writers i = .holding b → b = rotated s.file
  bound : (∀ i, s.writers i = .idle) → s.file.length ≤ maxFileBytes

namespace LogFile.InTurn

variable {s s' : LogFile ι} {i : ι}

/-- The writer at work goes on, or stops with the file within its bound. -/
theorem setWriter (h : s.InTurn) (hbusy : s.writers i ≠ .idle) {w : Writer}
    (hheld : ∀ b, w = .holding b → b = rotated s.file)
    (hbound : w = .idle → s.file.length ≤ maxFileBytes) : (s.setWriter i w).InTurn where
  plain := h.plain
  tail := h.tail
  one j k hj hk := by
    have hne : ∀ x, (s.setWriter i w).writers x ≠ .idle → x = i := by
      intro x hx
      by_contra hxi
      rw [LogFile.setWriter_of_ne _ hxi] at hx
      exact hxi (h.one x i hx hbusy)
    rw [hne j hj, hne k hk]
  held j b hj := by
    by_cases hji : j = i
    · subst hji
      rw [LogFile.setWriter_self] at hj
      exact hheld b hj
    · rw [LogFile.setWriter_of_ne _ hji] at hj
      exact h.held j b hj
  bound hidle := by
    have hi := hidle i
    rw [LogFile.setWriter_self] at hi
    exact hbound hi

theorem step {l : ι × FileCall} (h : s.InTurn) (hG : Alone s l)
    (hstep : logFile.step s l = some s') : s'.InTurn := by
  obtain ⟨i, call⟩ := l
  obtain ⟨hfail, hturn⟩ := hG
  simp only [logFile] at hstep
  split at hstep
  · rename_i ts level msg hidle
    obtain rfl := Option.some.inj hstep
    have hidles := hturn hidle
    have hbusy : ∀ j, Function.update s.writers i .appended j ≠ .idle → j = i := by
      intro j hj
      by_contra hji
      rw [Function.update_of_ne hji] at hj
      exact hj (hidles j)
    refine ⟨fun l hl => ?_, h.tail.append _, fun j k hj hk => ?_, fun j b hj => ?_, fun hall => ?_⟩
    · rcases List.mem_append.mp hl with hold | hnew
      · exact h.plain l hold
      · exact not_mem_splitOn hnew
    · rw [hbusy j hj, hbusy k hk]
    · dsimp only at hj
      by_cases hji : j = i
      · subst hji
        rw [Function.update_self] at hj
        exact Writer.noConfusion hj
      · rw [Function.update_of_ne hji, hidles j] at hj
        exact Writer.noConfusion hj
    · have hi := hall i
      dsimp only at hi
      rw [Function.update_self] at hi
      exact Writer.noConfusion hi
  · rename_i happended
    obtain rfl := Option.some.inj hstep
    refine h.setWriter (by rw [happended]; exact Writer.noConfusion) (fun b hb => ?_)
      (fun hidle => ?_)
    · split at hb <;> exact Writer.noConfusion hb
    · -- the size check found the file within its bound
      split at hidle
      · exact Writer.noConfusion hidle
      · omega
  · rename_i hrotating
    obtain rfl := Option.some.inj hstep
    refine h.setWriter (by rw [hrotating]; exact Writer.noConfusion) (fun b hb => ?_)
      (fun hidle => Writer.noConfusion hidle)
    exact (Writer.holding.inj hb).symm
  · rename_i b hholding
    obtain rfl := Option.some.inj hstep
    have hne : s.writers i ≠ .idle := by
      rw [hholding]
      exact Writer.noConfusion
    obtain rfl := h.held i b hholding
    have hsmall : (rotated s.file).length ≤ maxFileBytes :=
      Nat.le_trans (length_rotated_le s.file) (Nat.div_le_self _ _)
    have hidles : ∀ j, (s.setWriter i .idle).writers j = .idle := by
      intro j
      by_cases hji : j = i
      · subst hji
        rw [LogFile.setWriter_self]
      · rw [LogFile.setWriter_of_ne _ hji]
        by_contra hj
        exact hji (h.one j i hj hne)
    refine ⟨h.plain, h.tail.rotated h.plain, fun j k hj _ => absurd (hidles j) hj,
      fun j b hj => ?_, fun _ => hsmall⟩
    exact Writer.noConfusion ((hidles j).symm.trans hj)
  · exact absurd rfl hfail
  · exact absurd hstep (by simp)

end LogFile.InTurn

/-- **The file is bounded and keeps the newest lines.**  Where the writers take turns, the file
    is within its bound whenever none is at work; it always holds the last lines written, and
    among them every line that begins in the last 128 KiB. -/
theorem log_file_bounded {old : List (List UInt8)} (hold : ∀ l ∈ old, newline ∉ l)
    (hsize : (render newline old).length ≤ maxFileBytes) {s : LogFile ι}
    {calls : List (ι × FileCall)} (hG : logFile.Meets Alone (.start old) calls)
    (hrun : logFile.exec (.start old) calls = some s) :
    ((∀ i, s.writers i = .idle) → s.file.length ≤ maxFileBytes) ∧
      ∃ j, s.file = render newline (s.lines.drop j) ∧
        ∀ i < j, maxFileBytes / 2 ≤ (render newline (s.lines.drop i)).length := by
  have hstart : (LogFile.start old : LogFile ι).InTurn :=
    ⟨hold, ⟨0, by rw [List.drop_zero]; rfl, fun i hi => absurd hi (Nat.not_lt_zero i)⟩,
      fun i j hi => absurd rfl hi, fun i b hi => Writer.noConfusion hi, fun _ => hsize⟩
  have hturn : s.InTurn := Machine.inv_of_exec (fun _ _ _ hs hG hstep => hs.step hG hstep) hstart
    hG hrun
  exact ⟨hturn.bound, hturn.tail⟩

end Alone

/-- One writer, two entries. -/
theorem log_file_bounded_two :
    ∃ s, (logFile : Machine (LogFile Unit) _).exec (.start [])
        [((), .append "12:00" "info" "a"), ((), .stat), ((), .append "12:01" "info" "b"),
          ((), .stat)] = some s ∧ s.file.length ≤ maxFileBytes := by
  have hG : (logFile : Machine (LogFile Unit) _).Meets Alone (.start [])
      [((), .append "12:00" "info" "a"), ((), .stat), ((), .append "12:01" "info" "b"),
        ((), .stat)] := by
    have halone : ∀ (s : LogFile Unit) (call : FileCall), call ≠ .fail → Alone s ((), call) :=
      fun s call hcall => ⟨hcall, fun h _ => h⟩
    exact .cons (halone _ _ FileCall.noConfusion) rfl
      (.cons (halone _ _ FileCall.noConfusion) rfl
        (.cons (halone _ _ FileCall.noConfusion) rfl
          (.cons (halone _ _ FileCall.noConfusion) rfl trivial)))
  have hbounded := log_file_bounded (fun _ hl => absurd hl List.not_mem_nil)
    (Nat.zero_le _) hG rfl
  exact ⟨_, rfl, hbounded.1 (fun ⟨⟩ => by decide)⟩

end Argus.Uplink
