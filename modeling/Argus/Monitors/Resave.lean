import Argus.Monitors.Form

namespace Argus.Monitors

/-!
# Saving a form twice

A form that was opened and saved is opened and saved again.  For each type, the form that is read
from what was built builds the same.

* `row_settles` — a watched folder, with its depth, its interval or its daily times.
* `storage_settles`, `tcp_settles`, … — the form of each type.
* `resave_settles` — the second save changes no field.
-/

/-! ### Texts -/

/-- What is left of a text that is stored only where it is filled. -/
def normText (s : String) : String := if filled s then JsText.trim s else ""

theorem filled_trim (s : String) : filled (JsText.trim s) = filled s := by
  rw [filled, filled, JsText.trim_trim]

theorem filled_empty : filled "" = false := by decide

theorem trim_normText (s : String) : JsText.trim (normText s) = JsText.trim s := by
  unfold normText
  split
  · exact JsText.trim_trim s
  · rename_i h
    have hblank : JsText.trim s = "" := by simpa [filled] using h
    rw [hblank]
    decide

/-- Texts with the same trimmed text are filled together. -/
theorem filled_congr {s t : String} (h : JsText.trim s = JsText.trim t) : filled s = filled t := by
  rw [filled, filled, h]

theorem orText_orText (s d : String) : orText (orText s d) d = orText s d := by
  unfold orText
  by_cases hs : s = ""
  · rw [if_pos hs, ite_self]
  · rw [if_neg hs, if_neg hs]

theorem orText_ne_empty (s : String) {d : String} (h : d ≠ "") : orText s d ≠ "" := by
  unfold orText
  split
  · exact h
  · assumption

namespace Config

theorem setIf_congr {b : Bool} {v w : JsValue} (c : Config) (k : String) (h : b = true → v = w) :
    c.setIf b k v = c.setIf b k w := by
  cases b with
  | true => rw [h rfl]
  | false => rw [setIf, setIf, if_neg Bool.false_ne_true, if_neg Bool.false_ne_true]

/-- A text that is stored where it is filled depends on the trimmed text alone. -/
theorem setIf_trim {s t : String} (c : Config) (k : String) (h : JsText.trim s = JsText.trim t) :
    c.setIf (filled s) k (.str (JsText.trim s)) = c.setIf (filled t) k (.str (JsText.trim t)) := by
  rw [filled_congr h, h]

end Config

/-- A stored text, as it is read again. -/
theorem str_stored {s : String} :
    str (if filled s = true then some (.str (JsText.trim s)) else none) = normText s := by
  unfold normText
  split <;> rfl

/-! ### What was built is read back -/

theorem numberOf_eq_fin {dflt : ℕ} (h : dflt ≤ 2 ^ 53) (v : Option JsValue) :
    ∃ x, numberOf dflt v = .fin x := by
  obtain ⟨x, hx, -⟩ := ofNat_eq_fin h
  unfold numberOf
  split
  · exact ⟨_, rfl⟩
  · exact ⟨x, hx⟩

/-- A printed number is filled. -/
theorem filled_toText (x : JsNumber) : filled (JsNumber.toText x) = true := by
  have htrim : JsText.trim (JsNumber.toText x) = JsNumber.toText x := by
    rw [JsText.trim, JsNumber.toText, String.toList_ofList,
      JsText.trimChars_of_forall (JsNumber.isSpace_toChars x)]
  rw [filled, htrim, bne_iff_ne]
  intro hempty
  -- the empty text is read as zero, which is printed as a digit
  have hread := JsNumber.ofText_toText x
  rw [hempty] at hread
  have hzero : JsNumber.ofText "" = .fin (.ofInt 0 (by decide)) := JsNumber.ofRat_zero
  rw [← hread, hzero] at hempty
  exact absurd hempty (by decide)

/-- What is stored of a port. -/
def storedPort (port : String) : Option JsValue :=
  if filled port = true then some (portJson port) else none

/-- The text of a port that was stored over an older value: it is filled where the one before
    was, and names the same number. -/
theorem port_stored {port : String} {w : Option JsValue} (hnull : storedPort port ≠ some .null)
    (hold : textOf w = some port ∨ w = none) :
    ∃ port', textOf ((storedPort port).or w) = some port' ∧ filled port' = filled port ∧
      (filled port = true → portJson port' = portJson port) := by
  unfold storedPort at hnull ⊢
  cases hfilled : filled port with
  | false =>
    rw [if_neg Bool.false_ne_true, Option.none_or]
    rcases hold with hold | rfl
    · exact ⟨port, hold, hfilled, fun h => absurd h Bool.false_ne_true⟩
    · exact ⟨"", rfl, filled_empty, fun h => absurd h Bool.false_ne_true⟩
  | true =>
    rw [hfilled, if_pos rfl] at hnull
    rw [if_pos rfl, Option.some_or]
    cases hnumber : JsNumber.ofText port with
    | nan => exact absurd (by rw [portJson, hnumber]; rfl) hnull
    | inf negative => exact absurd (by rw [portJson, hnumber]; rfl) hnull
    | fin x =>
      refine ⟨JsNumber.toText (.fin x), ?_, filled_toText _, fun _ => ?_⟩
      · rw [portJson, hnumber]
        rfl
      · rw [portJson, portJson, JsNumber.ofText_toText, hnumber]

theorem orNumber_ne_nan (n : JsNumber) {d : ℕ} (h : d ≤ 2 ^ 53) : orNumber n d ≠ .nan := by
  obtain ⟨x, hx, -⟩ := ofNat_eq_fin h
  unfold orNumber
  split
  · rw [hx]
    exact JsNumber.noConfusion
  · rename_i hn
    exact fun hnan => hn (.inl hnan)

theorem orNumber_fin {x : Double} {d : ℕ} (h : 1 ≤ x.val) : orNumber (.fin x) d = .fin x := by
  obtain ⟨z, hz, hzval⟩ := ofNat_eq_fin (Nat.zero_le (2 ^ 53))
  rw [orNumber, if_neg]
  rintro (hnan | hzero)
  · cases hnan
  · rw [hz, JsNumber.fin.injEq] at hzero
    rw [hzero, hzval, Nat.cast_zero] at h
    exact absurd h (by decide)

/-- The larger of one and a number. -/
theorem max_one (x : Double) :
    ∃ y, JsNumber.max (.ofNat 1) (.fin x) = .fin y ∧ 1 ≤ y.val ∧ (y.val = 1 ∨ y = x) ∧
      JsNumber.max (.ofNat 1) (.fin y) = .fin y := by
  obtain ⟨one, hone, hval⟩ := ofNat_eq_fin (show 1 ≤ 2 ^ 53 by decide)
  rw [Nat.cast_one] at hval
  rw [hone]
  simp only [JsNumber.max_fin]
  by_cases hx : one.val ≤ x.val
  · exact ⟨x, if_pos hx, hval ▸ hx, .inr rfl, if_pos hx⟩
  · exact ⟨one, if_neg hx, hval.ge, .inl hval, if_pos le_rfl⟩

/-- The depth that is sent is a number, and is sent again as it is. -/
theorem watchDepth_spec (depth : JsNumber) :
    ∃ x, watchDepth depth = .fin x ∧ watchDepth (.fin x) = .fin x := by
  obtain ⟨zero, hzero, -⟩ := ofNat_eq_fin (Nat.zero_le (2 ^ 53))
  obtain ⟨top, htop, htopval⟩ := ofNat_eq_fin (show 50 ≤ 2 ^ 53 by decide)
  by_cases h : JsNumber.strictEq depth (.ofNat 0) = true
  · refine ⟨zero, ?_, ?_⟩
    · rw [watchDepth, if_pos h, hzero]
    · rw [watchDepth, hzero, if_pos (by simp [JsNumber.strictEq])]
  · -- the smaller of fifty and a number is finite, or is below one
    have hcut : ∃ x,
        JsNumber.max (.ofNat 1) (JsNumber.min (.ofNat 50) (orNumber depth 1)) = .fin x ∧
          1 ≤ x.val ∧ x.val ≤ top.val ∧ JsNumber.max (.ofNat 1) (.fin x) = .fin x := by
      have htop₁ : 1 ≤ top.val := by
        rw [htopval]
        decide
      have hfin : ∀ z : Double, z.val ≤ top.val →
          ∃ x, JsNumber.max (.ofNat 1) (.fin z) = .fin x ∧ 1 ≤ x.val ∧ x.val ≤ top.val ∧
            JsNumber.max (.ofNat 1) (.fin x) = .fin x := by
        intro z hz
        obtain ⟨x, hx, hlow, hval, hkept⟩ := max_one z
        refine ⟨x, hx, hlow, ?_, hkept⟩
        rcases hval with hval | rfl
        · exact hval.trans_le htop₁
        · exact hz
      rw [htop]
      cases hn : orNumber depth 1 with
      | nan => exact absurd hn (orNumber_ne_nan depth (by decide))
      | inf negative =>
        cases negative with
        | false => exact hfin top le_rfl
        | true =>
          obtain ⟨one, hone, hval⟩ := ofNat_eq_fin (show 1 ≤ 2 ^ 53 by decide)
          rw [Nat.cast_one] at hval
          obtain ⟨x, hx, hlow, hone', hkept⟩ := max_one one
          refine ⟨x, ?_, hlow, ?_, hkept⟩
          · rw [← hx, hone]
            simp [JsNumber.max, JsNumber.min, JsNumber.le]
          · rcases hone' with h₁ | rfl
            · exact h₁.trans_le htop₁
            · exact hval.trans_le htop₁
      | fin z =>
        rw [JsNumber.min_fin]
        split
        · exact hfin top le_rfl
        · rename_i hle
          exact hfin z (not_le.mp hle).le
    obtain ⟨x, hx, hlow, hhigh, hmax⟩ := hcut
    refine ⟨x, by rw [watchDepth, if_neg h, hx], ?_⟩
    have hmin : JsNumber.min (.ofNat 50) (.fin x) = .fin x := by
      rw [htop, JsNumber.min_fin]
      split
      · rename_i hle
        exact congrArg _ (Double.ext (le_antisymm hle hhigh))
      · rfl
    rw [watchDepth, orNumber_fin hlow, hmin, hmax, ite_eq_right_iff]
    intro hstrict
    exact (of_decide_eq_true hstrict).2.symm

/-- The interval that is sent is a number, and is sent again as it is. -/
theorem refreshMin_spec (x : Double) :
    ∃ y, JsNumber.max (.ofNat 1) (orNumber (.fin x) 15) = .fin y ∧
      JsNumber.max (.ofNat 1) (orNumber (.fin y) 15) = .fin y := by
  obtain ⟨dflt, hdflt, -⟩ := ofNat_eq_fin (show 15 ≤ 2 ^ 53 by decide)
  have hfin : ∃ z, orNumber (.fin x) 15 = .fin z := by
    unfold orNumber
    split
    · exact ⟨dflt, hdflt⟩
    · exact ⟨x, rfl⟩
  obtain ⟨z, hz⟩ := hfin
  obtain ⟨y, hy, hlow, -, hkept⟩ := max_one z
  exact ⟨y, by rw [hz, hy], by rw [orNumber_fin hlow, hkept]⟩

/-! ### The watched folders -/

theorem mem_of_mapM {α β : Type} {f : α → Option β} {xs : List α} {ys : List β} {y : β}
    (h : xs.mapM f = some ys) (hy : y ∈ ys) : ∃ x ∈ xs, f x = some y := by
  induction xs generalizing ys with
  | nil =>
    rw [List.mapM_nil] at h
    cases h
    cases hy
  | cons x xs ih =>
    rw [List.mapM_cons] at h
    obtain ⟨z, hz, h⟩ := Option.bind_eq_some_iff.mp h
    obtain ⟨zs, hzs, h⟩ := Option.bind_eq_some_iff.mp h
    cases h
    rcases List.mem_cons.mp hy with rfl | hy
    · exact ⟨x, List.mem_cons_self, hz⟩
    · obtain ⟨w, hw, hwy⟩ := ih hzs hy
      exact ⟨w, List.mem_cons_of_mem x hw, hwy⟩

/-- The interval of a row that was read is a number. -/
theorem watchFolderRow_refreshMin {w : JsValue} {r : WatchFolderRow}
    (h : watchFolderRow w = some r) : ∃ x, r.refreshMin = .fin x := by
  have hobj : ∀ w : JsValue, (do
      let fields := fieldsOf w
      let times ← scanTimesOf fields
      let rm := numberOf 15 (fields.get "refreshMin")
      return (⟨← textOf (fields.get "path"), numberOf 1 (fields.get "depth"), rm, refreshUnit rm,
        times, str (fields.get "scanTimezone")⟩ : WatchFolderRow)) = some r →
      ∃ x, r.refreshMin = .fin x := by
    intro w hw
    simp only [Option.bind_eq_bind, Option.bind_eq_some_iff, Option.pure_def,
      Option.some.injEq] at hw
    obtain ⟨times, -, path, -, rfl⟩ := hw
    exact numberOf_eq_fin (by decide) _
  cases w with
  | str path =>
    cases h
    obtain ⟨x, hx, -⟩ := ofNat_eq_fin (show 15 ≤ 2 ^ 53 by decide)
    exact ⟨x, hx⟩
  | null => exact hobj _ h
  | bool b => exact hobj _ h
  | num x => exact hobj _ h
  | arr xs => exact hobj _ h
  | obj fields => exact hobj _ h

/-- The daily times that are sent. -/
def sentTimes (r : WatchFolderRow) : List String := (r.scanTimes.map JsText.trim).filter isDailyTime

theorem sentTimes_eq {r r' : WatchFolderRow} (h : r'.scanTimes = sentTimes r) :
    sentTimes r' = sentTimes r := by
  have hkept : ∀ t ∈ sentTimes r, JsText.trim t = t := by
    intro t ht
    obtain ⟨u, -, rfl⟩ := List.mem_map.mp (List.mem_filter.mp ht).1
    exact JsText.trim_trim u
  have hmap : (sentTimes r).map JsText.trim = sentTimes r :=
    (List.map_congr_left (g := id) hkept).trans (List.map_id _)
  rw [sentTimes, h, hmap, sentTimes, List.filter_filter]
  simp only [Bool.and_self]

theorem watchFolderJson_daily {r : WatchFolderRow} (h : sentTimes r ≠ []) :
    watchFolderJson r = .obj ([("path", .str (JsText.trim r.path)),
      ("depth", numberJson (watchDepth r.depth)), ("scanTimes", .arr ((sentTimes r).map .str))] ++
        if JsText.trim r.scanTZ ≠ "" then [("scanTimezone", .str (JsText.trim r.scanTZ))]
        else []) :=
  if_pos h

theorem watchFolderJson_interval {r : WatchFolderRow} (h : sentTimes r = []) :
    watchFolderJson r = .obj [("path", .str (JsText.trim r.path)),
      ("depth", numberJson (watchDepth r.depth)),
      ("refreshMin", numberJson (JsNumber.max (.ofNat 1) (orNumber r.refreshMin 15)))] :=
  if_neg (not_not_intro h)

theorem watchFolderRow_obj {fields : Fields JsValue} {path : String} {times : List String}
    (hpath : textOf (fields.get "path") = some path) (htimes : scanTimesOf fields = some times) :
    watchFolderRow (.obj fields) =
      some ⟨path, numberOf 1 (fields.get "depth"), numberOf 15 (fields.get "refreshMin"),
        refreshUnit (numberOf 15 (fields.get "refreshMin")), times,
        str (fields.get "scanTimezone")⟩ := by
  rw [watchFolderRow]
  · dsimp only [fieldsOf]
    rw [htimes, hpath]
    rfl
  · intro path h
    cases h

theorem mapM_toText (ts : List String) : (ts.map JsValue.str).mapM JsValue.toText = some ts := by
  induction ts with
  | nil => rfl
  | cons t ts ih => rw [List.map_cons, List.mapM_cons, JsValue.toText, ih]; rfl

/-- A row that was sent is read as a row that is sent the same. -/
theorem row_settles {r : WatchFolderRow} (hfin : ∃ x, r.refreshMin = .fin x) :
    ∃ r', watchFolderRow (watchFolderJson r) = some r' ∧ r'.path = JsText.trim r.path ∧
      watchFolderJson r' = watchFolderJson r := by
  obtain ⟨x, hx⟩ := hfin
  obtain ⟨d, hd, hd'⟩ := watchDepth_spec r.depth
  by_cases htimes : sentTimes r = []
  · obtain ⟨m, hm, hm'⟩ := refreshMin_spec x
    have hread : watchFolderRow (watchFolderJson r)
        = some ⟨JsText.trim r.path, .fin d, .fin m, refreshUnit (.fin m), [], ""⟩ := by
      rw [watchFolderJson_interval htimes, hx, hd, hm]
      exact watchFolderRow_obj rfl rfl
    refine ⟨_, hread, rfl, ?_⟩
    rw [watchFolderJson_interval htimes, watchFolderJson_interval rfl, hx, hd, hm]
    show JsValue.obj [("path", .str (JsText.trim (JsText.trim r.path))),
      ("depth", numberJson (watchDepth (.fin d))),
      ("refreshMin", numberJson (JsNumber.max (.ofNat 1) (orNumber (.fin m) 15)))] = _
    rw [JsText.trim_trim, hd', hm']
  · have hread : ∃ r', watchFolderRow (watchFolderJson r) = some r' ∧
        r'.path = JsText.trim r.path ∧ r'.depth = .fin d ∧ r'.scanTimes = sentTimes r ∧
        r'.scanTZ = JsText.trim r.scanTZ := by
      rw [watchFolderJson_daily htimes, hd]
      by_cases hzone : JsText.trim r.scanTZ = ""
      · rw [if_neg (not_not_intro hzone), hzone, List.append_nil]
        exact ⟨_, watchFolderRow_obj rfl (mapM_toText _), rfl, rfl, rfl, rfl⟩
      · rw [if_pos hzone]
        exact ⟨_, watchFolderRow_obj rfl (mapM_toText _), rfl, rfl, rfl, rfl⟩
    obtain ⟨r', hread, hpath, hdepth, hscan, hzone⟩ := hread
    have hsent := sentTimes_eq hscan
    have htimes' : sentTimes r' ≠ [] := hsent ▸ htimes
    refine ⟨r', hread, hpath, ?_⟩
    rw [watchFolderJson_daily htimes, watchFolderJson_daily htimes', hsent, hpath, hdepth, hzone,
      hd, hd', JsText.trim_trim, JsText.trim_trim]

/-- The rows that were sent are read as rows that are sent the same. -/
theorem rows_settle {l : List WatchFolderRow} (hfilled : ∀ r ∈ l, filled r.path = true)
    (hfin : ∀ r ∈ l, ∃ x, r.refreshMin = .fin x) :
    ∃ rs', (l.map watchFolderJson).mapM watchFolderRow = some rs' ∧
      (∀ r ∈ rs', filled r.path = true) ∧ rs'.map watchFolderJson = l.map watchFolderJson := by
  induction l with
  | nil => exact ⟨[], rfl, fun r hr => absurd hr List.not_mem_nil, rfl⟩
  | cons r rs ih =>
    rw [List.forall_mem_cons] at hfilled hfin
    obtain ⟨r', hread, hpath, hsent⟩ := row_settles hfin.1
    obtain ⟨rs', hreads, hfilled', hsents⟩ := ih hfilled.2 hfin.2
    refine ⟨r' :: rs', ?_, ?_, ?_⟩
    · rw [List.map_cons, List.mapM_cons, hread, hreads]
      rfl
    · rw [List.forall_mem_cons, hpath, filled_trim]
      exact ⟨hfilled.1, hfilled'⟩
    · rw [List.map_cons, List.map_cons, hsent, hsents]

/-- What is sent of the watched folders. -/
def sentFolders (v : MonitorFieldValues) : List JsValue :=
  (v.watchFolders.filter (fun r => filled r.path)).map watchFolderJson

theorem folders_settle {v : MonitorFieldValues}
    (hfin : ∀ r ∈ v.watchFolders, ∃ x, r.refreshMin = .fin x) :
    ∃ rs,
      watchFoldersOf (if (sentFolders v).isEmpty = true then none
        else some (.arr (sentFolders v))) = some rs ∧
      (rs.filter (fun r => filled r.path)).map watchFolderJson = sentFolders v := by
  obtain ⟨rs, hread, hfilled, hsent⟩ := rows_settle
    (l := v.watchFolders.filter fun r => filled r.path) (fun r hr => (List.mem_filter.mp hr).2)
    (fun r hr => hfin r (List.mem_filter.mp hr).1)
  have hnonempty : rs.filter (fun r => r.path != "") = rs := by
    rw [List.filter_eq_self]
    intro r hr
    rw [bne_iff_ne]
    intro hpath
    have hr' := hfilled r hr
    rw [hpath, filled_empty] at hr'
    cases hr'
  refine ⟨rs, ?_, ?_⟩
  · cases hsend : sentFolders v with
    | nil =>
      have hnil : rs.map watchFolderJson = [] := hsent.trans hsend
      rw [List.map_eq_nil_iff.mp hnil]
      rfl
    | cons w ws =>
      rw [← hsend]
      have hne : (sentFolders v).isEmpty = false := by
        rw [hsend]
        rfl
      rw [hne, if_neg Bool.false_ne_true]
      show (List.mapM watchFolderRow (sentFolders v)).map _ = _
      rw [sentFolders, hread, Option.map_some, hnonempty]
  · rw [List.filter_eq_self.mpr hfilled, hsent]
    rfl

/-! ### Saving twice -/

/-- What holds of a form that was read. -/
structure MonitorFieldValues.WasRead (v : MonitorFieldValues) : Prop where
  password : v.password = ""
  community : v.community = ""
  topN : ∃ x, v.topN = .fin x
  rows : ∀ r ∈ v.watchFolders, ∃ x, r.refreshMin = .fin x

theorem emptyValues_wasRead : emptyValues.WasRead where
  password := rfl
  community := rfl
  topN := (ofNat_eq_fin (show 10 ≤ 2 ^ 53 by decide)).imp fun _ h => h.1
  rows _ hr := absurd hr List.not_mem_nil

theorem watchFoldersOf_refreshMin {v : Option JsValue} {rs : List WatchFolderRow}
    (h : watchFoldersOf v = some rs) : ∀ r ∈ rs, ∃ x, r.refreshMin = .fin x := by
  intro r hr
  unfold watchFoldersOf at h
  split at h
  · obtain ⟨all, hall, rfl⟩ := Option.map_eq_some_iff.mp h
    obtain ⟨w, -, hw⟩ := mem_of_mapM hall (List.mem_filter.mp hr).1
    exact watchFolderRow_refreshMin hw
  · cases h
    cases hr

theorem values_wasRead {type : MonitorType} {c : Config} {v : MonitorFieldValues}
    (h : valuesFromConfig type c = some v) : v.WasRead := by
  have hempty := emptyValues_wasRead
  cases type with
  | storage =>
    obtain ⟨rs, hrs, rfl⟩ := Option.map_eq_some_iff.mp h
    exact ⟨rfl, rfl, hempty.topN, watchFoldersOf_refreshMin hrs⟩
  | database =>
    obtain ⟨port, -, rfl⟩ := Option.map_eq_some_iff.mp h
    exact ⟨rfl, rfl, numberOf_eq_fin (by decide) _, hempty.rows⟩
  | snmp =>
    obtain ⟨oids, -, rfl⟩ := Option.map_eq_some_iff.mp h
    exact ⟨rfl, rfl, hempty.topN, hempty.rows⟩
  | http =>
    obtain ⟨status, -, hstatus⟩ := Option.bind_eq_some_iff.mp h
    obtain ⟨s, -, rfl⟩ := withSchedule_spec hstatus
    exact ⟨rfl, rfl, hempty.topN, hempty.rows⟩
  | tcp =>
    obtain ⟨port, -, hport⟩ := Option.bind_eq_some_iff.mp h
    obtain ⟨s, -, rfl⟩ := withSchedule_spec hport
    exact ⟨rfl, rfl, hempty.topN, hempty.rows⟩
  | dns =>
    obtain ⟨s, -, rfl⟩ := withSchedule_spec h
    exact ⟨rfl, rfl, hempty.topN, hempty.rows⟩
  | ping =>
    obtain ⟨port, -, hport⟩ := Option.bind_eq_some_iff.mp h
    obtain ⟨s, -, rfl⟩ := withSchedule_spec hport
    exact ⟨rfl, rfl, hempty.topN, hempty.rows⟩
  | service => cases h; exact hempty
  | process => cases h; exact hempty
  | host => cases h; exact hempty

theorem buildConfig_storage (v : MonitorFieldValues) :
    buildConfig .storage v =
      (Config.empty |>.set "path" (.str (JsText.trim v.path))
        |>.set "folders" (.bool v.folders)
        |>.setIf v.server "server" (.bool true)
        |>.setIf (filled v.user) "user" (.str (JsText.trim v.user))
        |>.setIf (v.password != "") "password" (.str v.password)
        |>.setIf (!(sentFolders v).isEmpty) "watchFolders" (.arr (sentFolders v))) :=
  rfl

/-- The form of a storage that was sent sends the same. -/
theorem storage_settles {v : MonitorFieldValues} (hread : v.WasRead) :
    ∃ v', valuesFromConfig .storage (buildConfig .storage v) = some v' ∧ v'.server = v.server ∧
      buildConfig .storage v' = buildConfig .storage v ∧
      validate .storage v' = validate .storage v := by
  obtain ⟨rs, hrs, hsent⟩ := folders_settle hread.rows
  have hpath : (buildConfig .storage v).get "path" = some (.str (JsText.trim v.path)) := by
    simp [buildConfig_storage, Config.get_setIf, Config.get_set]
  have huser : (buildConfig .storage v).get "user"
      = if filled v.user = true then some (.str (JsText.trim v.user)) else none := by
    simp [buildConfig_storage, Config.get_setIf, Config.get_set]
  have hserver : (buildConfig .storage v).get "server"
      = if v.server = true then some (.bool true) else none := by
    simp [buildConfig_storage, Config.get_setIf, Config.get_set]
  have hfolders : (buildConfig .storage v).get "folders" = some (.bool v.folders) := by
    simp [buildConfig_storage, Config.get_setIf, Config.get_set]
  have hwatch : (buildConfig .storage v).get "watchFolders"
      = if (sentFolders v).isEmpty = true then none else some (.arr (sentFolders v)) := by
    rw [buildConfig_storage, Config.get_setIf]
    cases (sentFolders v).isEmpty <;> simp [Config.get_setIf, Config.get_set]
  have hflag : isTrue (if v.server = true then some (.bool true) else none) = v.server := by
    cases v.server <;> rfl
  let v' : MonitorFieldValues := { emptyValues with
    path := JsText.trim v.path
    user := normText v.user
    server := v.server
    folders := v.folders
    watchFolders := rs }
  have hsent' : sentFolders v' = sentFolders v := hsent
  refine ⟨v', ?_, rfl, ?_, ?_⟩
  · rw [valuesFromConfig, hwatch, hrs, hpath, huser, hserver, hfolders, str_stored, hflag]
    rfl
  · rw [buildConfig_storage, buildConfig_storage, hread.password]
    rw [hsent']
    simp only [v', JsText.trim_trim, Config.setIf_trim _ "user" (trim_normText v.user)]
    rfl
  · rw [validate, validate]
    show (if filled (JsText.trim v.path) = true then _ else _) = _
    rw [filled_trim]

theorem database_settles {v : MonitorFieldValues} (hread : v.WasRead)
    (hport : (buildConfig .database v).get "port" ≠ some .null) :
    ∃ v', valuesFromConfig .database (buildConfig .database v) = some v' ∧
      buildConfig .database v' = buildConfig .database v ∧
      validate .database v' = validate .database v := by
  have hstored : (buildConfig .database v).get "port" = storedPort v.port := by
    simp [buildConfig, Config.get_setIf, Config.get_set, storedPort]
  have hhost : (buildConfig .database v).get "host" = some (.str (JsText.trim v.host)) := by
    simp [buildConfig, Config.get_setIf, Config.get_set]
  have hdatabase : (buildConfig .database v).get "database"
      = if filled v.database = true then some (.str (JsText.trim v.database)) else none := by
    simp [buildConfig, Config.get_setIf, Config.get_set]
  have huser : (buildConfig .database v).get "user"
      = if filled v.user = true then some (.str (JsText.trim v.user)) else none := by
    simp [buildConfig, Config.get_setIf, Config.get_set]
  have hencrypt : (buildConfig .database v).get "encrypt" = some (.bool v.encrypt) := by
    simp [buildConfig, Config.get_setIf, Config.get_set]
  have hcollect : (buildConfig .database v).get "collectQueries"
      = some (.bool v.collectQueries) := by
    simp [buildConfig, Config.get_setIf, Config.get_set]
  have htop : v.collectQueries = true →
      numberOf 10 ((buildConfig .database v).get "topN") = v.topN := by
    intro hqueries
    have hget : (buildConfig .database v).get "topN" = some (numberJson v.topN) := by
      simp [buildConfig, Config.get_setIf, hqueries]
    obtain ⟨x, hx⟩ := hread.topN
    rw [hget, hx]
    rfl
  obtain ⟨port', htext, hfilled, hjson⟩ := port_stored (w := none) (hstored ▸ hport) (.inr rfl)
  rw [Option.or_none] at htext
  let v' : MonitorFieldValues := { emptyValues with
    host := JsText.trim v.host
    port := port'
    database := normText v.database
    user := normText v.user
    encrypt := v.encrypt
    collectQueries := v.collectQueries
    topN := numberOf 10 ((buildConfig .database v).get "topN") }
  refine ⟨v', ?_, ?_, ?_⟩
  · rw [valuesFromConfig, hstored, htext, hhost, hdatabase, huser, hencrypt, hcollect, str_stored,
      str_stored]
    rfl
  · have htopN : ∀ c : Config, c.setIf v.collectQueries "topN" (numberJson v'.topN)
        = c.setIf v.collectQueries "topN" (numberJson v.topN) :=
      fun c => c.setIf_congr "topN" (fun hqueries => congrArg numberJson (htop hqueries))
    have hport' : ∀ c : Config, c.setIf (filled port') "port" (portJson port')
        = c.setIf (filled v.port) "port" (portJson v.port) := by
      intro c
      rw [hfilled]
      exact c.setIf_congr "port" hjson
    simp only [buildConfig, hread.password]
    show (Config.setIf (Config.setIf (Config.setIf (Config.setIf (Config.setIf _ (filled port') _ _)
      _ _ _) _ _ _) _ _ _) _ _ _) = _
    rw [htopN, hport']
    simp only [v', JsText.trim_trim, Config.setIf_trim _ "user" (trim_normText v.user),
      Config.setIf_trim _ "database" (trim_normText v.database)]
    rfl
  · rw [validate, validate]
    show (if filled (JsText.trim v.host) = true then _ else _) = _
    rw [filled_trim]

theorem snmp_settles {v : MonitorFieldValues} (hread : v.WasRead)
    (hversion : v.snmpVersion ≠ "") :
    ∃ v', valuesFromConfig .snmp (buildConfig .snmp v) = some v' ∧
      buildConfig .snmp v' = buildConfig .snmp v ∧ validate .snmp v' = validate .snmp v := by
  have hhost : (buildConfig .snmp v).get "host" = some (.str (JsText.trim v.host)) := by
    simp [buildConfig, Config.get_setIf, Config.get_set]
  have hstored : (buildConfig .snmp v).get "version" = some (.str v.snmpVersion) := by
    simp [buildConfig, Config.get_setIf, Config.get_set]
  have hprofile : str ((buildConfig .snmp v).get "profileId") = v.profileId := by
    by_cases hempty : v.profileId = ""
    · simp [buildConfig, Config.get_setIf, Config.get_set, hempty, str]
    · simp [buildConfig, Config.get_setIf, hempty, str]
  have hoids : (buildConfig .snmp v).get "oids" = none := by
    simp [buildConfig, Config.get_setIf, Config.get_set]
  let v' : MonitorFieldValues := { emptyValues with
    host := JsText.trim v.host
    snmpVersion := v.snmpVersion
    profileId := v.profileId }
  refine ⟨v', ?_, ?_, ?_⟩
  · have hkept : orText (str (some (.str v.snmpVersion))) "2c" = v.snmpVersion := if_neg hversion
    rw [valuesFromConfig, hoids, hhost, hstored, hprofile, hkept]
    rfl
  · simp only [buildConfig, v', JsText.trim_trim, hread.community]
    rfl
  · rw [validate, validate]
    show (if filled (JsText.trim v.host) = true then _ else _) = _
    rw [filled_trim]

/-- A port that was stored is stored again. -/
theorem setIf_port {port port' : String} (hfilled : filled port' = filled port)
    (hjson : filled port = true → portJson port' = portJson port) (c : Config) :
    c.setIf (filled port') "port" (portJson port')
      = c.setIf (filled port) "port" (portJson port) := by
  rw [hfilled]
  exact c.setIf_congr "port" hjson

theorem tcp_settles {v : MonitorFieldValues} (hsane : v.schedule.Sane)
    (hport : (buildConfig .tcp v).get "port" ≠ some .null) :
    ∃ v', valuesFromConfig .tcp (buildConfig .tcp v) = some v' ∧
      buildConfig .tcp v' = buildConfig .tcp v ∧ validate .tcp v' = validate .tcp v := by
  have hhost : (buildConfig .tcp v).get "host" = some (.str (JsText.trim v.host)) := by
    simp [buildConfig, Config.get_setIf, Config.get_withTimes, Config.get_set]
  have hstored : (buildConfig .tcp v).get "port" = storedPort v.port := by
    simp [buildConfig, Config.get_setIf, Config.get_withTimes, Config.get_set, storedPort]
  obtain ⟨port', htext, hfilled, hjson⟩ := port_stored (w := none) (hstored ▸ hport) (.inr rfl)
  rw [Option.or_none] at htext
  obtain ⟨count, hschedule, -⟩ := schedule_sent .tcp rfl Config.empty hsane
  let v' : MonitorFieldValues := { emptyValues with
    host := JsText.trim v.host
    port := port'
    interval := v.interval
    retries := v.retries
    retryInterval := v.retryInterval
    count := count }
  refine ⟨v', ?_, ?_, ?_⟩
  · rw [valuesFromConfig, hstored, htext, hhost, Option.bind_some, withSchedule]
    rw [sent, if_neg (by decide)] at hschedule
    rw [hschedule]
    rfl
  · show Config.setIf (Config.withTimes (Config.set _ _ (.str (JsText.trim (JsText.trim v.host))))
      v') (filled port') "port" (portJson port') = _
    rw [setIf_port hfilled hjson, JsText.trim_trim]
    rfl
  · rw [validate, validate]
    show (if (filled (JsText.trim v.host) && filled port') = true then _ else _) = _
    rw [filled_trim, hfilled]

theorem http_settles {v : MonitorFieldValues} (hsane : v.schedule.Sane) :
    ∃ v', valuesFromConfig .http (buildConfig .http v) = some v' ∧
      buildConfig .http v' = buildConfig .http v ∧ validate .http v' = validate .http v := by
  have hurl : (buildConfig .http v).get "url" = some (.str (JsText.trim v.url)) := by
    simp [buildConfig, Config.get_setIf, Config.get_withTimes, Config.get_set]
  have hmethod : (buildConfig .http v).get "method" = some (.str (orText v.method "GET")) := by
    simp [buildConfig, Config.get_setIf, Config.get_withTimes, Config.get_set]
  have hstatus : textOf ((buildConfig .http v).get "expectedStatus")
      = some (normText v.expectedStatus) := by
    have hget : (buildConfig .http v).get "expectedStatus"
        = if filled v.expectedStatus = true then some (.str (JsText.trim v.expectedStatus))
          else none := by
      simp [buildConfig, Config.get_setIf, Config.get_withTimes, Config.get_set]
    rw [hget, normText]
    split
    · exact JsValue.toText.eq_4 _
    · rfl
  have hkeyword : str ((buildConfig .http v).get "keyword")
      = if filled v.keyword = true then v.keyword else "" := by
    have hget : (buildConfig .http v).get "keyword"
        = if filled v.keyword = true then some (.str v.keyword) else none := by
      simp [buildConfig, Config.get_setIf, Config.get_withTimes, Config.get_set]
    rw [hget]
    split <;> rfl
  obtain ⟨count, hschedule, -⟩ := schedule_sent .http rfl Config.empty hsane
  let v' : MonitorFieldValues := { emptyValues with
    url := JsText.trim v.url
    method := orText v.method "GET"
    expectedStatus := normText v.expectedStatus
    keyword := if filled v.keyword = true then v.keyword else ""
    interval := v.interval
    retries := v.retries
    retryInterval := v.retryInterval
    count := count }
  refine ⟨v', ?_, ?_, ?_⟩
  · rw [valuesFromConfig, hstatus, Option.bind_some, hurl, hmethod, hkeyword, withSchedule]
    rw [sent, if_neg (by decide)] at hschedule
    rw [hschedule]
    show some _ = some _
    rw [show str (some (.str (orText v.method "GET"))) = orText v.method "GET" from rfl,
      orText_orText]
    rfl
  · have hkeyword' : ∀ c : Config, c.setIf (filled v'.keyword) "keyword" (.str v'.keyword)
        = c.setIf (filled v.keyword) "keyword" (.str v.keyword) := by
      intro c
      show c.setIf (filled (if filled v.keyword = true then v.keyword else "")) "keyword" (.str
        (if filled v.keyword = true then v.keyword else "")) = _
      cases h : filled v.keyword with
      | true => rw [if_pos rfl, h]
      | false =>
        rw [if_neg Bool.false_ne_true, filled_empty]
        exact c.setIf_congr "keyword" (fun h => absurd h Bool.false_ne_true)
    show Config.setIf (Config.setIf (Config.withTimes (Config.set (Config.set _ "url"
      (.str (JsText.trim (JsText.trim v.url)))) "method"
      (.str (orText (orText v.method "GET") "GET"))) v') (filled (normText v.expectedStatus)) _
      (.str (JsText.trim (normText v.expectedStatus)))) (filled v'.keyword) _ (.str v'.keyword) = _
    rw [hkeyword', JsText.trim_trim v.url, orText_orText,
      Config.setIf_trim _ _ (trim_normText v.expectedStatus)]
    rfl
  · rw [validate, validate]
    show (if hasScheme (JsText.trim (JsText.trim v.url)) = true then _ else _) = _
    rw [JsText.trim_trim]

theorem dns_settles {v : MonitorFieldValues} (hsane : v.schedule.Sane) :
    ∃ v', valuesFromConfig .dns (buildConfig .dns v) = some v' ∧
      buildConfig .dns v' = buildConfig .dns v ∧ validate .dns v' = validate .dns v := by
  have hhost : (buildConfig .dns v).get "host" = some (.str (JsText.trim v.host)) := by
    simp [buildConfig, Config.get_setIf, Config.get_withTimes, Config.get_set]
  have hrecord : (buildConfig .dns v).get "recordType" = some (.str (orText v.recordType "A")) := by
    simp [buildConfig, Config.get_setIf, Config.get_withTimes, Config.get_set]
  have hresolver : (buildConfig .dns v).get "resolver"
      = if filled v.resolver = true then some (.str (JsText.trim v.resolver)) else none := by
    simp [buildConfig, Config.get_setIf, Config.get_withTimes, Config.get_set]
  obtain ⟨count, hschedule, -⟩ := schedule_sent .dns rfl Config.empty hsane
  let v' : MonitorFieldValues := { emptyValues with
    host := JsText.trim v.host
    recordType := orText v.recordType "A"
    resolver := normText v.resolver
    interval := v.interval
    retries := v.retries
    retryInterval := v.retryInterval
    count := count }
  refine ⟨v', ?_, ?_, ?_⟩
  · rw [valuesFromConfig, hhost, hrecord, hresolver, str_stored, withSchedule]
    rw [sent, if_neg (by decide)] at hschedule
    rw [hschedule]
    show some _ = some _
    rw [show str (some (.str (orText v.recordType "A"))) = orText v.recordType "A" from rfl,
      orText_orText]
    rfl
  · show Config.setIf (Config.withTimes (Config.set (Config.set _ "host"
      (.str (JsText.trim (JsText.trim v.host)))) "recordType"
      (.str (orText (orText v.recordType "A") "A"))) v') (filled (normText v.resolver)) _
      (.str (JsText.trim (normText v.resolver))) = _
    rw [JsText.trim_trim v.host, orText_orText, Config.setIf_trim _ _ (trim_normText v.resolver)]
    rfl
  · rw [validate, validate]
    show (if filled (JsText.trim v.host) = true then _ else _) = _
    rw [filled_trim]

/-- A ping keeps the fields of the stored configuration that its form leaves out. -/
theorem ping_settles {c : Config} {v : MonitorFieldValues} (hsane : v.schedule.Sane)
    (hhost : str (c.get "host") = v.host) (hold : textOf (c.get "port") = some v.port)
    (hport : (sent .ping c v).get "port" ≠ some .null) :
    ∃ v', valuesFromConfig .ping (sent .ping c v) = some v' ∧
      buildConfig .ping v' = buildConfig .ping v := by
  have hsent : sent .ping c v = c.spread (buildConfig .ping v) := if_pos rfl
  have hhost' : str ((sent .ping c v).get "host")
      = if filled v.host = true then JsText.trim v.host else v.host := by
    have hget : (buildConfig .ping v).get "host"
        = if filled v.host = true then some (.str (JsText.trim v.host)) else none := by
      simp [buildConfig, Config.get_setIf, Config.get_withTimes, Config.get_set]
    rw [hsent, Config.get_spread, hget]
    split
    · rfl
    · rw [Option.none_or, hhost]
  have hstored : (sent .ping c v).get "port" = (storedPort v.port).or (c.get "port") := by
    have hget : (buildConfig .ping v).get "port" = storedPort v.port := by
      simp [buildConfig, Config.get_setIf, Config.get_withTimes, Config.get_set, storedPort]
    rw [hsent, Config.get_spread, hget]
  have hnull : storedPort v.port ≠ some .null := by
    intro hnull
    rw [hstored, hnull] at hport
    exact hport rfl
  obtain ⟨port', htext, hfilled, hjson⟩ := port_stored hnull (.inl hold)
  obtain ⟨count, hschedule, hcount⟩ := schedule_sent .ping rfl c hsane
  obtain rfl := hcount rfl
  have htrim : JsText.trim (if filled v.host = true then JsText.trim v.host else v.host)
      = JsText.trim v.host := by
    split
    · exact JsText.trim_trim v.host
    · rfl
  let v' : MonitorFieldValues := { emptyValues with
    host := if filled v.host = true then JsText.trim v.host else v.host
    port := port'
    interval := v.interval
    retries := v.retries
    retryInterval := v.retryInterval
    count := v.count }
  refine ⟨v', ?_, ?_⟩
  · rw [valuesFromConfig, hstored, htext, hhost', Option.bind_some, withSchedule, hschedule]
    rfl
  · show Config.setIf (Config.setIf (Config.set (Config.withTimes _ v') _ (numberJson v'.count))
      (filled v'.host) _ (.str (JsText.trim v'.host))) (filled port') "port" (portJson port') = _
    rw [setIf_port hfilled hjson, Config.setIf_trim _ _ (show JsText.trim v'.host = _ from htrim)]
    rfl

/-- Sending the same form again changes nothing. -/
theorem get_sent_sent {type : MonitorType} (c : Config) {v v' : MonitorFieldValues}
    (h : buildConfig type v' = buildConfig type v) (k : String) :
    (sent type (sent type c v) v').get k = (sent type c v).get k := by
  rw [sent, h]
  by_cases hping : type = .ping
  · rw [if_pos hping, Config.get_spread, sent, if_pos hping, Config.get_spread]
    cases (buildConfig type v).get k <;> rfl
  · rw [if_neg hping, sent, if_neg hping]

theorem values_version {c : Config} {v : MonitorFieldValues}
    (h : valuesFromConfig .snmp c = some v) : v.snmpVersion ≠ "" := by
  obtain ⟨oids, -, rfl⟩ := Option.map_eq_some_iff.mp h
  exact orText_ne_empty _ (by decide)

theorem values_ping {c : Config} {v : MonitorFieldValues} (h : valuesFromConfig .ping c = some v) :
    str (c.get "host") = v.host ∧ textOf (c.get "port") = some v.port := by
  obtain ⟨port, hport, hvalues⟩ := Option.bind_eq_some_iff.mp h
  obtain ⟨s, -, rfl⟩ := withSchedule_spec hvalues
  exact ⟨rfl, hport⟩

/-- For the types without a flag: the form that is read again is sent the same. -/
theorem form_settles {type : MonitorType} (htype : structured type = true) (hne : type ≠ .storage)
    {c : Config} {v : MonitorFieldValues} (h : valuesFromConfig type c = some v)
    (hport : (sent type c v).get "port" ≠ some .null) :
    ∃ v', valuesFromConfig type (sent type c v) = some v' ∧
      buildConfig type v' = buildConfig type v ∧ validate type v' = validate type v := by
  have hread := values_wasRead h
  have hsane : scheduled type = true → v.schedule.Sane := by
    intro hscheduled
    obtain ⟨s, hs, hinterval, hretries, hretry, hcount⟩ := values_schedule hscheduled h
    rw [MonitorFieldValues.schedule, hinterval, hretries, hretry, hcount]
    exact monitorSchedule_sane hs
  have hsent : type ≠ .ping → sent type c v = buildConfig type v := fun h => if_neg h
  cases type with
  | storage => exact absurd rfl hne
  | database =>
    rw [hsent (by decide)] at hport ⊢
    exact database_settles hread hport
  | snmp =>
    rw [hsent (by decide)]
    exact snmp_settles hread (values_version h)
  | http =>
    rw [hsent (by decide)]
    exact http_settles (hsane rfl)
  | tcp =>
    rw [hsent (by decide)] at hport ⊢
    exact tcp_settles (hsane rfl) hport
  | dns =>
    rw [hsent (by decide)]
    exact dns_settles (hsane rfl)
  | ping =>
    obtain ⟨hhost, hold⟩ := values_ping h
    obtain ⟨v', hv', hbuild⟩ := ping_settles (hsane rfl) hhost hold hport
    exact ⟨v', hv', hbuild, rfl⟩
  | service => cases htype
  | process => cases htype
  | host => cases htype

/-- **The editor settles.** A form that was opened and saved as it is can be opened and saved
    again, and this changes no field of the configuration.  The port is the exception: one that
    is no number is sent as `null`, which is no port any more. -/
theorem resave_settles {isDevice : Bool} {type : MonitorType} {c c₁ : Config}
    (htype : structured type = true) (h : resave isDevice type c = some c₁)
    (hport : c₁.get "port" ≠ some .null) :
    ∃ c₂, resave isDevice type c₁ = some c₂ ∧ ∀ k, c₂.get k = c₁.get k := by
  obtain ⟨values, hvalues, hvalid, rfl⟩ := resave_spec h
  by_cases hne : type = .storage
  · subst hne
    -- the flag is set before either save, and read back in between
    have hflagged : ∀ v : MonitorFieldValues,
        (if isDevice && MonitorType.storage == .storage then { v with server := true } else v)
          = { v with server := isDevice || v.server } := by
      intro v
      cases isDevice <;> rfl
    rw [hflagged]
    have hread := values_wasRead hvalues
    obtain ⟨v', hv', hserver, hbuild, hvalid'⟩ :=
      storage_settles (v := { values with server := isDevice || values.server })
        ⟨hread.password, hread.community, hread.topN, hread.rows⟩
    have hkept : { v' with server := isDevice || v'.server } = v' := by
      have hbool : (isDevice || v'.server) = v'.server := by
        rw [hserver]
        cases isDevice <;> rfl
      rw [hbool]
    refine ⟨_, resave_of_values hv' (hvalid'.trans hvalid), fun k => ?_⟩
    rw [hflagged, hkept]
    exact get_sent_sent c hbuild k
  · rw [not_storage hne, if_neg Bool.false_ne_true] at hport ⊢
    obtain ⟨v', hv', hbuild, hvalid'⟩ := form_settles htype hne hvalues hport
    refine ⟨_, resave_of_values hv' (hvalid'.trans hvalid), fun k => ?_⟩
    rw [not_storage hne, if_neg Bool.false_ne_true]
    exact get_sent_sent c hbuild k

/-- A share with an older watched folder. -/
def storedShare : Config :=
  (Config.empty.set "path" (.str " /data ")).set "watchFolders" (.arr [.str "docs"])

theorem resave_settles_share :
    ∃ c₁, resave true .storage storedShare = some c₁ ∧
      ∃ c₂, resave true .storage c₁ = some c₂ ∧ ∀ k, c₂.get k = c₁.get k := by
  obtain ⟨c₁, hc₁⟩ : ∃ c₁, resave true .storage storedShare = some c₁ := ⟨_, rfl⟩
  have hport : c₁.get "port" = none := by
    obtain ⟨values, -, -, rfl⟩ := resave_spec hc₁
    rw [sent, if_neg (by decide), buildConfig_storage]
    simp [Config.get_setIf, Config.get_set]
  exact ⟨c₁, hc₁, resave_settles rfl hc₁ (by simp [hport])⟩

end Argus.Monitors
