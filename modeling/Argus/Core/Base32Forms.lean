import Argus.Core.Base32

namespace Argus.Core

/-!
# What the base32 decoder takes

* `Tolerated` — the forms that it is meant to take: letters, digits and white space, and then
  padding that may have white space around it and in it.
* `accepted_iff` — the ones it takes: padding counts at the very end only, and ten characters
  outside of ASCII turn into letters on the way.
* `accepted_iff_tolerated_iff` — on which texts the two agree.
-/

-- a property of all characters of a text is decided on the text
attribute [local instance (1100)] List.decidableBAll

/-! ### Forms -/

/-- A letter of ASCII, a digit from 2 to 7, or white space. -/
def isTolerated (c : Char) : Bool :=
  c.isAlpha || (decide ('2' ≤ c) && decide (c ≤ '7')) || JsText.isSpace c

/-- Outside of ASCII, with letters of ASCII for its upper case. -/
def isExpanding (c : Char) : Bool := JsText.upperAscii.any fun e => e.1 == c

def Tolerated (s : List Char) : Prop :=
  ∃ body pad, s = body ++ pad ∧ (∀ c ∈ body, isTolerated c = true)
    ∧ ∀ c ∈ pad, c = '=' ∨ JsText.isSpace c = true

/-- The tolerated forms, with any of the ten characters among the letters. -/
def Wide (s : List Char) : Prop :=
  ∃ body pad, s = body ++ pad ∧ (∀ c ∈ body, isTolerated c = true ∨ isExpanding c = true)
    ∧ ∀ c ∈ pad, c = '=' ∨ JsText.isSpace c = true

def Expands (s : List Char) : Prop := ∃ c ∈ s, isExpanding c = true

/-- White space stands somewhere behind a `=`. -/
def SpaceAfterPadding (s : List Char) : Prop :=
  ∃ u v, s = u ++ v ∧ '=' ∈ u ∧ ∃ c ∈ v, JsText.isSpace c = true

/-! ### Characters -/

/-- Taken, or stripped, once it is in upper case. -/
def isGood (d : Char) : Bool := BASE32_ALPHABET.contains d || JsText.isSpace d

theorem not_isGood_padding : isGood '=' = false := by decide

theorem isGood_of_isExpanding {c : Char} (h : isExpanding c = true) :
    c ≠ '=' ∧ JsText.isSpace c = false ∧ isTolerated c = false
      ∧ (∀ d ∈ JsText.upperChar c, isGood d = true) ∧ JsText.upperChar c ≠ [] := by
  have hall : ∀ e ∈ JsText.upperAscii, e.1 ≠ '=' ∧ JsText.isSpace e.1 = false
      ∧ isTolerated e.1 = false ∧ (∀ d ∈ JsText.upperChar e.1, isGood d = true)
      ∧ JsText.upperChar e.1 ≠ [] := by
    decide +kernel
  obtain ⟨e, he, heq⟩ := List.any_eq_true.mp h
  obtain rfl := beq_iff_eq.mp heq
  exact hall e he

/-- In ASCII, what is good in upper case is what is tolerated. -/
theorem isGood_toUpper {c : Char} (h : c.toNat < 0x80) :
    isGood c.toUpper = isTolerated c ∧ (c.toUpper = '=' → c = '=') ∧ isExpanding c = false := by
  have hall : ∀ n < 0x80, isGood (Char.ofNat n).toUpper = isTolerated (Char.ofNat n)
      ∧ ((Char.ofNat n).toUpper = '=' → Char.ofNat n = '=')
      ∧ isExpanding (Char.ofNat n) = false := by
    decide +kernel
  have hc := hall _ h
  rwa [Char.ofNat_toNat] at hc

theorem isTolerated_of_isSpace {c : Char} (h : JsText.isSpace c = true) : isTolerated c = true := by
  rw [isTolerated, h, Bool.or_true]

/-- Outside of ASCII only white space is tolerated. -/
theorem isTolerated_foreign {c : Char} (h : 0x80 ≤ c.toNat) :
    isTolerated c = JsText.isSpace c := by
  have halpha : c.isAlpha = false := by
    rw [← Bool.not_eq_true]
    intro hc
    rcases Bool.or_eq_true_iff.mp hc with hupper | hlower
    · have hrange : 65 ≤ c.toNat ∧ c.toNat ≤ 90 := of_decide_eq_true hupper
      omega
    · have hrange := of_decide_eq_true (Bool.and_eq_true_iff.mp hlower).2
      have hle : c.toNat ≤ 122 := hrange
      omega
  have hdigit : decide (c ≤ '7') = false := by
    rw [decide_eq_false_iff_not]
    intro hle
    have hle' : c.toNat ≤ 55 := hle
    omega
  rw [isTolerated, halpha, hdigit, Bool.and_false, Bool.or_self, Bool.false_or]

/-- A character goes through, or leaves something behind that no later step takes away. -/
theorem upperChar_iff {c : Char} (h : c ≠ '=') :
    JsText.upperChar c ≠ [] ∧ (isTolerated c = true ∨ isExpanding c = true)
        ∧ (∀ d ∈ JsText.upperChar c, isGood d = true)
      ∨ ¬ (isTolerated c = true ∨ isExpanding c = true)
        ∧ ∃ d ∈ JsText.upperChar c, d ≠ '=' ∧ isGood d = false := by
  by_cases hascii : c.toNat < 0x80
  · obtain ⟨hgood, hpad, hexp⟩ := isGood_toUpper hascii
    rw [JsText.upperChar_ascii hascii]
    by_cases htol : isTolerated c = true
    · refine Or.inl ⟨List.cons_ne_nil _ _, Or.inl htol, ?_⟩
      intro d hd
      rw [List.mem_singleton.mp hd, hgood]
      exact htol
    · refine Or.inr ⟨?_, c.toUpper, List.mem_singleton_self _, fun heq => h (hpad heq), ?_⟩
      · rw [hexp]
        simpa using htol
      · rw [hgood]
        simpa using htol
  have hle : 0x80 ≤ c.toNat := Nat.le_of_not_lt hascii
  rcases JsText.upperChar_cases hle with hspace | ⟨e, he, heq⟩ | ⟨⟨d, hd, hfor⟩, hall⟩
  · rw [JsText.upperChar_of_isSpace hspace]
    refine Or.inl ⟨List.cons_ne_nil _ _, Or.inl (isTolerated_of_isSpace hspace), ?_⟩
    intro d hd
    rw [List.mem_singleton.mp hd, isGood, hspace, Bool.or_true]
  · have hexp : isExpanding c = true := List.any_eq_true.mpr ⟨e, he, beq_iff_eq.mpr heq⟩
    obtain ⟨-, -, -, hgood, hne⟩ := isGood_of_isExpanding hexp
    exact Or.inl ⟨hne, Or.inr hexp, hgood⟩
  · -- what is foreign is neither stripped nor in the alphabet
    have hbad : isGood d = false := by
      simp only [JsText.isForeign, Bool.and_eq_true, decide_eq_true_eq, Bool.not_eq_true'] at hfor
      rw [isGood, hfor.2, Bool.or_false, ← Bool.not_eq_true]
      intro hmem
      have hlow : ∀ d ∈ BASE32_ALPHABET, d.toNat < 0x80 := by decide
      have hlt := hlow d (List.contains_iff_mem.mp hmem)
      omega
    refine Or.inr ⟨?_, d, hd, (hall d hd).2, hbad⟩
    rintro (htol | hexp)
    · -- only white space is tolerated out there
      rw [isTolerated_foreign hle] at htol
      rw [JsText.upperChar_of_isSpace htol] at hd
      rw [List.mem_singleton.mp hd, isGood, htol, Bool.or_true] at hbad
      cases hbad
    · have hgood := (isGood_of_isExpanding hexp).2.2.2.1 d hd
      rw [hgood] at hbad
      cases hbad

/-! ### Texts -/

theorem run_isOk (s : List Char) (st : DecodeLoop) :
    (st.run s).isOk = true ↔ ∀ c ∈ s, c ∈ BASE32_ALPHABET := by
  induction s generalizing st with
  | nil => exact ⟨fun _ c hc => absurd hc List.not_mem_nil, fun _ => rfl⟩
  | cons c s ih =>
    rw [DecodeLoop.run, List.forall_mem_cons]
    split
    · next hnone =>
      have hc : c ∉ BASE32_ALPHABET := by
        simpa using hnone
      exact ⟨fun h => absurd h Bool.false_ne_true, fun h => absurd h.1 hc⟩
    · next idx hsome =>
      have hc : c ∈ BASE32_ALPHABET := by
        by_contra hnot
        rw [List.idxOf?_eq_none_iff.mpr hnot] at hsome
        cases hsome
      rw [ih]
      exact ⟨fun h => ⟨hc, h⟩, fun h => h.2⟩

theorem decode_isOk (s : String) :
    (base32Decode s).isOk = true
      ↔ ∀ c ∈ stripPadding (JsText.toUpperCase s.toList), isGood c = true := by
  rw [base32Decode, run_isOk]
  constructor
  · intro h c hc
    rw [isGood, Bool.or_eq_true, List.contains_iff_mem]
    by_cases hspace : JsText.isSpace c = true
    · exact Or.inr hspace
    · exact Or.inl (h c (List.mem_filter.mpr ⟨hc, by simpa using hspace⟩))
  · intro h c hc
    obtain ⟨hmem, hspace⟩ := List.mem_filter.mp hc
    have hgood := h c hmem
    rw [isGood, Bool.or_eq_true, List.contains_iff_mem] at hgood
    exact hgood.resolve_right (by simpa using hspace)

theorem stripPadding_pad (s : List Char) : stripPadding (s ++ ['=']) = stripPadding s :=
  stripPadding_replicate s 1

theorem stripPadding_concat (s : List Char) {e : Char} (he : e ≠ '=') :
    stripPadding (s ++ [e]) = s ++ [e] :=
  List.rdropWhile_concat_neg _ _ _ (by simpa using he)

/-- Padding is stripped behind the last character that is no `=`. -/
theorem stripPadding_append {s t : List Char} {d : Char} (ht : d ∈ t) (hd : d ≠ '=') :
    stripPadding (s ++ t) = s ++ stripPadding t := by
  induction t using List.reverseRecOn with
  | nil => cases ht
  | append_singleton t e ih =>
    rw [← List.append_assoc]
    by_cases he : e = '='
    · subst he
      have hmem : d ∈ t := (List.mem_append.mp ht).resolve_right
        fun h => hd (List.mem_singleton.mp h)
      rw [stripPadding_pad, stripPadding_pad, ih hmem]
    · rw [stripPadding_concat _ he, stripPadding_concat _ he, List.append_assoc]

theorem mem_stripPadding {s : List Char} {d : Char} (hmem : d ∈ s) (hd : d ≠ '=') :
    d ∈ stripPadding s := by
  rw [stripPadding, List.rdropWhile, List.mem_reverse]
  rw [← List.mem_reverse, ← @List.takeWhile_append_dropWhile _ (· == '=') s.reverse,
    List.mem_append] at hmem
  rcases hmem with hpad | hrest
  · have hd' := List.mem_takeWhile_imp hpad
    exact absurd (beq_iff_eq.mp hd') hd
  · exact hrest

/-- The text in front of its padding, and the padding. -/
theorem exists_padding (s : List Char) :
    ∃ k, s = stripPadding s ++ List.replicate k '=' := by
  induction s using List.reverseRecOn with
  | nil => exact ⟨0, rfl⟩
  | append_singleton s e ih =>
    by_cases he : e = '='
    · subst he
      obtain ⟨k, hk⟩ := ih
      refine ⟨k + 1, ?_⟩
      rw [stripPadding_pad, List.replicate_succ', ← List.append_assoc, ← hk]
    · refine ⟨0, ?_⟩
      rw [stripPadding_concat s he, List.replicate_zero, List.append_nil]

/-- A `=` that is not stripped has something else behind it. -/
theorem exists_behind {s : List Char} (h : '=' ∈ stripPadding s) :
    ∃ u v e, stripPadding s = u ++ '=' :: v ∧ e ∈ v ∧ e ≠ '=' := by
  obtain ⟨u, v, huv⟩ := List.append_of_mem h
  by_cases hall : ∃ e ∈ v, e ≠ '='
  · obtain ⟨e, he, hne⟩ := hall
    exact ⟨u, v, e, huv, he, hne⟩
  · -- nothing but padding would be stripped again
    push Not at hall
    have hv : v = List.replicate v.length '=' := List.eq_replicate_of_mem hall
    have hidem : stripPadding (stripPadding s) = stripPadding s := List.rdropWhile_idempotent _ _
    have hstrip := hidem
    rw [huv, hv, ← List.replicate_succ, stripPadding_replicate] at hstrip
    have hlen := congrArg List.length hstrip
    have hle : (stripPadding u).length ≤ u.length := (List.rdropWhile_prefix _ u).length_le
    simp only [List.length_append, List.length_replicate] at hlen
    omega

/-- Something is left of a character in upper case that is no padding. -/
theorem exists_upperChar {e : Char} (h : e ≠ '=') : ∃ d ∈ JsText.upperChar e, d ≠ '=' := by
  rcases upperChar_iff h with ⟨hnil, -, hgood⟩ | ⟨-, d, hd, hne, -⟩
  · obtain ⟨d, hd⟩ := List.exists_mem_of_ne_nil _ hnil
    refine ⟨d, hd, ?_⟩
    rintro rfl
    exact absurd (hgood _ hd) (by rw [not_isGood_padding]; decide)
  · exact ⟨d, hd, hne⟩

theorem good_toUpperCase {s : List Char}
    (h : ∀ c ∈ s, isTolerated c = true ∨ isExpanding c = true) :
    ∀ d ∈ JsText.toUpperCase s, isGood d = true := by
  intro d hd
  obtain ⟨c, hc, hdc⟩ := List.mem_flatMap.mp hd
  have hfit := h c hc
  have hne : c ≠ '=' := by
    rintro rfl
    exact absurd hfit (by decide +kernel)
  exact ((upperChar_iff hne).resolve_right fun hbad => hbad.1 hfit).2.2 d hdc

/-- What the decoder takes: padding at the very end, and the ten characters among the letters. -/
theorem accepted_iff (s : String) :
    (base32Decode s).isOk = true ↔ ∃ body k, s.toList = body ++ List.replicate k '='
      ∧ ∀ c ∈ body, isTolerated c = true ∨ isExpanding c = true := by
  rw [decode_isOk]
  constructor
  · intro h
    obtain ⟨k, hk⟩ := exists_padding s.toList
    refine ⟨stripPadding s.toList, k, hk, ?_⟩
    intro c hc
    by_contra hbad
    by_cases hpad : c = '='
    · -- padding in the middle has something behind it, and is not stripped
      subst hpad
      obtain ⟨u, v, e, huv, he, hne⟩ := exists_behind hc
      obtain ⟨d, hd, hdne⟩ := exists_upperChar hne
      have htext : JsText.toUpperCase s.toList
          = (JsText.toUpperCase u ++ ['='])
            ++ (JsText.toUpperCase v ++ List.replicate k '=') := by
        conv_lhs => rw [hk, huv]
        rw [toUpperCase_append, toUpperCase_append, toUpperCase_padding, List.append_assoc,
          List.append_assoc]
        rfl
      have hmem : d ∈ JsText.toUpperCase v ++ List.replicate k '=' :=
        List.mem_append_left _ (List.mem_flatMap.mpr ⟨e, he, hd⟩)
      have hpad := h '=' (by
        rw [htext, stripPadding_append hmem hdne]
        exact List.mem_append_left _ (List.mem_append_right _ (List.mem_singleton_self _)))
      rw [not_isGood_padding] at hpad
      cases hpad
    · rcases upperChar_iff hpad with ⟨-, hfit, -⟩ | ⟨-, d, hd, hdne, hgood⟩
      · exact hbad hfit
      · have hc' : c ∈ s.toList := by
          rw [hk]
          exact List.mem_append_left _ hc
        have hmem := mem_stripPadding (List.mem_flatMap.mpr ⟨c, hc', hd⟩) hdne
        rw [h d hmem] at hgood
        cases hgood
  · rintro ⟨body, k, hs, hbody⟩
    have hgood := good_toUpperCase hbody
    rw [hs, toUpperCase_append, toUpperCase_padding, stripPadding_replicate]
    intro c hc
    exact hgood c ((List.rdropWhile_prefix _ _).subset hc)

/-! ### The two languages -/

section

variable {s : List Char}

theorem Tolerated.wide (h : Tolerated s) : Wide s := by
  obtain ⟨body, pad, hs, hbody, hpad⟩ := h
  exact ⟨body, pad, hs, fun c hc => Or.inl (hbody c hc), hpad⟩

theorem wide_of_accepted {body : List Char} {k : ℕ} (hs : s = body ++ List.replicate k '=')
    (hbody : ∀ c ∈ body, isTolerated c = true ∨ isExpanding c = true) : Wide s :=
  ⟨body, List.replicate k '=', hs, hbody, fun _ hc => Or.inl (List.eq_of_mem_replicate hc)⟩

/-- Among the wide forms, the tolerated ones have none of the ten characters. -/
theorem Wide.tolerated_iff (h : Wide s) : Tolerated s ↔ ¬ Expands s := by
  constructor
  · rintro ⟨body, pad, rfl, hbody, hpad⟩ ⟨c, hc, hexp⟩
    obtain ⟨hne, hspace, htol, -⟩ := isGood_of_isExpanding hexp
    rcases List.mem_append.mp hc with hmem | hmem
    · rw [hbody c hmem] at htol
      cases htol
    · rcases hpad c hmem with rfl | hsp
      · exact hne rfl
      · rw [hsp] at hspace
        cases hspace
  · intro hnone
    obtain ⟨body, pad, rfl, hbody, hpad⟩ := h
    refine ⟨body, pad, rfl, ?_, hpad⟩
    intro c hc
    exact (hbody c hc).resolve_right fun hexp => hnone ⟨c, List.mem_append_left _ hc, hexp⟩

/-- No padding in the letters. -/
theorem ne_padding_of_fits {c : Char} (h : isTolerated c = true ∨ isExpanding c = true) :
    c ≠ '=' := by
  rintro rfl
  exact absurd h (by decide +kernel)

theorem SpaceAfterPadding.append (h : SpaceAfterPadding s) (body : List Char) :
    SpaceAfterPadding (body ++ s) := by
  obtain ⟨u, v, rfl, hmem, hspace⟩ := h
  exact ⟨body ++ u, v, (List.append_assoc ..).symm, List.mem_append_right _ hmem, hspace⟩

/-- A padding with white space in front of it only. -/
theorem dropWhile_padding (hpad : ∀ c ∈ s, c = '=' ∨ JsText.isSpace c = true)
    (hnone : ¬ SpaceAfterPadding s) :
    s.dropWhile JsText.isSpace = List.replicate (s.dropWhile JsText.isSpace).length '=' := by
  apply List.eq_replicate_of_mem
  intro c hc
  have hsub := (List.dropWhile_suffix JsText.isSpace (l := s)).subset
  refine (hpad c (hsub hc)).resolve_right fun hspace => hnone ?_
  -- the rest begins with a `=`
  obtain ⟨d, rest, hrest⟩ := List.exists_cons_of_ne_nil (List.ne_nil_of_mem hc)
  have hd : JsText.isSpace d = false := by
    have hhead := List.head?_dropWhile_not JsText.isSpace s
    rw [hrest] at hhead
    simpa using hhead
  have hdmem : d ∈ s.dropWhile JsText.isSpace := by
    rw [hrest]
    exact List.mem_cons_self
  have hdpad : d = '=' := (hpad d (hsub hdmem)).resolve_right (by rw [hd]; decide)
  refine ⟨s.takeWhile JsText.isSpace ++ [d], rest, ?_, ?_, c, ?_, hspace⟩
  · rw [List.append_assoc, List.singleton_append, ← hrest, List.takeWhile_append_dropWhile]
  · rw [hdpad]
    exact List.mem_append_right _ (List.mem_singleton_self _)
  · rw [hrest] at hc
    refine (List.mem_cons.mp hc).resolve_left ?_
    rintro rfl
    rw [hspace] at hd
    cases hd

/-- Among the wide forms, the ones that are taken have no white space behind a `=`. -/
theorem Wide.accepted_iff (h : Wide s) :
    (∃ body k, s = body ++ List.replicate k '='
        ∧ ∀ c ∈ body, isTolerated c = true ∨ isExpanding c = true) ↔ ¬ SpaceAfterPadding s := by
  constructor
  · rintro ⟨body, k, rfl, hbody⟩ ⟨u, v, huv, hmem, c, hc, hspace⟩
    -- the `=` is behind the letters, so all that follows is padding
    rcases List.append_eq_append_iff.mp huv with ⟨t, hu, hv⟩ | ⟨t, hu, -⟩
    · have hcmem : c ∈ List.replicate k '=' := by
        rw [hv]
        exact List.mem_append_right _ hc
      obtain rfl := List.eq_of_mem_replicate hcmem
      exact absurd hspace (by decide)
    · have hmem' : '=' ∈ body := by
        rw [hu]
        exact List.mem_append_left _ hmem
      exact ne_padding_of_fits (hbody _ hmem') rfl
  · intro hnone
    obtain ⟨body, pad, rfl, hbody, hpad⟩ := h
    refine ⟨body ++ pad.takeWhile JsText.isSpace, (pad.dropWhile JsText.isSpace).length, ?_, ?_⟩
    · rw [List.append_assoc, ← dropWhile_padding hpad fun h => hnone (h.append body),
        List.takeWhile_append_dropWhile]
    · intro c hc
      rcases List.mem_append.mp hc with hmem | hmem
      · exact hbody c hmem
      · have hspace := List.mem_takeWhile_imp hmem
        exact Or.inl (isTolerated_of_isSpace hspace)

end

/-- The decoder takes a text exactly if it is a tolerated form, on the texts that are no wide
    form, and on those that have one of the ten characters together with white space behind a `=`,
    or neither of the two. -/
theorem accepted_iff_tolerated_iff (s : String) :
    ((base32Decode s).isOk = true ↔ Tolerated s.toList)
      ↔ (Wide s.toList → (Expands s.toList ↔ SpaceAfterPadding s.toList)) := by
  rw [accepted_iff]
  by_cases hwide : Wide s.toList
  · rw [hwide.accepted_iff, hwide.tolerated_iff]
    tauto
  · constructor
    · intro _ h
      exact absurd h hwide
    · intro _
      constructor
      · rintro ⟨body, k, hs, hbody⟩
        exact absurd (wide_of_accepted hs hbody) hwide
      · intro h
        exact absurd h.wide hwide

/-- A padding in groups, and a character whose upper case are two letters. -/
theorem not_tolerant :
    ¬ ((base32Decode "MY== ====").isOk = true ↔ Tolerated "MY== ====".toList)
      ∧ ¬ ((base32Decode "ß").isOk = true ↔ Tolerated "ß".toList) := by
  have hrefused : (base32Decode "MY== ====").isOk = false := by decide +kernel
  have htaken : (base32Decode "ß").isOk = true := by decide +kernel
  constructor
  · rw [hrefused]
    intro h
    have htol : Tolerated "MY== ====".toList :=
      ⟨['M', 'Y'], "== ====".toList, by decide, by decide, by decide⟩
    exact absurd (h.mpr htol) Bool.false_ne_true
  · rintro h
    obtain ⟨body, pad, hs, hbody, hpad⟩ := h.mp htaken
    have hmem : 'ß' ∈ body ++ pad := by
      rw [← hs]
      decide
    rcases List.mem_append.mp hmem with hin | hin
    · exact absurd (hbody _ hin) (by decide)
    · exact absurd (hpad _ hin) (by decide)

end Argus.Core
