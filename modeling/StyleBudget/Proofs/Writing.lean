/-
  What is written is read as the lexeme that it is meant to be, whatever stands behind it,
  as long as that does not go on with it; and the lexeme stands for what has been written.

  * `nameLexeme?_of_isNameText` and its neighbours are about words;
  * `stringLexeme?_stringSource` and `unquoted_stringSource` are about strings,
    `numberLexeme?_intText` and `numberScalar_intText` about integers;
  * `selectorLexeme?_selectorsSource` and `selectorsOf_selectorsSource` are about selector
    lists, `declarationLexeme?_declarationSource` and `declarationOf_declarationSource`
    about declarations.
-/
import StyleBudget.Proofs.Placeholders
import StyleBudget.Proofs.Source
import StyleBudget.Proofs.Spacing

namespace StyleBudget

/-! ## Words -/

section

variable {start : Char → Bool} {cs rest : List Char}

theorem isWord_cases (h : isWord start cs = true) :
    ∃ c word, cs = c :: word ∧ start c = true ∧ ∀ d ∈ word, isNameChar d = true := by
  cases cs with
  | nil => cases h
  | cons c word =>
    simp only [isWord, Bool.and_eq_true, List.all_eq_true] at h
    exact ⟨c, word, rfl, h.1, h.2⟩

theorem isNameChar_of_isWord (hs : ∀ c, start c = true → isNameChar c = true)
    (h : isWord start cs = true) : ∀ c ∈ cs, isNameChar c = true := by
  obtain ⟨c, word, rfl, hc, hword⟩ := isWord_cases h
  intro d hd
  rcases List.mem_cons.1 hd with rfl | hd
  · exact hs d hc
  · exact hword d hd

/-- A name is the lexeme at the front of a text if no name character follows it. -/
theorem nameLexeme?_of_isNameText (h : isNameText cs = true) (hr : Stops isNameChar rest) :
    nameLexeme? (cs ++ rest) = some cs := by
  have hne : cs ≠ [] := by rintro rfl; cases h
  obtain ⟨c, word, hbody, hc, hword⟩ := isWord_cases h
  have hplain : plainNameLexeme? ((takeHyphen cs).2 ++ rest) = some (takeHyphen cs).2 := by
    simp only [hbody, List.cons_append, plainNameLexeme?, if_pos hc, (scan_append hword hr).1]
  rw [nameLexeme?, hyphenated?, takeHyphen_append_of_ne_nil hne, hplain, Option.map_some,
    takeHyphen_append]

theorem markedNameLexeme?_of_isWord {mark : Char} (h : isWord isNameStart cs = true)
    (hr : Stops isNameChar rest) :
    markedNameLexeme? mark (mark :: cs ++ rest) = some (mark :: cs) := by
  obtain ⟨c, word, rfl, hc, hword⟩ := isWord_cases h
  simp only [List.cons_append, markedNameLexeme?, (scan_append hword hr).1, beq_self_eq_true, hc,
    Bool.and_self, if_true]

theorem flagLexeme?_of_isFlagText (h : isFlagText cs = true) (hr : Stops Char.isAlpha rest) :
    flagLexeme? (cs ++ rest) = some cs := by
  unfold isFlagText at h
  split at h
  · rename_i c word
    simp only [Bool.and_eq_true, List.all_eq_true] at h
    simp only [List.cons_append, flagLexeme?, if_pos h.1, (scan_append h.2 hr).1]
  · cases h

theorem wordLexeme?_self (word rest : List Char) : wordLexeme? word (word ++ rest) = some word := by
  rw [wordLexeme?, if_pos (List.isPrefixOf_iff_prefix.2 (List.prefix_append word rest))]

end

/-! ## Scalars -/

section

variable {cs rest : List Char}

theorem toList_stringSource (s : String) :
    ∃ q, (q = '"' ∨ q = '\'') ∧ (isQuotable s = true → q ∉ s.toList) ∧
      (stringSource s).toList = q :: (s.toList ++ [q]) := by
  by_cases h : s.toList.contains '"' = true
  · refine ⟨'\'', .inr rfl, fun hq => ?_, ?_⟩
    · rw [isQuotable, h] at hq
      simpa using hq
    · rw [stringSource, if_pos h]
      simp
  · refine ⟨'"', .inl rfl, fun _ => by simpa using h, ?_⟩
    rw [stringSource, if_neg h]
    simp

theorem stringLexeme?_stringSource {s : String} (h : isQuotable s = true) (rest : List Char) :
    stringLexeme? ((stringSource s).toList ++ rest) = some (stringSource s).toList := by
  obtain ⟨q, hq, hfree, hs⟩ := toList_stringSource s
  have hfree : ∀ c ∈ s.toList, (c != q) = true :=
    fun c hc => bne_iff_ne.2 fun he => hfree h (he ▸ hc)
  have hscan := scan_append hfree (Stops.cons (c := q) (by simp) rest)
  have hmark : (q == '"' || q == '\'') = true := by
    rcases hq with rfl | rfl
    · rfl
    · rfl
  have hsplit : q :: (s.toList ++ [q]) ++ rest = q :: (s.toList ++ q :: rest) := by simp
  rw [hs, hsplit]
  simp only [stringLexeme?, if_pos hmark, hscan.1, hscan.2, List.cons_append]

theorem unquoted_stringSource (s : String) : unquoted (stringSource s).toList = s := by
  obtain ⟨q, -, -, hs⟩ := toList_stringSource s
  rw [unquoted, hs]
  simp

theorem digitValue?_of_isDigit {c : Char} (h : c.isDigit = true) :
    digitValue? c = some (c.toNat - '0'.toNat) := by
  have hn := h
  simp only [Char.isDigit, Bool.and_eq_true, decide_eq_true_eq, UInt32.le_iff_toNat_le] at hn
  change 48 ≤ c.toNat ∧ c.toNat ≤ 57 at hn
  rw [digitValue?, if_pos (by omega), if_pos h]
  rfl

theorem digitsValueFrom?_of_isDigit {cs : List Char} (h : ∀ c ∈ cs, c.isDigit = true) (n : Nat) :
    digitsValueFrom? n cs = some (Nat.ofDigitChars 10 cs n) := by
  induction cs generalizing n with
  | nil => rfl
  | cons c cs ih =>
    rw [digitsValueFrom?, digitValue?_of_isDigit (h c (List.mem_cons_self ..)), Option.bind_some,
      ih fun d hd => h d (List.mem_cons_of_mem c hd), Nat.ofDigitChars_cons]

/-- The text of an integer: a hyphen if it is negative, and its digits. -/
theorem toList_intText (n : Int) :
    (intText n).toList = (if n < 0 then ['-'] else []) ++ Nat.toDigits 10 n.natAbs := by
  rw [intText]
  split
  · rw [String.toList_append, Nat.toList_repr]; rfl
  · rw [Nat.toList_repr]; rfl

theorem isDigit_of_mem_toDigits {n : Nat} {c : Char} (hc : c ∈ Nat.toDigits 10 n) :
    c.isDigit = true :=
  Nat.isDigit_of_mem_toDigits (by decide) (by decide) hc

theorem takeHyphen_of_isDigit {c : Char} (hc : c.isDigit = true) (cs : List Char) :
    takeHyphen (c :: cs) = ([], c :: cs) := by
  rw [takeHyphen]
  rintro _ ⟨⟩
  cases hc

theorem takeHyphen_intText (n : Int) (rest : List Char) :
    takeHyphen ((intText n).toList ++ rest) =
      (if n < 0 then ['-'] else [], Nat.toDigits 10 n.natAbs ++ rest) := by
  rw [toList_intText]
  by_cases hn : n < 0
  · rw [if_pos hn]; rfl
  · obtain ⟨c, cs, hcs⟩ := List.exists_cons_of_ne_nil (@Nat.toDigits_ne_nil n.natAbs 10)
    have hc : c.isDigit = true := isDigit_of_mem_toDigits (hcs ▸ List.mem_cons_self ..)
    rw [if_neg hn, hcs]
    exact takeHyphen_of_isDigit hc _

/-- The text of an integer is the lexeme at the front of a text if neither a digit nor a point
    follows it. -/
theorem numberLexeme?_intText (n : Int) (hd : Stops isDecimalDigit rest) (hp : rest.head? ≠ some '.') :
    numberLexeme? ((intText n).toList ++ rest) = some (intText n).toList := by
  have hfraction : fractionLexeme rest = [] := by
    unfold fractionLexeme
    split
    · exact absurd rfl hp
    · rfl
  have hplain : plainNumberLexeme? (Nat.toDigits 10 n.natAbs ++ rest) =
      some (Nat.toDigits 10 n.natAbs) := by
    have hdigits : ∀ c ∈ Nat.toDigits 10 n.natAbs, isDecimalDigit c = true := by
      intro c hc
      rw [isDecimalDigit, digitValue?_of_isDigit (isDigit_of_mem_toDigits hc)]; rfl
    obtain ⟨c, cs, hcs⟩ := List.exists_cons_of_ne_nil (@Nat.toDigits_ne_nil n.natAbs 10)
    rw [hcs] at hdigits ⊢
    have hscan := scan_append (fun d hd => hdigits d (List.mem_cons_of_mem c hd)) hd
    simp only [List.cons_append, plainNumberLexeme?, if_pos (hdigits c (List.mem_cons_self ..)),
      hscan.1, hscan.2, hfraction, List.append_nil]
  rw [numberLexeme?, hyphenated?, takeHyphen_intText, hplain, Option.map_some, toList_intText]

theorem numberScalar_intText (n : Int) : numberScalar (intText n).toList = .int n := by
  have hpoint : cutAt? '.' (Nat.toDigits 10 n.natAbs) = none := by
    refine cutAt?_eq_none_iff.2 fun hc => ?_
    cases isDigit_of_mem_toDigits hc
  have hvalue : digitsValue? (Nat.toDigits 10 n.natAbs) = some n.natAbs := by
    rw [digitsValue?, digitsValueFrom?_of_isDigit fun c hc => isDigit_of_mem_toDigits hc,
      Nat.ofDigitChars_ten_toDigits]
  have hhyphen := takeHyphen_intText n []
  rw [List.append_nil, List.append_nil] at hhyphen
  simp only [numberScalar, hhyphen, hpoint, hvalue, Option.getD_some]
  by_cases hn : n < 0
  · simp only [if_pos hn, List.isEmpty_cons, Bool.false_eq_true, if_false]
    congr 1
    omega
  · simp only [if_neg hn, List.isEmpty_nil, if_true]
    congr 1
    omega

theorem overlongDigits?_intText {n : Int} (h : (Scalar.int n).canonical = true) :
    overlongDigits? (intText n).toList = none := by
  have hhyphen := takeHyphen_intText n []
  rw [List.append_nil, List.append_nil] at hhyphen
  have hlen : ¬ maxIntegerDigits < (Nat.toDigits 10 n.natAbs).length :=
    Nat.not_lt.2 (by simpa [Scalar.canonical] using h)
  simp only [overlongDigits?, hhyphen, hlen, decide_false, Bool.and_false, Bool.false_eq_true,
    if_false]

end

/-! ## Selector lists -/

section

variable {cs rest : List Char} {selectors : List String} {s : String}

theorem isSelectorText_iff : isSelectorText s = true ↔
    Squeezed s.toList ∧ ∀ c ∈ s.toList, c ≠ ',' ∧ isBlockMark c = false := by
  have hnormal : normalizeSelector s = s ↔ squeeze s.toList = s.toList := by
    rw [normalizeSelector]
    exact ⟨fun h => by rw [← String.toList_ofList (l := squeeze s.toList), h],
      fun h => by rw [h, String.ofList_toList]⟩
  simp only [isSelectorText, squeezed_iff, Bool.and_eq_true, Bool.not_eq_true', beq_iff_eq,
    List.all_eq_true, Bool.or_eq_false_iff, beq_eq_false_iff_ne, String.isEmpty_eq_false_iff,
    hnormal, ne_eq, String.toList_eq_nil_iff]

theorem selectorsOf_append_cons (cs ds : List Char) :
    selectorsOf (cs ++ ',' :: ds) = selectorsOf cs ++ selectorsOf ds := by
  rw [selectorsOf, List.splitOn, List.splitOnP_append_cons cs ds (by rfl), List.filter_append,
    List.map_append]
  rfl

/-- The one selector of a text without commas. -/
theorem selectorsOf_around {before after : List Char} (hs : isSelectorText s = true)
    (hb : ∀ c ∈ before, isBlank c = true) (ha : ∀ c ∈ after, isBlank c = true) :
    selectorsOf (before ++ s.toList ++ after) = [s] := by
  obtain ⟨hsq, hfree⟩ := isSelectorText_iff.1 hs
  have hcomma : ∀ c ∈ before ++ s.toList ++ after, (c == ',') = false := by
    intro c hc
    refine beq_eq_false_iff_ne.2 ?_
    rintro rfl
    simp only [List.mem_append] at hc
    rcases hc with (hc | hc) | hc
    · exact absurd (hb _ hc) (by decide)
    · exact (hfree _ hc).1 rfl
    · exact absurd (ha _ hc) (by decide)
  have hfull : (trim (before ++ s.toList ++ after)).isEmpty = false := by
    obtain ⟨c, cs, hcs⟩ := List.exists_cons_of_ne_nil hsq.ne_nil
    have hhead := (hcs ▸ hsq : Squeezed (c :: cs)).head
    simpa using trim_ne_nil (by simp [hcs]) hhead
  have hsqueeze : squeeze (before ++ s.toList ++ after) = s.toList := by
    rw [squeeze, wordsOf_around hb ha]
    exact hsq.squeeze
  rw [selectorsOf, List.splitOn, List.splitOnP_eq_singleton hcomma]
  simp only [List.filter_cons, hfull, Bool.not_false, if_true, List.filter_nil, List.map_cons,
    List.map_nil, hsqueeze, String.ofList_toList]

/-- The text of a selector list, up to the brace. -/
def selectorsSource (selectors : List String) : List Char :=
  [',', '\n'].intercalate (selectors.map String.toList) ++ [' ']

/-- A selector list is read as the selectors that have been written. -/
theorem selectorsOf_selectorsSource (hne : selectors ≠ [])
    (hs : ∀ s ∈ selectors, isSelectorText s = true) :
    selectorsOf (selectorsSource selectors) = selectors := by
  -- the line ends go to the front of the selectors behind them
  suffices h : ∀ before, (∀ c ∈ before, isBlank c = true) →
      selectorsOf (before ++ selectorsSource selectors) = selectors from h [] (by simp)
  induction selectors with
  | nil => exact absurd rfl hne
  | cons first rest ih =>
    intro before hb
    have hfirst := hs first (List.mem_cons_self ..)
    cases rest with
    | nil =>
      have h := @selectorsOf_around _ before [' '] hfirst hb (List.forall_mem_singleton.2 rfl)
      simpa [selectorsSource] using h
    | cons second rest =>
      have hrest := ih (by simp) (fun s hm => hs s (List.mem_cons_of_mem first hm)) ['\n']
        (List.forall_mem_singleton.2 rfl)
      have hsplit : before ++ selectorsSource (first :: second :: rest) =
          (before ++ first.toList ++ []) ++ ',' :: (['\n'] ++ selectorsSource (second :: rest)) := by
        simp [selectorsSource, List.intercalate_cons_cons]
      rw [hsplit, selectorsOf_append_cons, selectorsOf_around hfirst hb (by simp), hrest]
      rfl

theorem isBlockMark_of_mem_selectorsSource (hs : ∀ s ∈ selectors, isSelectorText s = true) :
    ∀ c ∈ selectorsSource selectors, isBlockMark c = false := by
  intro c hc
  rcases List.mem_append.1 hc with hc | hc
  · rcases of_mem_intercalate hc with hc | ⟨word, hw, hc⟩
    · simp only [List.mem_cons, List.not_mem_nil, or_false] at hc
      rcases hc with rfl | rfl
      · rfl
      · rfl
    · obtain ⟨s, hm, rfl⟩ := List.mem_map.1 hw
      exact ((isSelectorText_iff.1 (hs s hm)).2 c hc).2
  · rw [List.mem_singleton.1 hc]
    rfl

theorem selectorLexeme?_selectorsSource (h : canonicalSelectors selectors = true)
    (rest : List Char) :
    selectorLexeme? (selectorsSource selectors ++ '{' :: rest) =
      some (selectorsSource selectors) := by
  cases selectors with
  | nil => cases h
  | cons first more =>
    simp only [canonicalSelectors, Bool.and_eq_true, List.all_eq_true] at h
    obtain ⟨hopen, hs⟩ := h
    obtain ⟨hsq, hfree⟩ := isSelectorText_iff.1 (hs first (List.mem_cons_self ..))
    obtain ⟨c, cs, hcs⟩ := List.exists_cons_of_ne_nil hsq.ne_nil
    have hmarks := isBlockMark_of_mem_selectorsSource hs
    obtain ⟨tail, htail⟩ : ∃ tail, selectorsSource (first :: more) = c :: tail := by
      cases more with
      | nil => exact ⟨cs ++ [' '], by simp [selectorsSource, hcs]⟩
      | cons second more =>
        exact ⟨cs ++ ',' :: '\n' :: selectorsSource (second :: more),
          by simp [selectorsSource, List.intercalate_cons_cons, hcs]⟩
    have hc : ¬ (isBlank c || isBlockMark c || c == '@' || c == '$' || c == '/') = true := by
      rw [opensRule, hcs] at hopen
      have hblank := (hcs ▸ hsq : Squeezed (c :: cs)).head
      have hmark := (hfree c (hcs ▸ List.mem_cons_self ..)).2
      simpa [hblank, hmark] using hopen
    rw [htail] at hmarks ⊢
    have hfree : ∀ d ∈ tail, (!isBlockMark d) = true := by
      intro d hd
      simpa using hmarks d (List.mem_cons_of_mem c hd)
    have hscan := scan_append hfree (.cons (c := '{') rfl rest)
    simp only [List.cons_append, selectorLexeme?, if_neg hc, hscan.1, hscan.2]

end

/-! ## Declarations -/

section

variable {d : Declaration}

theorem Declaration.canonical_iff : d.canonical = true ↔
    isWord (fun c => c.isAlpha || c == '-') d.name.toList = true ∧
      trim d.value.toList = d.value.toList ∧ ∀ c ∈ d.value.toList, isBlockMark c = false := by
  simp only [canonical, Bool.and_eq_true, beq_iff_eq, List.all_eq_true, Bool.not_eq_true',
    and_assoc]

theorem isNameChar_of_opensDeclaration (c : Char) (h : (c.isAlpha || c == '-') = true) :
    isNameChar c = true := by
  simp only [Bool.or_eq_true, beq_iff_eq] at h
  rcases h with h | rfl
  · exact isNameChar_of_isNameStart (by simp [isNameStart, h])
  · rfl

/-- A declaration stands for its name and the value behind the colon, without the semicolon
    and white space around it. -/
theorem declarationOf_eq {word blanks tail value : List Char}
    (hw : isWord (fun c => c.isAlpha || c == '-') word = true) (hb : ∀ c ∈ blanks, isBlank c = true)
    (hv : dropEndWhile (· == ';') (trimEnd tail) = value) :
    declarationOf (word ++ (blanks ++ ':' :: tail)) =
      ⟨String.ofList word, String.ofList (trim value)⟩ := by
  have hchars := isNameChar_of_isWord isNameChar_of_opensDeclaration hw
  have hblank : ∀ c ∈ word, isBlank c = false := fun c hc => isBlank_of_isNameChar (hchars c hc)
  have htrim : trim (word ++ (blanks ++ ':' :: tail)) =
      (word ++ blanks) ++ ':' :: trimEnd tail := by
    obtain ⟨c, rest, rfl, -, -⟩ := isWord_cases hw
    rw [trim, trimStart, List.cons_append,
      List.dropWhile_cons_of_neg (by simp [hblank c (List.mem_cons_self ..)]), ← List.cons_append,
      ← List.append_assoc, trimEnd, dropEndWhile_append_cons (by rfl)]
    rfl
  have hcolon : ':' ∉ word ++ blanks := by
    intro hc
    rcases List.mem_append.1 hc with hc | hc
    · cases hchars ':' hc
    · cases hb ':' hc
  have hcut : cutAt? ':' ((word ++ blanks) ++ ':' :: value) = some (word ++ blanks, value) :=
    cutAt?_eq_some_iff.2 ⟨rfl, hcolon⟩
  have hname : trim (word ++ blanks) = word := trim_append hblank hb
  simp only [declarationOf, htrim, dropEndWhile_append_cons (p := (· == ';')) (d := ':') rfl, hv,
    hcut, hname]

/-- The text of a declaration, up to its semicolon. -/
def declarationSource (d : Declaration) : List Char :=
  d.name.toList ++ ':' :: (' ' :: (d.value.toList ++ [';']))

theorem declarationLexeme?_declarationSource (h : d.canonical = true) (rest : List Char) :
    declarationLexeme? (declarationSource d ++ rest) = some (declarationSource d) := by
  obtain ⟨hname, -, hvalue⟩ := Declaration.canonical_iff.1 h
  obtain ⟨c, word, hc, hstart, hword⟩ := isWord_cases hname
  have hsplit : declarationSource d ++ rest =
      c :: (word ++ ':' :: (' ' :: (d.value.toList ++ ';' :: rest))) := by
    simp [declarationSource, hc]
  have hscan := scan_append hword
    (Stops.cons (c := ':') rfl (' ' :: (d.value.toList ++ ';' :: rest)))
  have hfree : ∀ c ∈ ' ' :: d.value.toList, (!isBlockMark c) = true := by
    intro c hc
    rcases List.mem_cons.1 hc with rfl | hc
    · rfl
    · simpa using hvalue c hc
  have hmarks := scan_append hfree (.cons (c := ';') rfl rest)
  rw [List.cons_append] at hmarks
  have hcolon : colonValueLexeme? (':' :: (' ' :: (d.value.toList ++ ';' :: rest))) =
      some (':' :: ' ' :: (d.value.toList ++ [';'])) := by
    have hblank := (Stops.cons (p := isBlank) (c := ':') rfl
      (' ' :: (d.value.toList ++ ';' :: rest))).scan
    simp only [colonValueLexeme?, hblank.1, hblank.2, valueLexeme?, hmarks.1, hmarks.2]
    rfl
  rw [hsplit]
  simp only [declarationLexeme?, if_pos hstart, hscan.1, hscan.2, hcolon, Option.map_some]
  rw [declarationSource, hc]
  rfl

/-- A declaration is read as it has been written. -/
theorem declarationOf_declarationSource (h : d.canonical = true) :
    declarationOf (declarationSource d) = d := by
  obtain ⟨hname, htrim, hvalue⟩ := Declaration.canonical_iff.1 h
  have htail : dropEndWhile (· == ';') (trimEnd (' ' :: (d.value.toList ++ [';']))) =
      ' ' :: d.value.toList := by
    rw [← List.cons_append, trimEnd, dropEndWhile_append_cons (by rfl)]
    refine (dropEndWhile_append _ (List.forall_mem_singleton.2 rfl)).trans
      (dropEndWhile_of_forall fun c hc => beq_eq_false_iff_ne.2 ?_)
    rintro rfl
    rcases List.mem_cons.1 hc with hc | hc
    · cases hc
    · cases hvalue ';' hc
  have hsource : declarationSource d =
      d.name.toList ++ ([] ++ ':' :: (' ' :: (d.value.toList ++ [';']))) := rfl
  rw [hsource, declarationOf_eq hname (by simp) htail, trim_cons rfl, htrim, String.ofList_toList,
    String.ofList_toList]

end

end StyleBudget
