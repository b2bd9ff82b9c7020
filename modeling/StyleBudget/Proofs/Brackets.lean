/-
  What the commas of a selector list separate.

  A list is split at all of its commas, also at those between brackets, where they separate
  what stands in one selector.

  * `bracketsAfter` follows the open brackets of a text, `Balanced` says that they are closed
    as they have been opened, and `CommasOutside` that no comma of a list stands between them;
  * `balancedParts_splitOn_iff` is the split at all commas, `balancedParts_outerParts` the one at
    the commas outside brackets, and `outerParts_eq_splitOn` says when they agree;
  * `balanced_nestSelector` is about nesting;
  * `Sheet.balanced_selectors_iff` is the result, `not_balanced_functionalSheet` a list for which
    the two splits differ.
-/
import StyleBudget.Proofs.NormalForm
import StyleBudget.Proofs.RoundTrip

namespace StyleBudget

/-! ## Brackets -/

/-- What a character means for brackets. -/
inductive BracketKind where
  | opens (closing : Char)
  | closes
  | plain

def bracketKind : Char → BracketKind
  | '(' => .opens ')'
  | '[' => .opens ']'
  | ')' => .closes
  | ']' => .closes
  | _ => .plain

/-- The closing brackets that are awaited behind a character, if it may stand there. -/
def turnBracket (awaited : List Char) (c : Char) : Option (List Char) :=
  match bracketKind c with
  | .opens closing => some (closing :: awaited)
  | .closes =>
    match awaited with
    | d :: rest => if d = c then some rest else none
    | [] => none
  | .plain => some awaited

/-- The closing brackets that are awaited behind a text, if all of its own stand where they
    are awaited. -/
def bracketsAfter (awaited cs : List Char) : Option (List Char) := cs.foldlM turnBracket awaited

/-- Round and square brackets are closed in the order in which they have been opened. -/
def Balanced (cs : List Char) : Prop := bracketsAfter [] cs = some []

instance (cs : List Char) : Decidable (Balanced cs) :=
  inferInstanceAs (Decidable (bracketsAfter [] cs = some []))

section

variable {awaited awaited' under cs : List Char} {c : Char}

@[simp] theorem bracketsAfter_nil (awaited : List Char) : bracketsAfter awaited [] = some awaited :=
  rfl

theorem bracketsAfter_cons (awaited : List Char) (c : Char) (cs : List Char) :
    bracketsAfter awaited (c :: cs) =
      (turnBracket awaited c).bind fun awaited => bracketsAfter awaited cs :=
  rfl

theorem bracketsAfter_append (awaited cs ds : List Char) :
    bracketsAfter awaited (cs ++ ds) =
      (bracketsAfter awaited cs).bind fun awaited => bracketsAfter awaited ds :=
  List.foldlM_append

theorem turnBracket_of_plain (hc : bracketKind c = .plain) (awaited : List Char) :
    turnBracket awaited c = some awaited := by
  simp only [turnBracket, hc]

theorem bracketKind_of_isBlank (hc : isBlank c = true) : bracketKind c = .plain := by
  unfold bracketKind
  split
  · cases hc
  · cases hc
  · cases hc
  · cases hc
  · rfl

/-- Only what is no white space counts. -/
theorem bracketsAfter_filter (awaited cs : List Char) :
    bracketsAfter awaited (cs.filter fun c => !isBlank c) = bracketsAfter awaited cs := by
  induction cs generalizing awaited with
  | nil => rfl
  | cons c cs ih =>
    rw [List.filter_cons, bracketsAfter_cons]
    cases hc : isBlank c with
    | true =>
      rw [turnBracket_of_plain (bracketKind_of_isBlank hc), if_neg (by decide), ih]
      rfl
    | false =>
      rw [if_pos (by decide), bracketsAfter_cons]
      simp only [ih]

theorem balanced_squeeze : Balanced (squeeze cs) ↔ Balanced cs := by
  rw [Balanced, ← bracketsAfter_filter, filter_squeeze, bracketsAfter_filter, Balanced]

/-- A character that closes none of the brackets around it does not depend on them. -/
theorem turnBracket_under (h : turnBracket awaited c = some awaited') (under : List Char) :
    turnBracket (awaited ++ under) c = some (awaited' ++ under) := by
  simp only [turnBracket] at h ⊢
  cases hkind : bracketKind c with
  | opens closing =>
    rw [hkind] at h
    cases h
    rfl
  | plain =>
    rw [hkind] at h
    cases h
    rfl
  | closes =>
    rw [hkind] at h
    cases awaited with
    | nil => cases h
    | cons d rest =>
      simp only [Option.ite_none_right_eq_some, Option.some.injEq] at h
      obtain ⟨rfl, rfl⟩ := h
      exact if_pos rfl

theorem bracketsAfter_under (h : bracketsAfter awaited cs = some awaited') (under : List Char) :
    bracketsAfter (awaited ++ under) cs = some (awaited' ++ under) := by
  induction cs generalizing awaited with
  | nil =>
    cases h
    rfl
  | cons c cs ih =>
    rw [bracketsAfter_cons] at h
    obtain ⟨next, hturn, hrest⟩ := Option.bind_eq_some_iff.1 h
    rw [bracketsAfter_cons, turnBracket_under hturn]
    exact ih hrest

/-- **A balanced text** leaves the brackets around it as they are. -/
theorem Balanced.bracketsAfter (h : Balanced cs) (awaited : List Char) :
    bracketsAfter awaited cs = some awaited :=
  bracketsAfter_under h awaited

theorem Balanced.append {ds : List Char} (hc : Balanced cs) (hd : Balanced ds) :
    Balanced (cs ++ ds) := by
  rw [Balanced, bracketsAfter_append, hc]
  exact hd

end

/-! ## Parts of a list -/

/-- What stands in front of a comma of a list leads to no open bracket. -/
def CommasOutsideFrom (awaited l : List Char) : Prop :=
  ∀ before after, l = before ++ ',' :: after → bracketsAfter awaited before = some []

/-- No comma stands between brackets. -/
def CommasOutside (l : List Char) : Prop := CommasOutsideFrom [] l

/-- The parts are balanced, the first of them behind brackets that it has to close. -/
def BalancedParts (awaited : List Char) : List (List Char) → Prop
  | [] => True
  | first :: rest => bracketsAfter awaited first = some [] ∧ ∀ part ∈ rest, Balanced part

/-- The parts of a list between its commas outside brackets. -/
def outerParts (awaited : List Char) : List Char → List (List Char)
  | [] => [[]]
  | c :: cs =>
    if c = ',' ∧ awaited = [] then [] :: outerParts awaited cs
    else (outerParts ((turnBracket awaited c).getD awaited) cs).modifyHead (c :: ·)

section

variable {awaited awaited' l cs : List Char} {c : Char} {parts : List (List Char)}

theorem balancedParts_nil : BalancedParts [] parts ↔ ∀ part ∈ parts, Balanced part := by
  cases parts with
  | nil => exact iff_of_true trivial (List.forall_mem_nil _)
  | cons first rest =>
    rw [BalancedParts, List.forall_mem_cons]
    rfl

theorem balancedParts_cons :
    BalancedParts awaited ([] :: parts) ↔ awaited = [] ∧ BalancedParts [] parts := by
  rw [balancedParts_nil, BalancedParts, bracketsAfter_nil, Option.some.injEq]

theorem balancedParts_modifyHead (hturn : turnBracket awaited c = some awaited') :
    BalancedParts awaited (parts.modifyHead (c :: ·)) ↔ BalancedParts awaited' parts := by
  cases parts with
  | nil => exact Iff.rfl
  | cons first rest =>
    rw [List.modifyHead_cons, BalancedParts, BalancedParts, bracketsAfter_cons, hturn]
    rfl

theorem commasOutsideFrom_nil (awaited : List Char) : CommasOutsideFrom awaited [] := by
  intro before after h
  cases before <;> cases h

/-- A comma that is no part of brackets stands outside, and so do those behind it. -/
theorem commasOutsideFrom_comma :
    CommasOutsideFrom awaited (',' :: cs) ↔ awaited = [] ∧ CommasOutsideFrom [] cs := by
  constructor
  · intro h
    obtain rfl : awaited = [] := Option.some.inj (h [] cs rfl)
    refine ⟨rfl, fun before after hcs => ?_⟩
    exact h (',' :: before) after (congrArg (',' :: ·) hcs)
  · rintro ⟨rfl, h⟩ before after hcs
    cases before with
    | nil => rfl
    | cons d before =>
      obtain ⟨rfl, rfl⟩ := List.cons.inj hcs
      exact h before after rfl

theorem commasOutsideFrom_cons (hc : c ≠ ',') (hturn : turnBracket awaited c = some awaited') :
    CommasOutsideFrom awaited (c :: cs) ↔ CommasOutsideFrom awaited' cs := by
  constructor
  · intro h before after hcs
    have hfront := h (c :: before) after (congrArg (c :: ·) hcs)
    rwa [bracketsAfter_cons, hturn] at hfront
  · intro h before after hcs
    cases before with
    | nil => exact absurd (List.cons.inj hcs).1 hc
    | cons d before =>
      obtain ⟨rfl, rfl⟩ := List.cons.inj hcs
      rw [bracketsAfter_cons, hturn]
      exact h before after rfl

/-- **Splitting at all commas** leaves balanced parts exactly if the list is balanced and no
    comma stands between brackets. -/
theorem balancedParts_splitOn_iff :
    BalancedParts awaited (l.splitOn ',') ↔
      bracketsAfter awaited l = some [] ∧ CommasOutsideFrom awaited l := by
  induction l generalizing awaited with
  | nil =>
    rw [List.splitOn_nil, BalancedParts]
    simp [commasOutsideFrom_nil]
  | cons c cs ih =>
    rw [List.splitOn_cons_eq_if_modifyHead]
    by_cases hc : c = ','
    · subst hc
      rw [if_pos (by decide), balancedParts_cons, ih,
        commasOutsideFrom_comma, bracketsAfter_cons, turnBracket_of_plain rfl]
      constructor
      · rintro ⟨rfl, hb, hcommas⟩
        exact ⟨hb, rfl, hcommas⟩
      · rintro ⟨hb, rfl, hcommas⟩
        exact ⟨rfl, hb, hcommas⟩
    · rw [if_neg (by simpa using hc)]
      cases hturn : turnBracket awaited c with
      | none =>
        refine iff_of_false (fun h => ?_) (fun h => ?_)
        · obtain ⟨first, rest, hs⟩ := List.exists_cons_of_ne_nil (List.splitOn_ne_nil ',' cs)
          rw [hs, List.modifyHead_cons, BalancedParts, bracketsAfter_cons, hturn] at h
          cases h.1
        · rw [bracketsAfter_cons, hturn] at h
          cases h.1
      | some awaited' =>
        rw [balancedParts_modifyHead hturn, ih, commasOutsideFrom_cons hc hturn, bracketsAfter_cons,
          hturn]
        rfl

/-- The parts between the commas outside brackets are balanced if the list is. -/
theorem balancedParts_outerParts (h : bracketsAfter awaited l = some []) :
    BalancedParts awaited (outerParts awaited l) := by
  induction l generalizing awaited with
  | nil => exact ⟨h, List.forall_mem_nil _⟩
  | cons c cs ih =>
    rw [bracketsAfter_cons] at h
    obtain ⟨awaited', hturn, hrest⟩ := Option.bind_eq_some_iff.1 h
    rw [outerParts]
    split
    · rename_i hcomma
      obtain ⟨rfl, rfl⟩ := hcomma
      cases hturn
      exact balancedParts_cons.2 ⟨rfl, ih hrest⟩
    · rw [hturn, Option.getD_some, balancedParts_modifyHead hturn]
      exact ih hrest

/-- The two splits agree if no comma stands between brackets. -/
theorem outerParts_eq_splitOn (h : bracketsAfter awaited l = some [])
    (hcommas : CommasOutsideFrom awaited l) : outerParts awaited l = l.splitOn ',' := by
  induction l generalizing awaited with
  | nil => rw [outerParts, List.splitOn_nil]
  | cons c cs ih =>
    rw [bracketsAfter_cons] at h
    obtain ⟨awaited', hturn, hrest⟩ := Option.bind_eq_some_iff.1 h
    rw [outerParts, List.splitOn_cons_eq_if_modifyHead]
    by_cases hc : c = ','
    · subst hc
      obtain ⟨rfl, hbehind⟩ := commasOutsideFrom_comma.1 hcommas
      cases hturn
      rw [if_pos ⟨rfl, rfl⟩, if_pos (by decide), ih hrest hbehind]
    · rw [if_neg fun h => hc h.1, if_neg (by simpa using hc), hturn, Option.getD_some,
        ih hrest ((commasOutsideFrom_cons hc hturn).1 hcommas)]

end

/-! ## Selectors of a list -/

/-- The selectors that parts of a list stand for. -/
def partSelectors (parts : List (List Char)) : List String :=
  (parts.filter fun part => !(trim part).isEmpty).map fun part => String.ofList (squeeze part)

/-- The selectors of a list if only the commas outside brackets separate them. -/
def outerSelectorsOf (l : List Char) : List String := partSelectors (outerParts [] l)

section

variable {l : List Char} {parts : List (List Char)}

theorem balanced_partSelectors :
    (∀ s ∈ partSelectors parts, Balanced s.toList) ↔ ∀ part ∈ parts, Balanced part := by
  rw [partSelectors, List.forall_mem_map]
  simp only [String.toList_ofList, balanced_squeeze]
  refine ⟨fun h part hp => ?_, fun h part hp => h part (List.mem_filter.1 hp).1⟩
  by_cases hblank : trim part = []
  · -- a part of white space has no brackets
    have hnone : part.filter (fun c => !isBlank c) = [] := by
      refine List.filter_eq_nil_iff.2 fun c hc hb => ?_
      exact trim_ne_nil hc (by simpa using hb) hblank
    rw [Balanced, ← bracketsAfter_filter, hnone]
    rfl
  · exact h part (List.mem_filter.2 ⟨hp, by simpa using hblank⟩)

/-- **The selectors of a balanced list** are balanced exactly if no comma stands between
    brackets, and only then are they those that the commas outside brackets separate. -/
theorem balanced_selectorsOf_iff (h : Balanced l) :
    ((∀ s ∈ selectorsOf l, Balanced s.toList) ↔ CommasOutside l) ∧
      (selectorsOf l = outerSelectorsOf l ↔ CommasOutside l) ∧
      ∀ s ∈ outerSelectorsOf l, Balanced s.toList := by
  have hall : (∀ s ∈ selectorsOf l, Balanced s.toList) ↔ CommasOutside l := by
    have hparts : selectorsOf l = partSelectors (l.splitOn ',') := rfl
    rw [hparts, balanced_partSelectors, ← balancedParts_nil, balancedParts_splitOn_iff]
    exact and_iff_right h
  have houter : ∀ s ∈ outerSelectorsOf l, Balanced s.toList :=
    balanced_partSelectors.2 (balancedParts_nil.1 (balancedParts_outerParts h))
  refine ⟨hall, ⟨fun heq => hall.1 (heq ▸ houter), fun hcommas => ?_⟩, houter⟩
  rw [outerSelectorsOf, outerParts_eq_splitOn h hcommas]
  rfl

end

/-! ## Nesting -/

theorem bracketsAfter_replaceAmpersands {ps : List Char} (hp : Balanced ps)
    (awaited cs : List Char) :
    bracketsAfter awaited (replaceAmpersands ps cs) = bracketsAfter awaited cs := by
  induction cs generalizing awaited with
  | nil => rfl
  | cons c cs ih =>
    have hsplit : replaceAmpersands ps (c :: cs) =
        (if c == '&' then ps else [c]) ++ replaceAmpersands ps cs := rfl
    rw [hsplit, bracketsAfter_append, bracketsAfter_cons]
    split
    · rename_i hc
      obtain rfl : c = '&' := by simpa using hc
      rw [hp.bracketsAfter, turnBracket_of_plain rfl]
      exact ih awaited
    · have hone : bracketsAfter awaited [c] = turnBracket awaited c := by
        simp [bracketsAfter_cons]
      rw [hone]
      simp only [ih]

/-- A balanced selector in another one. -/
theorem balanced_nestSelector {parent child : String} (hp : Balanced parent.toList)
    (hc : Balanced child.toList) : Balanced (nestSelector parent child).toList := by
  rw [nestSelector]
  split
  · rw [String.toList_ofList, Balanced, bracketsAfter_replaceAmpersands hp]
    exact hc
  · rw [String.toList_append, String.toList_append]
    have hspace : Balanced " ".toList := by decide
    exact (hp.append hspace).append hc

/-! ## Lists in a text -/

/-- A selector list is found in front of any brace. -/
theorem selectorLexeme?_brace {cs l : List Char} (h : selectorLexeme? cs = some l)
    (rest : List Char) : selectorLexeme? (l ++ '{' :: rest) = some l := by
  unfold selectorLexeme? at h
  split at h
  · rename_i c behind
    split at h
    · cases h
    · rename_i hc
      split at h
      · cases h
        have hscan := @scan_append (behind.takeWhile fun d => !isBlockMark d) _ _
          (fun d hd => List.mem_takeWhile_imp hd) (.cons (c := '{') rfl rest)
        simp only [List.cons_append, selectorLexeme?, if_neg hc, hscan.1, hscan.2]
      · cases h
  · cases h

/-- The rule with a selector list and nothing in it. -/
theorem read_selectorLexeme {cs l : List Char} (h : selectorLexeme? cs = some l) :
    Sheet.read (l ++ ['{', '}']) = .ok ⟨[.rule (selectorsOf l) []]⟩ := by
  have hinner : Ready true (({} : ReadState).openRule (selectorsOf l)) :=
    .inside (.inr rfl) _ _ rfl
  have hleads : Leads (({} : ReadState).finish .between (.rule (selectorsOf l) [])) [] {}
      (l ++ ['{', '}']) := by
    refine .take (t := .selector) (Ready.start.mem_allowed (by simp)) (selectorLexeme?_brace h _)
      (Ready.start.advance _ _) ?_
    refine .mark (t := .openBrace) (by simp [ReadState.enter, Phase.allowed]) rfl rfl ?_
    exact .mark (t := .closeBrace) (hinner.mem_allowed_inside (by simp)) rfl
      (hinner.advance .closeBrace ['}']) .here
  exact read_of_leads hleads (.outside (.inr rfl) rfl) rfl

/-! ## Sheets -/

/-- **Commas in a selector list.**  Let a sheet be read.  Each of its rules has the selectors of
    a list that is also read by itself.  Let such a list have balanced brackets.  The selectors
    between its commas outside brackets are balanced; those of the rule are balanced exactly if
    no comma of the list stands between brackets, and only then are they the same.  If the
    selectors of all rules are balanced, so are all selectors around statements, however deep
    they stand, all that have extended a placeholder, and all that are counted. -/
theorem Sheet.balanced_selectors_iff {source : List Char} {sheet : Sheet}
    (h : Sheet.read source = .ok sheet) :
    (∀ selectors children, .rule selectors children ∈ sheet.walk →
      (∃ l, selectors = selectorsOf l ∧
        Sheet.read (l ++ ['{', '}']) = .ok ⟨[.rule selectors []]⟩) ∧
      ∀ l, selectors = selectorsOf l → Balanced l →
        (∀ s ∈ outerSelectorsOf l, Balanced s.toList) ∧
        ((∀ s ∈ selectors, Balanced s.toList) ↔ CommasOutside l) ∧
        (selectors = outerSelectorsOf l ↔ CommasOutside l)) ∧
    ((∀ selectors children, .rule selectors children ∈ sheet.walk →
        ∀ s ∈ selectors, Balanced s.toList) →
      (∀ place ∈ sheet.places, ∀ s ∈ place.parents, Balanced s.toList) ∧
        (∀ placeholder, ∀ s ∈ sheet.inherited.consumers placeholder, Balanced s.toList) ∧
        ∀ settings, (sheet.counted settings).CountsOnly fun s => Balanced s.toList) := by
  constructor
  · intro selectors children hm
    obtain ⟨cs, l, hl, rfl⟩ := isSelectorList_of_read h hm
    refine ⟨⟨l, rfl, read_selectorLexeme hl⟩, ?_⟩
    intro l' hsame hb
    rw [hsame]
    obtain ⟨hall, hagree, houter⟩ := balanced_selectorsOf_iff hb
    exact ⟨houter, hall, hagree⟩
  · intro hrules
    have hparents : ∀ place ∈ sheet.places, ∀ s ∈ place.parents, Balanced s.toList :=
      forall_parents_placesAll (P := fun s => Balanced s.toList)
        (fun _ _ => balanced_nestSelector) sheet.statements (List.forall_mem_nil _) hrules
    exact ⟨hparents, Sheet.forall_consumers hparents, Sheet.countsOnly_counted hparents⟩

/-- A rule in another one, and a placeholder that it extends; the comma of its list stands
    between two selectors with brackets. -/
def bracketedSource : String :=
  "%a \x7b color: red; \x7d .p \x7b .x:not(.a), &[b=c] \x7b @extend %a; \x7d \x7d"

def bracketedRule : Statement := .rule [".x:not(.a)", "&[b=c]"] [.extend "a" ""]

def bracketedSheet : Sheet where
  statements := [.rule ["%a"] [.declaration ⟨"color", "red"⟩], .rule [".p"] [bracketedRule]]

theorem balanced_bracketedSheet :
    Sheet.read bracketedSource.toList = .ok bracketedSheet ∧
      Balanced ".x:not(.a), &[b=c] ".toList ∧ CommasOutside ".x:not(.a), &[b=c] ".toList ∧
      outerSelectorsOf ".x:not(.a), &[b=c] ".toList = [".x:not(.a)", "&[b=c]"] ∧
      bracketedSheet.inherited.consumers "a" = [".p .x:not(.a)", ".p[b=c]"] ∧
      ∀ s ∈ bracketedSheet.inherited.consumers "a", Balanced s.toList := by
  have hread : Sheet.read bracketedSource.toList = .ok bracketedSheet := by cbv
  obtain ⟨hrules, hsheet⟩ := Sheet.balanced_selectors_iff hread
  have hwalk : bracketedSheet.walk = [.rule ["%a"] [.declaration ⟨"color", "red"⟩],
      .declaration ⟨"color", "red"⟩, .rule [".p"] [bracketedRule], bracketedRule,
      .extend "a" ""] := rfl
  have hrule : bracketedRule ∈ bracketedSheet.walk := by simp [hwalk]
  have hlist : [".x:not(.a)", "&[b=c]"] = selectorsOf ".x:not(.a), &[b=c] ".toList := by cbv
  have hbalanced : Balanced ".x:not(.a), &[b=c] ".toList := by decide +kernel
  obtain ⟨-, hall, hagree⟩ := (hrules _ _ hrule).2 _ hlist hbalanced
  have hcommas := hall.1 (by decide +kernel)
  have hbalancedRules : ∀ selectors children, .rule selectors children ∈ bracketedSheet.walk →
      ∀ s ∈ selectors, Balanced s.toList := by
    intro selectors children hm
    simp only [hwalk, bracketedRule, List.mem_cons, List.not_mem_nil, or_false,
      Statement.rule.injEq, reduceCtorEq, false_or] at hm
    rcases hm with ⟨rfl, -⟩ | ⟨rfl, -⟩ | ⟨rfl, -⟩
    · decide +kernel
    · decide +kernel
    · decide +kernel
  obtain ⟨-, hconsumers, -⟩ := hsheet hbalancedRules
  have hinherited : bracketedSheet.inherited.consumers "a" = [".p .x:not(.a)", ".p[b=c]"] := by
    decide +kernel
  exact ⟨hread, hbalanced, hcommas, (hagree.2 hcommas).symm, hinherited, hconsumers "a"⟩

/-- A rule in another one, with a list that is one selector. -/
def functionalSource : String := ".p \x7b .x:not(.a, .b) \x7b color: red; \x7d \x7d"

def functionalSheet : Sheet where
  statements := [.rule [".p"] [.rule [".x:not(.a", ".b)"] [.declaration ⟨"color", "red"⟩]]]

/-- The list is split inside its brackets, and both parts are nested by themselves. -/
theorem not_balanced_functionalSheet :
    Sheet.read functionalSource.toList = .ok functionalSheet ∧
      .rule [".x:not(.a", ".b)"] [.declaration ⟨"color", "red"⟩] ∈ functionalSheet.walk ∧
      selectorLexeme? ".x:not(.a, .b) \x7b color: red; \x7d \x7d".toList =
        some ".x:not(.a, .b) ".toList ∧
      selectorsOf ".x:not(.a, .b) ".toList = [".x:not(.a", ".b)"] ∧
      Balanced ".x:not(.a, .b) ".toList ∧ ¬ Balanced ".x:not(.a".toList ∧ ¬ Balanced ".b)".toList ∧
      outerSelectorsOf ".x:not(.a, .b) ".toList = [".x:not(.a, .b)"] ∧
      (functionalSheet.compile none none).result.toOption.map Compiled.css =
        some ".p .x:not(.a,\n.p .b) \x7b\n  color: red;\n\x7d\n" := by
  refine ⟨by cbv, ?_, by cbv, by cbv, by decide +kernel, by decide +kernel, by decide +kernel,
    by decide +kernel, by decide +kernel⟩
  exact List.mem_cons_of_mem _ (List.mem_cons_self ..)

end StyleBudget
