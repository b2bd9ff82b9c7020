/-
  Reading a style sheet that has been written gives the sheet back.

  * `Ready` are the states in which a statement may follow, outside all rules or inside
    of one;
  * `leads_statement` is the step, one case for each kind of statement, and by mutual
    induction `leads_all` the walk over the statements of a rule;
  * `leads_sheet` is the run over the statements of a sheet, `read_statements` and
    `Sheet.read_source` are what follows from it.
-/
import StyleBudget.Proofs.Walks

namespace StyleBudget

/-! ## Statements -/

/-- A statement may follow: outside all rules, or inside of one. -/
inductive Ready : Bool → ReadState → Prop
  | outside {st : ReadState} (hp : st.phase = .opening ∨ st.phase = .between) (hr : st.rules = []) :
    Ready false st
  | inside {st : ReadState} (hp : st.phase = .between ∨ st.phase = .body) (r : OpenRule)
    (rs : List OpenRule) (hr : st.rules = r :: rs) : Ready true st

namespace Ready

variable {st : ReadState} {within : Bool} {t : Terminal}

theorem advance (h : Ready within st) (t : Terminal) (l : List Char) :
    st.advance t l = st.start? t l := by
  cases h with
  | outside hp | inside hp =>
    rcases hp with hp | hp
    · simp only [ReadState.advance, hp]
    · simp only [ReadState.advance, hp]

/-- A rule, a call or an extension may follow anywhere. -/
theorem mem_allowed (h : Ready within st) (ht : t ∈ [Terminal.selector, .includeWord, .extendWord]) :
    t ∈ st.phase.allowed := by
  simp only [List.mem_cons, List.not_mem_nil, or_false] at ht
  cases h with
  | outside hp | inside hp =>
    rcases hp with hp | hp
    · rw [hp]
      rcases ht with rfl | rfl | rfl <;> simp [Phase.allowed]
    · rw [hp]
      rcases ht with rfl | rfl | rfl <;> simp [Phase.allowed]

theorem dollarName_mem_allowed (h : Ready false st) : .dollarName ∈ st.phase.allowed := by
  cases h with
  | outside hp =>
    rcases hp with hp | hp
    · simp [hp, Phase.allowed]
    · simp [hp, Phase.allowed]

/-- A declaration or the end of the rule may follow inside of a rule. -/
theorem mem_allowed_inside (h : Ready true st) (ht : t ∈ [Terminal.declaration, .closeBrace]) :
    t ∈ st.phase.allowed := by
  simp only [List.mem_cons, List.not_mem_nil, or_false] at ht
  cases h with
  | inside hp =>
    rcases hp with hp | hp
    · rw [hp]
      rcases ht with rfl | rfl <;> simp [Phase.allowed]
    · rw [hp]
      rcases ht with rfl | rfl <;> simp [Phase.allowed]

theorem phase_inside (h : Ready true st) : st.phase = .between ∨ st.phase = .body := by
  cases h with
  | inside hp => exact hp

theorem finish_between (h : Ready within st) (s : Statement) :
    Ready within (st.finish .between s) := by
  cases h with
  | outside hp hr =>
    exact .outside (.inr (by simp [ReadState.finish, hr])) (by simp [ReadState.finish, hr])
  | inside hp r rs hr =>
    exact .inside (.inl (by simp [ReadState.finish, hr])) _ rs (by simp [ReadState.finish, hr]; rfl)

end Ready

section

variable {st : ReadState} {within : Bool} (rest : List Char)

theorem leads_declaration {d : Declaration} (h : Ready true st) (hd : d.canonical = true) :
    Leads (st.finish .body (.declaration d)) rest st ((declarationText d).toList ++ rest) := by
  have hread : st.advance .declaration (declarationSource d) =
      some (st.finish .body (.declaration d)) := by
    rw [h.advance, ReadState.start?, declarationOf_declarationSource hd]
    cases h with
    | inside hp r rs hr => rw [if_neg (by simp [hr])]
  have hsplit : (declarationText d).toList ++ rest =
      ' ' :: ' ' :: (declarationSource d ++ '\n' :: rest) := by
    simp [declarationText, declarationSource]
  rw [hsplit]
  exact .space rfl (.space rfl (.take (t := .declaration) (h.mem_allowed_inside (by simp))
    (declarationLexeme?_declarationSource hd _) hread (.space rfl .here)))

theorem leads_mixin {full : Bool} {name : String} {args : List String} (h : Ready within st)
    (hn : isNameText name.toList = true) (hs : ∀ a ∈ args, isQuotable a = true) :
    Leads (st.finish .between (.mixin name args)) rest st
      (("@include " ++ name ++ argumentsSource full args ++ ";\n").toList ++ rest) := by
  have hread : (st.enter .includeWord).advance .name name.toList =
      some (st.enter (.mixinName name)) := by
    simp only [ReadState.advance, ReadState.enter, String.ofList_toList]
  have hstops : Stops isNameChar ((argumentsSource full args).toList ++ ';' :: '\n' :: rest) := by
    cases args with
    | nil =>
      cases full with
      | false => exact .cons rfl _
      | true => exact .cons rfl _
    | cons a more =>
      simp only [argumentsSource, String.toList_append, List.append_assoc]
      exact .cons (c := '(') rfl _
  have hsplit : ("@include " ++ name ++ argumentsSource full args ++ ";\n").toList ++ rest =
      "@include".toList ++
        ' ' :: (name.toList ++ ((argumentsSource full args).toList ++ ';' :: '\n' :: rest)) := by
    simp
  rw [hsplit]
  refine .take (t := .includeWord) (h.mem_allowed (by simp)) (wordLexeme?_self _ _)
    (h.advance _ _) (.space rfl ?_)
  exact .take (t := .name) (by simp [ReadState.enter, Phase.allowed])
    (nameLexeme?_of_isNameText hn hstops) hread ((leads_call full hs).trans (.space rfl .here))

theorem leads_extend {placeholder flag : String} (h : Ready within st)
    (hp : isWord isNameStart placeholder.toList = true)
    (hf : flag = "" ∨ isFlagText flag.toList = true) :
    Leads (st.finish .between (.extend placeholder flag)) rest st
      (("@extend %" ++ placeholder ++ flagSource flag ++ ";\n").toList ++ rest) := by
  have hread : (st.enter .extendWord).advance .placeholder ('%' :: placeholder.toList) =
      some (st.enter (.extendTarget placeholder)) := by
    simp only [ReadState.advance, ReadState.enter, unmarked, List.drop_succ_cons, List.drop_zero,
      String.ofList_toList]
  have hsplit : ("@extend %" ++ placeholder ++ flagSource flag ++ ";\n").toList ++ rest =
      "@extend".toList ++
        ' ' :: (('%' :: placeholder.toList) ++ ((flagSource flag).toList ++ ';' :: '\n' :: rest)) := by
    simp
  have hstops : Stops isNameChar ((flagSource flag).toList ++ ';' :: '\n' :: rest) := by
    rw [flagSource]
    split
    · exact .cons rfl _
    · rw [String.toList_append]
      exact .cons (c := ' ') rfl _
  rw [hsplit]
  refine .take (t := .extendWord) (h.mem_allowed (by simp)) (wordLexeme?_self _ _)
    (h.advance _ _) (.space rfl ?_)
  exact .take (t := .placeholder) (by simp [ReadState.enter, Phase.allowed])
    (markedNameLexeme?_of_isWord hp hstops) hread ((leads_flag hf).trans (.space rfl .here))

theorem leads_assign {full : Bool} {name : String} {value : Value} (h : Ready false st)
    (hn : isWord isNameStart name.toList = true) (hv : value.canonical = true) :
    Leads (st.finish .opening (.assign name value)) rest st
      (("$" ++ name ++ ": " ++ value.source full ++ ";\n").toList ++ rest) := by
  have hread : st.advance .dollarName ('$' :: name.toList) = some (st.enter (.assignName name)) := by
    cases h with
    | outside hp hr =>
      rw [Ready.advance (.outside hp hr), ReadState.start?, hr, List.isEmpty_nil, if_pos rfl, unmarked,
        List.drop_succ_cons, List.drop_zero, String.ofList_toList]
  have hsplit : ("$" ++ name ++ ": " ++ value.source full ++ ";\n").toList ++ rest =
      ('$' :: name.toList) ++ ':' :: (' ' :: ((value.source full).toList ++ ';' :: '\n' :: rest)) := by
    simp
  rw [hsplit]
  refine .take (t := .dollarName) h.dollarName_mem_allowed
    (markedNameLexeme?_of_isWord hn (.cons rfl _)) hread ?_
  refine .mark (t := .colon) (by simp [ReadState.enter, Phase.allowed]) rfl rfl (.space rfl ?_)
  exact (leads_value hv).trans (.space rfl .here)

theorem ne_nil_of_canonical {selectors : List String} (h : canonicalSelectors selectors = true) :
    selectors ≠ [] := by
  rintro rfl
  cases h

theorem isSelectorText_of_canonical {selectors : List String}
    (h : canonicalSelectors selectors = true) : ∀ s ∈ selectors, isSelectorText s = true := by
  cases selectors with
  | nil => cases h
  | cons first more =>
    simp only [canonicalSelectors, Bool.and_eq_true, List.all_eq_true] at h
    exact h.2

/-- The state in a rule that goes on with more statements. -/
def ReadState.goOn (st : ReadState) (phase : Phase) (r : OpenRule) (rs : List OpenRule)
    (ss : List Statement) : ReadState :=
  { st with phase, rules := { r with children := ss.reverse ++ r.children } :: rs }

theorem goOn_nil {r : OpenRule} {rs : List OpenRule} (hr : st.rules = r :: rs) :
    st.goOn st.phase r rs [] = st := by
  obtain ⟨phase, rules, statements, overlong⟩ := st
  cases hr
  rfl

theorem goOn_cons {r : OpenRule} {rs : List OpenRule} (hr : st.rules = r :: rs) (p phase : Phase)
    (s : Statement) (ss : List Statement) :
    (st.finish p s).goOn phase { r with children := s :: r.children } rs ss =
      st.goOn phase r rs (s :: ss) := by
  simp only [ReadState.finish, hr, ReadState.goOn, List.reverse_cons, List.append_assoc,
    List.singleton_append]

/-- The brace that ends a rule makes a statement of it. -/
theorem closeRule?_goOn (st : ReadState) (selectors : List String) (phase : Phase)
    (ss : List Statement) :
    ((st.openRule selectors).goOn phase ⟨selectors, []⟩ st.rules ss).closeRule? =
      some (st.finish .between (.rule selectors ss)) := by
  simp only [ReadState.goOn, ReadState.openRule, ReadState.closeRule?, List.append_nil,
    List.reverse_reverse, ReadState.finish]

mutual

/-- A statement that is written where one may follow is read, and another may follow. -/
theorem leads_statement (full : Bool) : ∀ (s : Statement) {within : Bool} {st : ReadState},
    s.canonical within = true → Ready within st → ∃ phase, Ready within (st.finish phase s) ∧
      ∀ rest, Leads (st.finish phase s) rest st ((s.source full).toList ++ rest)
  | .declaration d, within, st, hs, h => by
    simp only [Statement.canonical, Bool.and_eq_true] at hs
    obtain ⟨rfl, hd⟩ := hs
    refine ⟨.body, ?_, fun rest => leads_declaration rest h hd⟩
    cases h with
    | inside hp r rs hr =>
      exact .inside (.inr (by simp [ReadState.finish, hr])) _ rs (by simp [ReadState.finish, hr]; rfl)
  | .mixin name args, within, st, hs, h => by
    simp only [Statement.canonical, Bool.and_eq_true, List.all_eq_true] at hs
    exact ⟨.between, h.finish_between _, fun rest => leads_mixin rest h hs.1 hs.2⟩
  | .extend placeholder flag, within, st, hs, h => by
    simp only [Statement.canonical, Bool.and_eq_true, Bool.or_eq_true, String.isEmpty_iff] at hs
    exact ⟨.between, h.finish_between _, fun rest => leads_extend rest h hs.1 hs.2⟩
  | .assign name value, within, st, hs, h => by
    simp only [Statement.canonical, Bool.and_eq_true, Bool.not_eq_true'] at hs
    obtain ⟨⟨rfl, hn⟩, hv⟩ := hs
    refine ⟨.opening, ?_, fun rest => leads_assign rest h hn hv⟩
    cases h with
    | outside hp hr =>
      exact .outside (.inl (by simp [ReadState.finish, hr])) (by simp [ReadState.finish, hr])
  | .rule selectors children, within, st, hs, h => by
    simp only [Statement.canonical, Bool.and_eq_true] at hs
    obtain ⟨hsel, hc⟩ := hs
    have hinner : (st.openRule selectors).rules = ⟨selectors, []⟩ :: st.rules := rfl
    obtain ⟨phase, hphase, hall⟩ := leads_all full children hc (.inr rfl) hinner
    refine ⟨.between, h.finish_between _, fun rest => ?_⟩
    have hread : st.advance .selector (selectorsSource selectors) =
        some (st.enter (.ruleHead selectors)) := by
      rw [h.advance, ReadState.start?, selectorsOf_selectorsSource (ne_nil_of_canonical hsel)
        (isSelectorText_of_canonical hsel)]
    have hready : Ready true ((st.openRule selectors).goOn phase ⟨selectors, []⟩ st.rules children) :=
      .inside hphase _ _ rfl
    have hclose := (hready.advance .closeBrace ['}']).trans
      (closeRule?_goOn st selectors phase children)
    have hsplit : ((Statement.rule selectors children).source full).toList ++ rest =
        selectorsSource selectors ++
          '{' :: '\n' :: ((sourceAll full children).toList ++ '}' :: '\n' :: rest) := by
      simp [Statement.source, selectorsSource, String.toList_intercalate]
    rw [hsplit]
    refine .take (t := .selector) (h.mem_allowed (by simp))
      (selectorLexeme?_selectorsSource hsel _) hread ?_
    refine .mark (t := .openBrace) (by simp [ReadState.enter, Phase.allowed]) rfl rfl (.space rfl ?_)
    exact (hall _).trans (.mark (t := .closeBrace) (hready.mem_allowed_inside (by simp)) rfl hclose
      (.space rfl .here))

theorem leads_all (full : Bool) : ∀ (ss : List Statement) {st : ReadState} {r : OpenRule}
    {rs : List OpenRule}, canonicalAll ss = true → (st.phase = .between ∨ st.phase = .body) →
      st.rules = r :: rs → ∃ phase, (phase = .between ∨ phase = .body) ∧
        ∀ rest, Leads (st.goOn phase r rs ss) rest st ((sourceAll full ss).toList ++ rest)
  | [], st, r, rs, _, hp, hr => by
    refine ⟨st.phase, hp, fun rest => ?_⟩
    rw [goOn_nil hr]
    exact .here
  | s :: more, st, r, rs, hs, hp, hr => by
    simp only [canonicalAll, Bool.and_eq_true] at hs
    obtain ⟨p, hready, hfirst⟩ := leads_statement full s hs.1 (.inside hp r rs hr)
    have hrules : (st.finish p s).rules = { r with children := s :: r.children } :: rs := by
      simp only [ReadState.finish, hr]
    obtain ⟨phase, hphase, hmore⟩ := leads_all full more hs.2 hready.phase_inside hrules
    refine ⟨phase, hphase, fun rest => ?_⟩
    rw [sourceAll, String.toList_append, List.append_assoc, ← goOn_cons hr p]
    exact (hfirst _).trans (hmore rest)

end

end

/-! ## Sheets -/

theorem Ready.isComplete {st : ReadState} (h : Ready false st) : st.isComplete = true := by
  cases h with
  | outside hp hr =>
    rcases hp with hp | hp
    · simp only [ReadState.isComplete, hp, hr]; rfl
    · simp only [ReadState.isComplete, hp, hr]; rfl

theorem Ready.statements_finish {st : ReadState} (h : Ready false st) (phase : Phase)
    (s : Statement) : (st.finish phase s).statements = s :: st.statements ∧
      (st.finish phase s).overlong = st.overlong := by
  cases h with
  | outside hp hr => simp only [ReadState.finish, hr, and_self]

/-- The statements of a sheet are read one after the other. -/
theorem leads_sheet {ss : List Statement} (hs : ∀ s ∈ ss, s.canonical false = true)
    (full : Nat → Bool) {st : ReadState} (h : Ready false st) :
    ∃ st', Ready false st' ∧ st'.statements = ss.reverse ++ st.statements ∧
      st'.overlong = st.overlong ∧
      Leads st' [] st (sheetText (ss.mapIdx fun i s => s.source (full i))).toList := by
  induction ss generalizing full st with
  | nil => exact ⟨st, h, rfl, rfl, .here⟩
  | cons s more ih =>
    obtain ⟨phase, hready, hfirst⟩ := leads_statement (full 0) s (hs s (List.mem_cons_self ..)) h
    obtain ⟨hst, hov⟩ := h.statements_finish phase s
    obtain ⟨st', hdone, hst', hov', hmore⟩ :=
      ih (fun s' hm => hs s' (List.mem_cons_of_mem s hm)) (fun i => full (i + 1)) hready
    refine ⟨st', hdone, ?_, hov'.trans hov, ?_⟩
    · rw [hst', hst, List.reverse_cons, List.append_assoc]; rfl
    · rw [List.mapIdx_cons]
      cases hrest : more.mapIdx fun i s => s.source (full (i + 1)) with
      | nil =>
        rw [hrest] at hmore
        have hfirst := hfirst []
        rw [List.append_nil] at hfirst
        have htext : (sheetText [s.source (full 0)]).toList = (s.source (full 0)).toList := by
          simp [sheetText]
        rw [htext]
        exact hfirst.trans hmore
      | cons second rest =>
        rw [hrest] at hmore
        have htext : (sheetText (s.source (full 0) :: second :: rest)).toList =
            (s.source (full 0)).toList ++ '\n' :: (sheetText (second :: rest)).toList := by
          simp [sheetText, String.toList_intercalate]
        rw [htext]
        exact (hfirst _).trans (.space rfl hmore)

/-- A walk over a whole text reads the sheet that the walk leads to. -/
theorem read_of_leads {cs : List Char} {st : ReadState} (h : Leads st [] {} cs)
    (hready : Ready false st) (ho : st.overlong = none) :
    Sheet.read cs = .ok ⟨st.statements.reverse⟩ := by
  obtain ⟨last, offset, hr⟩ := h.readFrom none 0
  rw [Sheet.read, hr, readFrom_nil, if_pos hready.isComplete]
  simp only [ReadState.sheet, ho]

theorem Ready.start : Ready false {} := .outside (.inl rfl) rfl

/-- Statements that stand outside all rules are read back from the text of a sheet. -/
theorem read_statements {ss : List Statement} (hs : ∀ s ∈ ss, s.canonical false = true)
    (full : Nat → Bool) :
    Sheet.read (sheetText (ss.mapIdx fun i s => s.source (full i))).toList = .ok ⟨ss⟩ := by
  obtain ⟨st, hready, hst, ho, hleads⟩ := leads_sheet hs full .start
  have hread := read_of_leads hleads hready ho
  rwa [hst, List.append_nil, List.reverse_reverse] at hread

/-- **Reading inverts writing.**  A sheet that the language can write is read back from its
    text, whichever of its statements are written in full. -/
theorem Sheet.read_source {sheet : Sheet} (h : sheet.canonical = true) (full : Nat → Bool) :
    Sheet.read (sheet.source full).toList = .ok sheet := by
  have hs : ∀ s ∈ sheet.statements, s.canonical false = true := List.all_eq_true.1 h
  exact read_statements hs full

/-- A sheet with each kind of statement and value, and with marks of the language inside its
    strings, values and selectors. -/
def variedSheet : Sheet where
  statements :=
    [.assign "ext-budget" (.map [(.text "total", .scalar (.int (-15))), (.text "-%a", .scalar .null)]),
      .assign "_x" (.scalar (.text "a \"; b\n")),
      .rule ["%card > a", "b:hover"]
        [.declaration ⟨"--gap", "/* a: b */ 1\u00a0px"⟩, .mixin "ext" ["card", "!optional", "it's ;"],
          .rule ["&.true"] [.extend "card" "", .rule ["c"] [.declaration ⟨"color", ""⟩]],
          .extend "card" "!optional"],
      .mixin "ext-debug" [],
      .assign "no" (.scalar (.bool false))]

theorem read_source_variedSheet :
    variedSheet.canonical = true ∧
      Sheet.read (variedSheet.source fun i => i < 3).toList = .ok variedSheet := by
  have h : variedSheet.canonical = true := by cbv
  exact ⟨h, Sheet.read_source h _⟩

end StyleBudget
