/-
  Counting leaves the rules of a style sheet alone.

  A sheet is made plain by turning each counted extension into one that is not
  counted.  The two sheets extend the same placeholders with the same selectors
  in the same order, so they give the same rules, whatever is counted, and
  against which limits.

  * `Sheet.plain` is the plain sheet, `Sheet.unassigned` its statements without
    variables;
  * `Progress.withoutLedger` forgets what has been counted;
  * `Progress.extCall_withoutLedger`: a counted extension that succeeds does what
    the plain one does;
  * `Statement.compile_plain` and `compileAll_plain` say the same of statements,
    `Sheet.compile_cases` of sheets;
  * `Sheet.css_eq_plain` is the result about compiled sheets.
-/
import Mathlib
import StyleBudget.Proofs.Places
import StyleBudget.Proofs.Reading

namespace StyleBudget

/-! ## Plain sheets -/

/-- The plain extension in the place of a counted one. -/
def plainExtend (args : List String) : Statement :=
  .extend ((args.filter fun a => !Progress.isFlag a).headD "")
    ((args.filter Progress.isFlag).headD "")

mutual

/-- A statement in which nothing is counted. -/
def Statement.plain : Statement → Statement
  | .rule selectors children => .rule selectors (plainAll children)
  | .mixin name args => if name = extMixin then plainExtend args else .mixin name args
  | .declaration d => .declaration d
  | .extend placeholder flag => .extend placeholder flag
  | .assign name value => .assign name value

def plainAll : List Statement → List Statement
  | [] => []
  | s :: rest => s.plain :: plainAll rest

end

def Sheet.plain (sheet : Sheet) : Sheet := ⟨plainAll sheet.statements⟩

/-- The statements of the plain sheet that set no variable. -/
def Sheet.unassigned (sheet : Sheet) : List Statement :=
  sheet.plain.statements.filter fun s => s.assignment?.isNone

/-- The sheet asks for no report. -/
def Sheet.Quiet (sheet : Sheet) : Prop := ∀ args, .mixin reportMixin args ∉ sheet.walk

/-! ## Statements that can be made plain -/

/-- The statement is no rule with an empty selector and asks for no report. -/
def Statement.Tame : Statement → Prop
  | .rule selectors _ => "" ∉ selectors
  | .mixin name _ => name ≠ reportMixin
  | _ => True

def AllTame (l : List Statement) : Prop := ∀ s ∈ walkAll l, s.Tame

theorem AllTame.head {s : Statement} {rest : List Statement} (h : AllTame (s :: rest)) :
    ∀ t ∈ s.walk, t.Tame := fun t ht => h t (by rw [walkAll]; exact List.mem_append_left _ ht)

theorem AllTame.tail {s : Statement} {rest : List Statement} (h : AllTame (s :: rest)) :
    AllTame rest := fun t ht => h t (by rw [walkAll]; exact List.mem_append_right _ ht)

theorem allTame_of_read {source : List Char} {sheet : Sheet} (h : Sheet.read source = .ok sheet)
    (hq : sheet.Quiet) : AllTame sheet.statements := by
  intro s hs
  cases s with
  | rule selectors children => exact notMem_empty_of_read h hs
  | mixin name args =>
    rintro rfl
    exact hq args hs
  | _ => trivial

/-! ## What stays in a plain sheet -/

theorem declaration?_plain (s : Statement) : s.plain.declaration? = s.declaration? := by
  cases s with
  | mixin name args => rw [Statement.plain]; split <;> rfl
  | _ => rfl

theorem declarationsOf_plainAll (children : List Statement) :
    declarationsOf (plainAll children) = declarationsOf children := by
  induction children with
  | nil => rfl
  | cons s rest ih =>
    simp only [declarationsOf] at ih ⊢
    rw [plainAll, List.filterMap_cons, List.filterMap_cons, declaration?_plain, ih]

mutual

theorem Statement.placeholders_plain (parents : List String) :
    ∀ s : Statement, s.plain.placeholders parents = s.placeholders parents
  | .rule selectors children => by
    rw [Statement.plain, Statement.placeholders, Statement.placeholders,
      placeholdersAll_plainAll _ children]
  | .mixin name args => by rw [Statement.plain]; split <;> rfl
  | .declaration _ => rfl
  | .extend _ _ => rfl
  | .assign _ _ => rfl

theorem placeholdersAll_plainAll (parents : List String) :
    ∀ l : List Statement, placeholdersAll parents (plainAll l) = placeholdersAll parents l
  | [] => rfl
  | s :: rest => by
    rw [plainAll, placeholdersAll, placeholdersAll, s.placeholders_plain parents,
      placeholdersAll_plainAll parents rest]

end

mutual

theorem Statement.tracks_plain :
    ∀ s : Statement, (∀ t ∈ s.walk, t.Tame) → ∀ t ∈ s.plain.walk, t.tracks = false
  | .rule selectors children, h => by
    intro t ht
    rw [Statement.plain, Statement.walk] at ht
    rcases List.mem_cons.1 ht with rfl | ht
    · rfl
    · exact tracks_plainAll children
        (fun s hs => h s (by rw [Statement.walk]; exact List.mem_cons_of_mem _ hs)) t ht
  | .mixin name args, h => by
    have hr : name ≠ reportMixin := h (.mixin name args) (by simp [Statement.walk])
    intro t ht
    rw [Statement.plain] at ht
    split at ht
    · rw [List.mem_singleton.1 ht]; rfl
    · rename_i he
      rw [List.mem_singleton.1 ht]
      simp [Statement.tracks, he, hr]
  | .declaration _, _ => by simp [Statement.plain, Statement.walk, Statement.tracks]
  | .extend _ _, _ => by simp [Statement.plain, Statement.walk, Statement.tracks]
  | .assign _ _, _ => by simp [Statement.plain, Statement.walk, Statement.tracks]

theorem tracks_plainAll :
    ∀ l : List Statement, AllTame l → ∀ t ∈ walkAll (plainAll l), t.tracks = false
  | [], _ => by simp [plainAll, walkAll]
  | s :: rest, h => by
    intro t ht
    rw [plainAll, walkAll] at ht
    rcases List.mem_append.1 ht with ht | ht
    · exact s.tracks_plain h.head t ht
    · exact tracks_plainAll rest h.tail t ht

end

/-- A plain sheet that asks for no report has nothing to count with. -/
theorem Sheet.ledger_plain {sheet : Sheet} (h : AllTame sheet.statements)
    (budgets options : Option (List (Scalar × Value))) :
    sheet.plain.ledger budgets options = .ok none := by
  have ht : sheet.plain.tracks = false := by
    rw [Sheet.tracks, List.any_eq_false]
    intro t hm
    rw [tracks_plainAll sheet.statements h t hm]
    exact Bool.false_ne_true
  rw [Sheet.ledger, ht]; rfl

/-! ## Steps without a ledger -/

namespace Progress

/-- The progress with all that has been counted forgotten. -/
def withoutLedger (p : Progress) : Progress := { p with ledger := none }

variable {p p' : Progress} {parents : List String}

/-- A plain extension does the same whether anything is counted or not. -/
theorem extend_withoutLedger {placeholder flag : String}
    (h : p.extend placeholder flag parents = (.ok (), p')) :
    p.withoutLedger.extend placeholder flag parents = (.ok (), p'.withoutLedger) ∧
      p'.requests = p.requests := by
  obtain ⟨hne, inh, hi, rfl⟩ := extend_cases h
  simp [extend, withoutLedger, hne, hi]

/-- **A counted extension that succeeds does what the plain one does**, whatever
    its budget: the selectors extend the placeholder before they are counted. -/
theorem extCall_withoutLedger {c : Call} (hp : "" ∉ c.selectors)
    (h : p.extCall c = (.ok (), p')) :
    p.withoutLedger.extend c.placeholder c.flag c.selectors = (.ok (), p'.withoutLedger) ∧
      p'.requests = p.requests := by
  obtain ⟨ledger, inh, -, hne, hi, -, rfl⟩ := extCall_cases h
  have hn : c.named = c.selectors := by
    refine List.filter_eq_self.2 fun s hs => ?_
    exact decide_eq_true fun he => hp (he ▸ hs)
  rw [hn] at hne hi
  simp [extend, withoutLedger, hne, hi]

theorem call_withoutLedger {name : String} {args : List String} (hr : name ≠ reportMixin)
    (hp : "" ∉ parents) (h : p.call name args parents = (.ok (), p')) :
    (Statement.mixin name args).plain.compile parents p.withoutLedger =
        (.ok (), p'.withoutLedger) ∧
      p'.requests = p.requests := by
  rw [call] at h
  rw [Statement.plain]
  split at h
  · rename_i he
    rw [if_pos he, plainExtend, Statement.compile]
    rcases callExt_uniform args parents with ⟨f, -, hf⟩ | hc
    · rw [hf] at h
      cases h
    · rw [hc] at h
      exact extCall_withoutLedger (c := .ofArguments args parents) hp h
  · cases h

end Progress

/-! ## Runs without a ledger -/

mutual

/-- A statement that succeeds does what its plain form does. -/
theorem Statement.compile_plain {parents : List String} {p p' : Progress} (hp : "" ∉ parents) :
    ∀ s : Statement, (∀ t ∈ s.walk, t.Tame) → s.compile parents p = (.ok (), p') →
      s.plain.compile parents p.withoutLedger = (.ok (), p'.withoutLedger) ∧
        p'.requests = p.requests
  | .rule selectors children, ht, h => by
    have hs : "" ∉ selectors :=
      ht (.rule selectors children) (by rw [Statement.walk]; exact List.mem_cons_self ..)
    have hc : AllTame children := fun s hs =>
      ht s (by rw [Statement.walk]; exact List.mem_cons_of_mem _ hs)
    rw [Statement.compile] at h
    obtain ⟨hrun, hreq⟩ :=
      compileAll_plain (ne_empty_of_mem_nestSelectors hp hs) children hc h
    rw [Statement.plain, Statement.compile]
    refine ⟨?_, hreq⟩
    rw [← hrun, Progress.addBlock, Progress.addBlock, declarationsOf_plainAll]
    rfl
  | .mixin name args, ht, h => by
    have hr : name ≠ reportMixin := ht (.mixin name args) (by simp [Statement.walk])
    rw [Statement.compile] at h
    exact Progress.call_withoutLedger hr hp h
  | .extend placeholder flag, _, h => by
    rw [Statement.compile] at h
    rw [Statement.plain, Statement.compile]
    exact Progress.extend_withoutLedger h
  | .declaration d, _, h => by
    rw [Statement.compile] at h
    obtain ⟨-, rfl⟩ := Prod.mk.inj h
    exact ⟨rfl, rfl⟩
  | .assign name value, _, h => by
    rw [Statement.compile] at h
    obtain ⟨-, rfl⟩ := Prod.mk.inj h
    exact ⟨rfl, rfl⟩

theorem compileAll_plain {parents : List String} {p p' : Progress} (hp : "" ∉ parents) :
    ∀ l : List Statement, AllTame l → compileAll parents p l = (.ok (), p') →
      compileAll parents p.withoutLedger (plainAll l) = (.ok (), p'.withoutLedger) ∧
        p'.requests = p.requests
  | [], _, h => by
    rw [compileAll] at h
    obtain ⟨-, rfl⟩ := Prod.mk.inj h
    exact ⟨rfl, rfl⟩
  | s :: rest, ht, h => by
    rw [compileAll] at h
    rcases hs : s.compile parents p with ⟨f | u, q⟩
    · rw [hs] at h; cases h
    · rw [hs] at h
      obtain ⟨hrun, hreq⟩ := s.compile_plain hp ht.head hs
      obtain ⟨hrest, hreq'⟩ := compileAll_plain hp rest ht.tail h
      rw [plainAll, compileAll, hrun]
      exact ⟨hrest, hreq'.trans hreq⟩

end

/-! ## Variables -/

theorem placeholdersAll_unassigned (parents : List String) :
    ∀ l : List Statement, placeholdersAll parents (l.filter fun s => s.assignment?.isNone) =
      placeholdersAll parents l
  | [] => rfl
  | s :: rest => by
    have ih := placeholdersAll_unassigned parents rest
    cases s with
    | assign name value =>
      rw [List.filter_cons_of_neg (by simp [Statement.assignment?]), ih]; rfl
    | _ =>
      rw [List.filter_cons_of_pos (by simp [Statement.assignment?]), placeholdersAll, ih]; rfl

theorem compileAll_unassigned (parents : List String) (p : Progress) :
    ∀ l : List Statement, compileAll parents p (l.filter fun s => s.assignment?.isNone) =
      compileAll parents p l
  | [] => rfl
  | s :: rest => by
    have ih := fun q => compileAll_unassigned parents q rest
    cases s with
    | assign name value =>
      rw [List.filter_cons_of_neg (by simp [Statement.assignment?]), ih]; rfl
    | _ =>
      rw [List.filter_cons_of_pos (by simp [Statement.assignment?]), compileAll, compileAll]
      simp only [ih]

/-! ## Sheets -/

namespace Sheet

variable {sheet : Sheet} {budgets options : Option (List (Scalar × Value))}

def plainStart (sheet : Sheet) : Progress where
  inheritance := .declare (distinct (placeholdersAll [] sheet.unassigned))

theorem plainStart_eq (sheet : Sheet) :
    sheet.plainStart = ⟨.declare sheet.placeholders, none, [], []⟩ ∧
      sheet.plain.placeholders = sheet.placeholders := by
  have hp : sheet.plain.placeholders = sheet.placeholders :=
    congrArg distinct (placeholdersAll_plainAll [] sheet.statements)
  refine ⟨?_, hp⟩
  rw [← hp, plainStart, unassigned, placeholdersAll_unassigned]; rfl

/-- **A sheet compiles along the run of its plain form.**  The rules are those to
    which the plain statements lead. -/
theorem compile_cases (ht : AllTame sheet.statements) {c : Compiled}
    (h : (sheet.compile budgets options).result = .ok c) :
    ∃ p, compileAll [] sheet.plainStart sheet.unassigned = (.ok (), p) ∧ p.requests = [] ∧
      c.css = sheetText p.rules := by
  rw [compile] at h
  rcases hl : sheet.ledger budgets options with f | ledger
  · rw [hl] at h; cases h
  · rw [hl] at h
    rcases hr : compileAll [] ⟨.declare sheet.placeholders, ledger, [], []⟩ sheet.statements with
      ⟨f | u, p⟩
    · simp only [hr] at h; cases h
    · simp only [hr] at h
      obtain ⟨hrun, hreq⟩ := compileAll_plain List.not_mem_nil sheet.statements ht hr
      refine ⟨p.withoutLedger, ?_, hreq, ?_⟩
      · rw [unassigned, compileAll_unassigned, (plainStart_eq sheet).1]
        exact hrun
      · have ho : p.overlay = .ok [] := by rw [Progress.overlay, hreq]
        rw [Progress.outcome, ho] at h
        cases h
        rw [List.append_nil]; rfl

theorem compile_plain (ht : AllTame sheet.statements) {p : Progress}
    (h : compileAll [] sheet.plainStart sheet.unassigned = (.ok (), p)) (hreq : p.requests = []) :
    ∃ c, (sheet.plain.compile budgets options).result = .ok c ∧ c.css = sheetText p.rules := by
  obtain ⟨hstart, hplaceholders⟩ := plainStart_eq sheet
  rw [unassigned, compileAll_unassigned, hstart, ← hplaceholders] at h
  have ho : p.overlay = .ok [] := by rw [Progress.overlay, hreq]
  rw [compile, ledger_plain ht]
  simp only [h, Progress.outcome, ho, List.append_nil]
  exact ⟨_, rfl, rfl⟩

end Sheet

/-- **Counting does not show in the rules.**  Let a sheet that asks for no report
    compile.  Then it has the same text under all settings with which it compiles;
    its plain form compiles under all settings, and to this text; and so does,
    where it compiles, every sheet without a report that has the same plain form
    apart from variables: neither the budgets that are named nor their limits nor
    the flags change a rule. -/
theorem Sheet.css_eq_plain {source : List Char} {sheet : Sheet}
    {budgets options : Option (List (Scalar × Value))} {c : Compiled}
    (hread : Sheet.read source = .ok sheet) (hquiet : sheet.Quiet)
    (hc : (sheet.compile budgets options).result = .ok c) :
    (∀ budgets' options' c', (sheet.compile budgets' options').result = .ok c' → c'.css = c.css) ∧
    (∀ budgets' options', ∃ c',
      (sheet.plain.compile budgets' options').result = .ok c' ∧ c'.css = c.css) ∧
    (∀ source' sheet', Sheet.read source' = .ok sheet' → sheet'.Quiet →
      sheet'.unassigned = sheet.unassigned → ∀ budgets' options' c',
      (sheet'.compile budgets' options').result = .ok c' → c'.css = c.css) := by
  have ht := allTame_of_read hread hquiet
  obtain ⟨p, hp, hreq, hcss⟩ := compile_cases ht hc
  have hsame : ∀ (sheet' : Sheet) (budgets' options' : Option (List (Scalar × Value)))
      (c' : Compiled), AllTame sheet'.statements → sheet'.unassigned = sheet.unassigned →
      (sheet'.compile budgets' options').result = .ok c' → c'.css = c.css := by
    intro sheet' budgets' options' c' ht' hu hc'
    obtain ⟨p', hp', -, hcss'⟩ := compile_cases ht' hc'
    rw [plainStart, hu] at hp'
    obtain ⟨-, rfl⟩ := Prod.mk.inj (hp.symm.trans hp')
    rw [hcss, hcss']
  refine ⟨fun budgets' options' c' => hsame sheet budgets' options' c' ht rfl,
    fun budgets' options' => ?_, fun source' sheet' hread' hquiet' hu budgets' options' c' =>
      hsame sheet' budgets' options' c' (allTame_of_read hread' hquiet') hu⟩
  rw [hcss]
  exact compile_plain ht hp hreq

def countedSource : String :=
  "%a \x7b color: red; \x7d\n.x \x7b @include ext(a, b); \x7d"

def countedSheet : Sheet where
  statements :=
    [.rule ["%a"] [.declaration ⟨"color", "red"⟩], .rule [".x"] [.mixin "ext" ["a", "b"]]]

/-- A limit for the total budget. -/
def countedLimits : Option (List (Scalar × Value)) := some [(.text "total", .scalar (.int 1))]

theorem css_countedSheet :
    Sheet.read countedSource.toList = .ok countedSheet ∧ countedSheet.Quiet ∧
      ∃ c, (countedSheet.compile countedLimits none).result = .ok c ∧
        c.css = ".x \x7b\n  color: red;\n\x7d\n" ∧
        ∀ budgets options, ∃ c',
          (countedSheet.plain.compile budgets options).result = .ok c' ∧ c'.css = c.css := by
  have hread : Sheet.read countedSource.toList = .ok countedSheet := by cbv
  have hquiet : countedSheet.Quiet := by
    intro args h
    simp [countedSheet, Sheet.walk, walkAll, Statement.walk, reportMixin] at h
  have hcss : (countedSheet.compile countedLimits none).result.toOption.map Compiled.css =
      some ".x \x7b\n  color: red;\n\x7d\n" := by cbv
  cases hc : (countedSheet.compile countedLimits none).result with
  | error f => rw [hc] at hcss; cases hcss
  | ok c =>
    rw [hc] at hcss
    exact ⟨hread, hquiet, c, rfl, Option.some.inj hcss, (Sheet.css_eq_plain hread hquiet hc).2.1⟩

end StyleBudget
