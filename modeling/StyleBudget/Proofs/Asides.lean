/-
  Where variables and requests for reports stand.

  The variables of a sheet are read before its first statement is taken, and reports are made
  after the last one.  In between a request is noted, and no statement looks at it.  So it does
  not matter where variables are set and reports are asked for, as long as their order stays.

  * `Statement.isAside` are these statements, `Progress.unasked` forgets the requests;
  * `Progress.take_unasked` is the step and `Progress.takeAll_unasked` the run of two sheets
    that differ in asides;
  * `Sheet.compile_congr`: such sheets compile alike from the same ledger;
  * `Sheet.compile_eq_of_placement` is the result about sheets with the same asides.
-/
import StyleBudget.Proofs.Omission

namespace StyleBudget

/-! ## Asides -/

/-- The statement sets a variable or asks for a report. -/
def Statement.isAside : Statement → Bool
  | .assign _ _ => true
  | .mixin name _ => name == reportMixin
  | _ => false

theorem Statement.isLoose_of_isAside (s : Statement) (hs : s.isAside = true) :
    s.isLoose = true := by
  cases s with
  | rule _ _ => cases hs
  | declaration _ => cases hs
  | _ => rfl

/-- An aside counts nothing. -/
theorem Statement.argumentsOf?_of_isAside (s : Statement) (hs : s.isAside = true) :
    s.argumentsOf? extMixin = none := by
  cases s with
  | mixin name args =>
    obtain rfl : name = reportMixin := by simpa [isAside] using hs
    rfl
  | _ => rfl

/-! ## Runs without requests -/

namespace Progress

/-- The progress with the requests forgotten. -/
def unasked (p : Progress) : Progress := { p with requests := [] }

theorem eq_of_unasked {p p' : Progress} (h : p'.unasked = p.unasked)
    (hr : p'.requests = p.requests) : p' = p := by
  obtain ⟨inheritance, ledger, blocks, requests⟩ := p
  obtain ⟨inheritance', ledger', blocks', requests'⟩ := p'
  obtain rfl : requests' = requests := hr
  have hi : inheritance' = inheritance := congrArg Progress.inheritance h
  have hl : ledger' = ledger := congrArg Progress.ledger h
  have hb : blocks' = blocks := congrArg Progress.blocks h
  rw [hi, hl, hb]

/-- No statement looks at the requests. -/
theorem take_unasked (p : Progress) (place : Place) :
    (p.unasked.take place).1 = (p.take place).1 ∧
      (p.unasked.take place).2.unasked = (p.take place).2.unasked := by
  have hl : p.unasked.ledger = p.ledger := rfl
  have hi : p.unasked.inheritance = p.inheritance := rfl
  cases place.acts with
  | idle _ _ _ h => rw [h, h]; exact ⟨rfl, rfl⟩
  | block _ _ _ h => rw [h, h]; exact ⟨rfl, rfl⟩
  | request _ _ _ h => rw [h, h]; exact ⟨rfl, rfl⟩
  | fails _ _ _ h => rw [h, h]; exact ⟨rfl, rfl⟩
  | plain _ _ _ h =>
    rw [h, h, extend, extend, hi]
    split
    · exact ⟨rfl, rfl⟩
    · split <;> exact ⟨rfl, rfl⟩
  | counted _ _ _ h =>
    rw [h, h, extCall, extCall, ext, ext, hl, hi]
    split <;> exact ⟨rfl, rfl⟩

theorem decides_unasked : Decides unasked := by
  intro p p' place h
  obtain ⟨hout, hstate⟩ := take_unasked p place
  obtain ⟨hout', hstate'⟩ := take_unasked p' place
  rw [h] at hout' hstate'
  exact ⟨hout'.symm.trans hout, hstate'.symm.trans hstate⟩

/-- An aside leaves nothing but a request. -/
theorem take_of_isAside (p : Progress) {place : Place} (hs : place.statement.isAside = true) :
    (p.take place).1 = .ok () ∧ (p.take place).2.unasked = p.unasked := by
  obtain ⟨parents, s⟩ := place
  cases s with
  | assign name value => exact ⟨rfl, rfl⟩
  | mixin name args =>
    obtain rfl : name = reportMixin := by simpa [Statement.isAside] using hs
    exact ⟨rfl, rfl⟩
  | declaration _ => cases hs
  | rule _ _ => cases hs
  | extend _ _ => cases hs

/-- A run without some of the asides comes to the same end, apart from the requests. -/
theorem takeAll_unasked {places places' : List Place}
    (h : Omits (fun place => place.statement.isAside = true) places places') {p p' : Progress}
    (hp : p'.unasked = p.unasked) :
    (p'.takeAll places').1 = (p.takeAll places).1 ∧
      (p'.takeAll places').2.unasked = (p.takeAll places).2.unasked := by
  rcases decides_unasked.takeAll (fun p _ hs => (take_of_isAside p hs).2) h hp with
    ⟨q, place, f, hs, hf, -⟩ | hsame
  · rw [(take_of_isAside q hs).1] at hf
    cases hf
  · exact hsame

end Progress

/-! ## Sheets -/

namespace Sheet

variable {sheet sheet' common : Sheet}

/-- **Sheets that differ in asides only**, and ask for the same reports in the same order,
    compile to the same from the same ledger. -/
theorem compile_congr
    (h : LeavesOut (fun s => s.isAside = true) sheet.statements common.statements)
    (h' : LeavesOut (fun s => s.isAside = true) sheet'.statements common.statements)
    (hr : sheet'.requests = sheet.requests)
    {budgets options budgets' options' : Option (List (Scalar × Value))}
    (hl : sheet'.ledger budgets' options' = sheet.ledger budgets options) :
    sheet'.compile budgets' options' = sheet.compile budgets options := by
  rw [compile_eq_steps, compile_eq_steps, hl]
  rcases sheet.ledger budgets options with f | ledger
  · rfl
  · have hbegin : sheet'.begin ledger = sheet.begin ledger := by
      rw [begin, begin, ← placeholders_of_leavesOut Statement.isLoose_of_isAside h,
        ← placeholders_of_leavesOut Statement.isLoose_of_isAside h']
    obtain ⟨hout, hstate⟩ :=
      Progress.takeAll_unasked (omits_steps Statement.isLoose_of_isAside h)
        (rfl : (sheet.begin ledger).unasked = (sheet.begin ledger).unasked)
    obtain ⟨hout', hstate'⟩ :=
      Progress.takeAll_unasked (omits_steps Statement.isLoose_of_isAside h')
        (congrArg Progress.unasked hbegin.symm)
    have hsame := hout'.symm.trans hout
    have hforgot := hstate'.symm.trans hstate
    simp only
    rcases hrun : (sheet.begin ledger).takeAll sheet.steps with ⟨outcome, p⟩
    rcases hrun' : (sheet'.begin ledger).takeAll sheet'.steps with ⟨outcome', p'⟩
    rw [hrun, hrun'] at hsame hforgot
    obtain rfl : outcome' = outcome := hsame
    cases outcome' with
    | error f =>
      have hlog : p'.unasked.log = p.unasked.log := congrArg Progress.log hforgot
      exact congrArg (Outcome.mk · _) hlog
    | ok u =>
      have hrequests : p'.requests = p.requests :=
        (requests_of_takeAll hrun').trans (hr.trans (requests_of_takeAll hrun).symm)
      obtain rfl : p' = p := Progress.eq_of_unasked hforgot hrequests
      rfl

/-- **Placement does not matter.**  Take two sheets that are the same when all variables and
    all calls for reports are left out, at any depth, that set the same variables to the same
    values, and that call for the same reports in the same order.  With the same settings from
    outside both compile to the same rules, findings and usage, or fail with the same fault,
    and the log is the same. -/
theorem compile_eq_of_placement {sheet sheet' : Sheet}
    (hs : sheet'.without Statement.isAside = sheet.without Statement.isAside)
    (hv : sheet'.assignments = sheet.assignments)
    (hr : sheet'.calls reportMixin = sheet.calls reportMixin)
    (budgets options : Option (List (Scalar × Value))) :
    sheet'.compile budgets options = sheet.compile budgets options := by
  have h := sheet.leavesOut_without Statement.isAside
  have h' := hs ▸ sheet'.leavesOut_without Statement.isAside
  have hrequests : sheet'.requests = sheet.requests := by
    rw [requests_eq_calls, requests_eq_calls, hr]
  have hext : sheet'.calls extMixin = sheet.calls extMixin := by
    rw [← calls_of_leavesOut Statement.isLoose_of_isAside Statement.argumentsOf?_of_isAside h,
      ← calls_of_leavesOut Statement.isLoose_of_isAside Statement.argumentsOf?_of_isAside h']
  exact compile_congr h h' hrequests (ledger_congr hext hr hv budgets options)

end Sheet

/-- Settings on top, and reports that are asked for before anything is counted. -/
def tidySheet : Sheet where
  statements :=
    [.assign "ext-budget" (.map [(.text "total", .scalar (.int 1))]),
      .mixin "ext-debug" ["total"], .mixin "ext-debug" [],
      .rule ["%a"] [.declaration ⟨"color", "red"⟩],
      .rule [".x"] [.mixin "ext" ["a"], .rule [".y"] [.mixin "ext" ["a"]]]]

/-- The same settings at the end, and the reports asked for in rules. -/
def scatteredSheet : Sheet where
  statements :=
    [.rule ["%a"] [.declaration ⟨"color", "red"⟩],
      .rule [".x"] [.mixin "ext-debug" ["total"], .mixin "ext" ["a"],
        .rule [".y"] [.mixin "ext" ["a"], .mixin "ext-debug" []]],
      .assign "ext-budget" (.map [(.text "total", .scalar (.int 1))])]

theorem compile_scatteredSheet :
    scatteredSheet.without Statement.isAside = tidySheet.without Statement.isAside ∧
      scatteredSheet.assignments = tidySheet.assignments ∧
      scatteredSheet.calls reportMixin = [["total"], []] ∧
      tidySheet.calls reportMixin = [["total"], []] ∧
      scatteredSheet.compile none none = tidySheet.compile none none ∧
      (tidySheet.compile none none).result.toOption.map Compiled.findings =
        some [overrunFinding .warning "a" "total" 1 2 [".x .y"]] := by
  have hs : scatteredSheet.without Statement.isAside = tidySheet.without Statement.isAside := rfl
  have hv : scatteredSheet.assignments = tidySheet.assignments := rfl
  have hr : scatteredSheet.calls reportMixin = tidySheet.calls reportMixin := rfl
  refine ⟨hs, hv, rfl, rfl, Sheet.compile_eq_of_placement hs hv hr none none, ?_⟩
  decide +kernel

end StyleBudget
