/-
  Plain extensions and the books.

  Plain extensions and counted ones store consumers in the same place, but nothing that is
  counted is read from there: of the inheritance only the declared placeholders decide whether
  an extension fails, and these stay the same.  So a sheet counts, warns and reports the same
  without its plain extensions.

  * `Progress.books` are the declared placeholders, the ledger and the requests for reports;
  * `Inheritance.extend_alike`, `Session.call_alike` and `Progress.decides_books`: they decide
    what comes of a statement, and what they are after it;
  * `Sheet.books_of_leavesOut` is the result about sheets.
-/
import StyleBudget.Proofs.Omission

namespace StyleBudget

/-! ## Books -/

/-- What a run has to do with counting. -/
structure Books where
  /-- The placeholders that can be extended. -/
  declared : List String
  ledger : Option Ledger
  requests : List String

def Progress.books (p : Progress) : Books := ⟨p.inheritance.declared, p.ledger, p.requests⟩

/-- Of an inheritance, the declared placeholders decide whether an extension fails. -/
theorem Inheritance.extend_alike {inh inh' : Inheritance} (h : inh'.declared = inh.declared)
    (placeholder : String) (selectors : List String) (flag : String) :
    (∃ f, inh.extend placeholder selectors flag = .error f ∧
      inh'.extend placeholder selectors flag = .error f) ∨
    (∃ next next', inh.extend placeholder selectors flag = .ok next ∧
      inh'.extend placeholder selectors flag = .ok next' ∧ next'.declared = next.declared) := by
  have hsame : ∀ f, inh'.extend placeholder selectors flag = .error f ↔
      inh.extend placeholder selectors flag = .error f := by
    intro f
    rw [extend_eq_error_iff, extend_eq_error_iff, h]
  cases hn : inh.extend placeholder selectors flag with
  | error f => exact .inl ⟨f, rfl, (hsame f).2 hn⟩
  | ok next =>
    cases hn' : inh'.extend placeholder selectors flag with
    | error f => cases hn.symm.trans ((hsame f).1 hn')
    | ok next' =>
      refine .inr ⟨next, next', rfl, rfl, ?_⟩
      rw [declared_extend hn, declared_extend hn', h]

/-- The same holds of a call: what it gives and what it counts does not depend on who has
    extended the placeholder. -/
theorem Session.call_alike {inh inh' : Inheritance} (h : inh'.declared = inh.declared)
    (ledger : Ledger) (c : Call) :
    ∃ outcome next after after', call ⟨ledger, some inh⟩ c = (outcome, ⟨next, some after⟩) ∧
      call ⟨ledger, some inh'⟩ c = (outcome, ⟨next, some after'⟩) ∧
      after'.declared = after.declared := by
  simp only [call, ext, inherit]
  split
  · exact ⟨_, _, inh, inh', rfl, rfl, h⟩
  · rcases Inheritance.extend_alike h c.placeholder (c.selectors.filter fun s => s ≠ "") c.flag with
      ⟨f, hf, hf'⟩ | ⟨next, next', hn, hn', hd⟩
    · rw [hf, hf']
      exact ⟨_, _, inh, inh', rfl, rfl, h⟩
    · rw [hn, hn']
      exact ⟨_, _, next, next', rfl, rfl, hd⟩

namespace Progress

/-- **One statement.**  The books decide whether it fails, and what they are after it. -/
theorem decides_books : Decides books := by
  intro p p' place h
  have hd : p'.inheritance.declared = p.inheritance.declared := congrArg Books.declared h
  have hl : p'.ledger = p.ledger := congrArg Books.ledger h
  have hr : p'.requests = p.requests := congrArg Books.requests h
  cases place.acts with
  | idle _ _ _ ht => rw [ht, ht]; exact ⟨rfl, h⟩
  | block _ _ _ ht => rw [ht, ht]; exact ⟨rfl, h⟩
  | request _ _ _ ht =>
    rw [ht, ht]
    exact ⟨rfl, by simp only [books, hd, hl, hr]⟩
  | fails _ _ _ ht => rw [ht, ht]; exact ⟨rfl, h⟩
  | @plain placeholder flag _ _ _ ht =>
    rw [ht, ht, extend, extend]
    split
    · exact ⟨rfl, h⟩
    · rcases Inheritance.extend_alike hd placeholder place.parents flag with
        ⟨f, hf, hf'⟩ | ⟨next, next', hn, hn', hnext⟩
      · rw [hf, hf']
        exact ⟨rfl, h⟩
      · rw [hn, hn']
        exact ⟨rfl, by simp only [books, hnext, hl, hr]⟩
  | @counted c _ _ _ ht =>
    rw [ht, ht]
    cases hledger : p.ledger with
    | none =>
      rw [extCall, extCall, ext, ext, hl, hledger]
      exact ⟨rfl, h⟩
    | some ledger =>
      obtain ⟨outcome, next, after, after', hcall, hcall', hafter⟩ :=
        Session.call_alike hd ledger c
      rw [extCall_of_ledger hledger, extCall_of_ledger (hl.trans hledger), hcall, hcall']
      exact ⟨rfl, by simp only [books, Option.getD_some, hafter, hr]⟩

end Progress

/-! ## Plain extensions -/

def Statement.isExtend : Statement → Bool
  | .extend _ _ => true
  | _ => false

theorem Statement.exists_eq_extend {s : Statement} (hs : s.isExtend = true) :
    ∃ placeholder flag, s = .extend placeholder flag := by
  cases s with
  | extend placeholder flag => exact ⟨placeholder, flag, rfl⟩
  | _ => cases hs

/-- A plain extension leaves the books as they are, also if it fails. -/
theorem Progress.books_take (p : Progress) (place : Place)
    (hs : place.statement.isExtend = true) : (p.take place).2.books = p.books := by
  obtain ⟨parents, s⟩ := place
  obtain ⟨placeholder, flag, rfl⟩ := Statement.exists_eq_extend hs
  simp only [take, extend]
  split
  · rfl
  · split
    · rfl
    · rename_i inh hi
      simp only [books, Inheritance.declared_extend hi]

/-! ## Sheets -/

theorem Statement.isLoose_of_isExtend (s : Statement) (hs : s.isExtend = true) :
    s.isLoose = true := by
  obtain ⟨placeholder, flag, rfl⟩ := exists_eq_extend hs
  rfl

namespace Sheet

section

variable {sheet sheet' : Sheet} {budgets options : Option (List (Scalar × Value))}
variable (h : LeavesOut (fun s => s.isExtend = true) sheet.statements sheet'.statements)
include h

/-- Without plain extensions the mixins are called as before. -/
theorem calls_of_isExtend (name : String) : sheet'.calls name = sheet.calls name := by
  refine calls_of_leavesOut Statement.isLoose_of_isExtend (fun s hs => ?_) h
  obtain ⟨placeholder, flag, rfl⟩ := Statement.exists_eq_extend hs
  rfl

theorem requests_of_isExtend : sheet'.requests = sheet.requests := by
  rw [requests_eq_calls, requests_eq_calls, calls_of_isExtend h]

/-- Without plain extensions a sheet starts with the same ledger, or fault. -/
theorem ledger_of_isExtend : sheet'.ledger budgets options = sheet.ledger budgets options := by
  have hv : sheet'.assignments = sheet.assignments := by
    refine congrArg Table.ofList (h.filterMap_eq (fun _ _ => rfl) fun s hs => ?_)
    obtain ⟨placeholder, flag, rfl⟩ := Statement.exists_eq_extend hs
    rfl
  exact ledger_congr (calls_of_isExtend h _) (calls_of_isExtend h _) hv budgets options

/-- **A run without plain extensions** comes to the same books. -/
theorem takeAll_of_isExtend {ledger : Option Ledger} {p : Progress}
    (hp : (sheet.begin ledger).takeAll sheet.steps = (.ok (), p)) :
    ∃ p', (sheet'.begin ledger).takeAll sheet'.steps = (.ok (), p') ∧ p'.books = p.books := by
  have hbegin : sheet'.begin ledger = sheet.begin ledger := by
    rw [begin, begin, placeholders_of_leavesOut Statement.isLoose_of_isExtend h]
  rcases Progress.decides_books.takeAll (fun p place hs => p.books_take place hs)
      (omits_steps Statement.isLoose_of_isExtend h) (congrArg Progress.books hbegin) with
    ⟨-, -, f, -, -, hf⟩ | ⟨hout, hbooks⟩
  · rw [hp] at hf
    cases hf
  · rcases hp' : (sheet'.begin ledger).takeAll sheet'.steps with ⟨outcome, p'⟩
    rw [hp, hp'] at hout hbooks
    obtain rfl : outcome = .ok () := hout
    exact ⟨p', rfl, hbooks⟩

end

theorem text_of_takeAll {sheet : Sheet} {ledger : Option Ledger} {p : Progress}
    (hp : (sheet.begin ledger).takeAll sheet.steps = (.ok (), p)) (shown : List Block) :
    sheetText (p.rules ++ shown.map Block.text) =
      linesText (sheetLines (sheet.output ++ shown)) := by
  rw [takeAll_steps] at hp
  exact (Progress.reaches_of_takeAll hp).text shown

/-- **Plain extensions leave no trace in the books.**  Take a sheet that compiles, and leave
    out some of its plain extensions, at any depth.  What is left compiles with the same
    settings from outside.  The usage is the same and so are the findings, in their order; the
    same reports are asked for, and the overlay that shows them is the last rule of both
    texts, with the same lines; and the log differs at most in the number of rules. -/
theorem books_of_leavesOut {sheet sheet' : Sheet}
    (hs : LeavesOut (fun s => s.isExtend = true) sheet.statements sheet'.statements)
    {budgets options : Option (List (Scalar × Value))} {c : Compiled}
    (h : (sheet.compile budgets options).result = .ok c) :
    ∃ c' shown, (sheet'.compile budgets options).result = .ok c' ∧
      c'.ledger = c.ledger ∧ c'.findings = c.findings ∧ sheet'.requests = sheet.requests ∧
      ((sheet.requests = [] ∧ shown = []) ∨
        ∃ ledger report, c.ledger = some ledger ∧
          overlayReport ledger sheet.requests = .ok report ∧ shown = [overlayBlock report]) ∧
      c.css = linesText (sheetLines (sheet.output ++ shown)) ∧
      c'.css = linesText (sheetLines (sheet'.output ++ shown)) ∧
      (sheet'.compile budgets options).log.dropLast =
        (sheet.compile budgets options).log.dropLast := by
  obtain ⟨ledger, p, overlay, hl, hp, ho, rfl⟩ := run_of_compile h
  rw [← takeAll_steps] at hp
  obtain ⟨p', hp', hbooks⟩ := takeAll_of_isExtend hs hp
  have hledger : p'.ledger = p.ledger := congrArg Books.ledger hbooks
  have hrequests : p'.requests = p.requests := congrArg Books.requests hbooks
  have ho' : p'.overlay = .ok overlay := by
    rw [Progress.overlay, hledger, hrequests]
    exact ho
  have hfindings : p'.findings = p.findings := by rw [Progress.findings, hledger, Progress.findings]
  have hreq : p.requests = sheet.requests := requests_of_takeAll hp
  have hl' : sheet'.ledger budgets options = .ok ledger := (ledger_of_isExtend hs).trans hl
  obtain ⟨shown, hoverlay, hshown⟩ := Progress.shows_of_overlay ho
  refine ⟨⟨sheetText (p'.rules ++ overlay), p'.findings, p'.ledger⟩, shown, ?_, hledger, hfindings,
    requests_of_isExtend hs, ?_, ?_, ?_, ?_⟩
  · rw [compile_of_takeAll hl' hp', Progress.result_outcome, ho']
    rfl
  · cases hshown with
    | nothing hnil => exact .inl ⟨hreq ▸ hnil, rfl⟩
    | overlay _ hsome hreport => exact .inr ⟨_, _, hsome, hreq ▸ hreport, rfl⟩
  · rw [hoverlay, text_of_takeAll hp]
  · rw [hoverlay, text_of_takeAll hp']
  · rw [compile_of_takeAll hl' hp', compile_of_takeAll hl hp, Progress.outcome, Progress.outcome, ho,
      ho', Progress.log, Progress.reportLog, hledger, hrequests]
    simp only [List.dropLast_concat]
    rfl

end Sheet

/-- A placeholder that is extended twice with counting, and before, between and after that
    without. -/
def sharedSheet : Sheet where
  statements :=
    [.mixin "ext-debug" ["total"],
      .assign "ext-budget" (.map [(.text "total", .scalar (.int 1))]),
      .rule ["%a"] [.declaration ⟨"color", "red"⟩],
      .rule [".x"] [.extend "a" "",
        .rule [".y"] [.mixin "ext" ["a"], .extend "a" "", .mixin "ext" ["a"]]],
      .rule [".z"] [.extend "a" "!optional"]]

/-- The same sheet with the last of the plain extensions only. -/
def sparseSheet : Sheet where
  statements :=
    [.mixin "ext-debug" ["total"],
      .assign "ext-budget" (.map [(.text "total", .scalar (.int 1))]),
      .rule ["%a"] [.declaration ⟨"color", "red"⟩],
      .rule [".x"] [.rule [".y"] [.mixin "ext" ["a"], .mixin "ext" ["a"]]],
      .rule [".z"] [.extend "a" "!optional"]]

/-- What the page shows for both. -/
def sharedReport : String := reportHeader ++ "All good! - 0 of 1 total (1, 1/1 ratio)\n\n"

theorem lines_sharedSheet :
    sheetLines (sharedSheet.output ++ [overlayBlock sharedReport]) =
        [".x,", ".x .y,", ".z \x7b", "  color: red;", "\x7d", ""] ++
          (overlayBlock sharedReport).lines ∧
      sheetLines (sparseSheet.output ++ [overlayBlock sharedReport]) =
        [".x .y,", ".z \x7b", "  color: red;", "\x7d", ""] ++
          (overlayBlock sharedReport).lines := by
  constructor
  · cbv
  · cbv

/-- The repeat is found in both, and the overlay is the same under different rules. -/
theorem books_sharedSheet :
    LeavesOut (fun s => s.isExtend = true) sharedSheet.statements sparseSheet.statements ∧
      ∃ c c', (sharedSheet.compile none none).result = .ok c ∧
        (sparseSheet.compile none none).result = .ok c' ∧ c'.ledger = c.ledger ∧
        c.findings = [repeatFinding .warning "a" ".x .y"] ∧ c'.findings = c.findings ∧
        c.css = ".x,\n.x .y,\n.z \x7b\n  color: red;\n\x7d\n\nbody::before \x7b\n" ++
          "  content: \"EXTEND BUDGET REPORT\\A \\A " ++
          "All good! - 0 of 1 total (1, 1/1 ratio)\\A \\A \";\n" ++ lookText ∧
        c'.css = ".x .y,\n.z \x7b\n  color: red;\n\x7d\n\nbody::before \x7b\n" ++
          "  content: \"EXTEND BUDGET REPORT\\A \\A " ++
          "All good! - 0 of 1 total (1, 1/1 ratio)\\A \\A \";\n" ++ lookText := by
  have hs : LeavesOut (fun s => s.isExtend = true) sharedSheet.statements sparseSheet.statements :=
    .keep rfl (.keep rfl (.inside _ (.keep rfl .nil)
      (.inside _ (.drop rfl (.inside _ (.keep rfl (.drop rfl (.keep rfl .nil))) .nil))
        (.inside _ (.keep rfl .nil) .nil))))
  have hcompiled : (sharedSheet.compile none none).result.toOption.map
      (fun c => (c.findings, c.ledger.map fun ledger =>
        (overlayReport ledger sharedSheet.requests).toOption)) =
      some ([repeatFinding .warning "a" ".x .y"], some (some sharedReport)) := by decide +kernel
  refine ⟨hs, ?_⟩
  cases hc : (sharedSheet.compile none none).result with
  | error f =>
    rw [hc] at hcompiled
    cases hcompiled
  | ok c =>
    rw [hc] at hcompiled
    obtain ⟨hfindings, hshown⟩ := Prod.mk.inj (Option.some.inj hcompiled)
    obtain ⟨c', shown, hc', hledger, hsame, -, hoverlay, hcss, hcss', -⟩ :=
      Sheet.books_of_leavesOut hs hc
    rcases hoverlay with ⟨hnone, -⟩ | ⟨ledger, report, hl, hreport, rfl⟩
    · cases hnone
    · rw [hl, Option.map_some, hreport] at hshown
      obtain rfl : report = sharedReport := Option.some.inj (Option.some.inj hshown)
      rw [lines_sharedSheet.1] at hcss
      rw [lines_sharedSheet.2] at hcss'
      exact ⟨c, c', rfl, hc', hledger, hfindings, hsame, hcss.trans (by decide +kernel),
        hcss'.trans (by decide +kernel)⟩

end StyleBudget
