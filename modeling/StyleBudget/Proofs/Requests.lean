/-
  Requests for reports, answered as a whole.

  A sheet may ask for reports anywhere.  The requests are answered when all its statements
  have been taken, and one that cannot be answered leaves the page without any report.

  * `Sheet.reachable_counted`: what a sheet has counted is what calls lead to;
  * `Sheet.result_of_requests` puts the report for all requests behind the rules of a sheet, or
    fails with the first fault of a request;
  * `Sheet.requests_answered` is the result for reports without a number that is too long.
-/
import StyleBudget.Proofs.Additions
import StyleBudget.Proofs.Headlines
import StyleBudget.Proofs.Omission
import StyleBudget.Proofs.Overlay

namespace StyleBudget

/-! ## Sessions of a sheet -/

/-- A directive leads from a reachable session to a reachable one. -/
theorem Session.Reachable.follow {settings : Settings} {s : Session} (h : s.Reachable settings) :
    ∀ d : Directive, (s.follow d).Reachable settings
  | .counted c => h.call c
  | .plain _ _ _ => h.shared _

theorem Session.Reachable.foldl_follow {settings : Settings} {s : Session}
    (h : s.Reachable settings) (ds : List Directive) :
    (ds.foldl Session.follow s).Reachable settings := by
  induction ds generalizing s with
  | nil => exact h
  | cons d rest ih => exact ih (h.follow d)

namespace Sheet

variable {sheet : Sheet} {budgets options : Option (List (Scalar × Value))}
  {settings : Settings} {p : Progress}

/-- The directives of a sheet lead to no other sessions than calls do. -/
theorem reachable_counted (sheet : Sheet) (settings : Settings) :
    (sheet.counted settings).Reachable settings :=
  (Session.Reachable.start (some (.declare sheet.placeholders))).foldl_follow sheet.directives

/-! ## Sheets that ask for reports -/

/-- A sheet that asks for a report counts. -/
theorem tracks_of_requests (hne : sheet.requests ≠ []) : sheet.tracks = true := by
  rw [requests_eq_calls, Ne, List.map_eq_nil_iff] at hne
  exact sheet.tracks_iff_calls.2 (.inr hne)

theorem budgetNames_counted (sheet : Sheet) (settings : Settings) :
    (sheet.counted settings).ledger.usage.budgetNames = settings.budgets.keys :=
  (sheet.reachable_counted settings).sound.names

/-- A sheet that asks for reports, once all its statements have been taken: the one report for
    all requests stands behind its rules, and is made from what all statements have counted; or
    the first fault of a request is the one of the sheet. -/
theorem result_of_requests (hs : sheet.settings budgets options = .ok settings)
    (hp : compileAll [] (sheet.begin (some (.start settings))) sheet.statements = (.ok (), p))
    (hne : sheet.requests ≠ []) :
    (sheet.compile budgets options).result =
      (sheet.requests.findSome? (sheet.counted settings).ledger.fault?).elim
        (.ok ⟨linesText (sheetLines (sheet.output ++
            [overlayBlock ((sheet.counted settings).ledger.overlayText sheet.requests)])),
          (sheet.counted settings).ledger.findings, some (sheet.counted settings).ledger⟩)
        fun f => .error (.report f) := by
  have hl : sheet.ledger budgets options = .ok (some (.start settings)) := by
    rw [Sheet.ledger, if_pos (tracks_of_requests hne), hs]
    rfl
  have htaken : (sheet.begin (some (.start settings))).takeAll sheet.places = (.ok (), p) := by
    rw [← hp, compileAll_eq_takeAll]
    rfl
  have hreach := Progress.reaches_of_takeAll htaken
  have hrequests : p.requests = sheet.requests := hreach.requests
  have hledger : p.ledger = some (sheet.counted settings).ledger := by
    have hsession : p.session? = some (sheet.counted settings) := hreach.session
    obtain ⟨ledger, hpl, hc⟩ := Option.map_eq_some_iff.1 hsession
    rw [hpl, ← hc]
  have hoverlay : p.overlay = (sheet.requests.findSome? (sheet.counted settings).ledger.fault?).elim
      (.ok [overlayRule ((sheet.counted settings).ledger.overlayText sheet.requests)])
      fun f => .error (.report f) := by
    obtain ⟨which, rest, hcons⟩ := List.exists_cons_of_ne_nil hne
    rw [Progress.overlay, hrequests, hledger, hcons]
    simp only [Ledger.overlayReport_eq]
    cases (which :: rest).findSome? (sheet.counted settings).ledger.fault? <;> rfl
  rw [result_compile, hl]
  simp only [htaken, Progress.result_outcome, hoverlay, Progress.findings, hledger]
  cases sheet.requests.findSome? (sheet.counted settings).ledger.fault? with
  | some f => rfl
  | none =>
    rw [← hreach.text]
    rfl

/-- **Requests are answered as a whole.**  Let a sheet ask for reports, at any places, let its
    settings be read and all its statements be taken, and let no number in a report that is asked
    for have too many digits.  A call without an argument is a request for all budgets.  The sheet
    fails on a budget that is not known exactly if some request is neither for all budgets nor for
    one that is set, and then with the first such request and the budgets that are set.  If there
    is no such request it compiles: its text has the lines of its rules and behind them those of
    one overlay, and if all budgets are among the requests this shows the report on all budgets
    after the last statement, whatever else is asked for. -/
theorem requests_answered (hs : sheet.settings budgets options = .ok settings)
    (hp : compileAll [] (sheet.begin (some (.start settings))) sheet.statements = (.ok (), p))
    (hne : sheet.requests ≠ [])
    (hw : ∀ which ∈ sheet.requests, ∀ budget ∈ reportedOn settings.budgets.keys which,
      (sheet.counted settings).ledger.Writable budget) :
    sheet.requests = (sheet.calls reportMixin).map (fun args => args.headD allBudgets) ∧
    ((∃ which known,
        (sheet.compile budgets options).result = .error (.report (.unknownBudget which known))) ↔
      ∃ which ∈ sheet.requests, ¬ Answerable settings.budgets.keys which) ∧
    (∀ f, (sheet.compile budgets options).result = .error f →
      ∃ before which after, sheet.requests = before ++ which :: after ∧
        (∀ earlier ∈ before, Answerable settings.budgets.keys earlier) ∧
        ¬ Answerable settings.budgets.keys which ∧
        f = .report (.unknownBudget which settings.budgets.keys)) ∧
    ((∀ which ∈ sheet.requests, Answerable settings.budgets.keys which) →
      ∃ report, (sheet.compile budgets options).result =
          .ok ⟨linesText (sheetLines (sheet.output ++ [overlayBlock report])),
            (sheet.counted settings).ledger.findings, some (sheet.counted settings).ledger⟩ ∧
        (allBudgets ∈ sheet.requests →
          (sheet.counted settings).ledger.report allBudgets = .ok report)) := by
  refine ⟨sheet.requests_eq_calls, ?_⟩
  have hresult := result_of_requests hs hp hne
  have hcases := @Ledger.findSome?_fault?_cases (sheet.counted settings).ledger sheet.requests
  rw [sheet.budgetNames_counted settings] at hcases
  rcases hcases hw with ⟨hnone, hall⟩ | ⟨before, which, after, hsplit, hbefore, hnot, hf⟩
  · rw [hnone] at hresult
    refine ⟨iff_of_false ?_ ?_, fun f hf => ?_, fun _ => ⟨_, hresult, fun ha => ?_⟩⟩
    · rintro ⟨which, known, he⟩
      cases he.symm.trans hresult
    · rintro ⟨which, hmem, hnot⟩
      exact hnot (hall which hmem)
    · cases hf.symm.trans hresult
    · rw [Ledger.report_eq, List.findSome?_eq_none_iff.1 hnone _ ha, Ledger.overlayText, if_pos ha]
      rfl
  · rw [hf] at hresult
    have herror : (sheet.compile budgets options).result =
        .error (.report (.unknownBudget which settings.budgets.keys)) := hresult
    have hmem : which ∈ sheet.requests := hsplit ▸ List.mem_append_cons_self
    refine ⟨iff_of_true ⟨_, _, herror⟩ ⟨which, hmem, hnot⟩, fun g hg => ?_, fun hall => ?_⟩
    · exact ⟨before, which, after, hsplit, hbefore, hnot, Except.error.inj (hg.symm.trans herror)⟩
    · exact absurd (hall which hmem) hnot

end Sheet

def twoBudgets : Settings := ⟨.ofList [("total", 2), ("card", 2)], {}⟩

/-- Requests for one budget and for all, before the extension that they report on and around
    it, and one of them twice. -/
def askingSheet : Sheet where
  statements :=
    [.assign "ext-budget" (.map [(.text "total", .scalar (.int 2)),
        (.text "card", .scalar (.int 2))]),
      .mixin "ext-debug" ["card"], .rule ["%a"] [.declaration ⟨"color", "red"⟩],
      .mixin "ext-debug" [],
      .rule [".x"] [.mixin "ext-debug" ["total"],
        .rule [".y"] [.mixin "ext" ["a", "card"], .mixin "ext-debug" ["card"]]]]

/-- The same sheet with two requests more, for budgets that are not set. -/
def refusedSheet : Sheet where
  statements := askingSheet.statements ++
    [.rule [".z"] [.mixin "ext-debug" ["spare"]], .mixin "ext-debug" ["gone"]]

theorem requests_askingSheet :
    askingSheet.requests = ["card", "all", "total", "card"] ∧
      (∃ c, (askingSheet.compile none none).result = .ok c ∧
        c.css = ".x .y \x7b\n  color: red;\n\x7d\n\nbody::before \x7b\n" ++
          "  content: \"EXTEND BUDGET REPORT\\A \\A " ++
          "All good! - 0 of 1 total (2, 1/2 ratio)\\A \\A " ++
          "All good! - 0 of 1 card (2, 1/2 ratio)\\A \\A \";\n" ++ lookText) ∧
      refusedSheet.requests = ["card", "all", "total", "card", "spare", "gone"] ∧
      (refusedSheet.compile none none).result =
        .error (.report (.unknownBudget "spare" ["total", "card"])) := by
  have hs : askingSheet.settings none none = .ok twoBudgets := rfl
  have hs' : refusedSheet.settings none none = .ok twoBudgets := rfl
  obtain ⟨p, hp⟩ : ∃ p, compileAll [] (askingSheet.begin (some (.start twoBudgets)))
      askingSheet.statements = (.ok (), p) := ⟨_, Prod.ext (by cbv) rfl⟩
  obtain ⟨p', hp'⟩ : ∃ p, compileAll [] (refusedSheet.begin (some (.start twoBudgets)))
      refusedSheet.statements = (.ok (), p) := ⟨_, Prod.ext (by cbv) rfl⟩
  refine ⟨rfl, ?_, rfl, ?_⟩
  · obtain ⟨-, -, -, hanswered⟩ :=
      Sheet.requests_answered hs hp (by decide +kernel) (by decide +kernel)
    obtain ⟨report, hresult, hall⟩ := hanswered (by decide +kernel)
    have hreport : ((askingSheet.counted twoBudgets).ledger.report allBudgets).toOption =
        some (reportHeader ++ "All good! - 0 of 1 total (2, 1/2 ratio)\n\n" ++
          "All good! - 0 of 1 card (2, 1/2 ratio)\n\n") := by decide +kernel
    rw [hall (by decide +kernel)] at hreport
    obtain rfl := Option.some.inj hreport
    exact ⟨_, hresult, by decide +kernel⟩
  · obtain ⟨-, hfails, hfirst, -⟩ :=
      Sheet.requests_answered hs' hp' (by decide +kernel) (by decide +kernel)
    obtain ⟨which, known, he⟩ := hfails.2 ⟨"spare", by decide +kernel, by decide +kernel⟩
    obtain ⟨before, which, after, hsplit, hbefore, hnot, hf⟩ := hfirst _ he
    have hfind : refusedSheet.requests.find? (fun w => ¬ Answerable twoBudgets.budgets.keys w) =
        some which :=
      List.find?_eq_some_iff_append.2 ⟨decide_eq_true hnot, before, after, hsplit,
        fun earlier hm => by simpa using hbefore earlier hm⟩
    have hspare : refusedSheet.requests.find? (fun w => ¬ Answerable twoBudgets.budgets.keys w) =
        some "spare" := by decide +kernel
    obtain rfl := Option.some.inj (hspare.symm.trans hfind)
    rw [he, hf]
    rfl

/-- Two placeholders that are extended under a limit with as many digits as an integer may
    have. -/
def longSheet : Sheet where
  statements :=
    [.assign "ext-budget"
        (.map [(.text "total", .scalar (.int (10 ^ maxIntegerDigits - 1 : Nat)))]),
      .rule ["%a", "%b"] [.declaration ⟨"color", "red"⟩],
      .rule [".x"] [.mixin "ext" ["a"], .mixin "ext" ["b"]], .mixin "ext-debug" []]

/-- The only request is for all budgets, and it is not answered. -/
theorem requests_longSheet :
    longSheet.settings none none = .ok longLimit ∧
      (∃ p, compileAll [] (longSheet.begin (some (.start longLimit))) longSheet.statements =
        (.ok (), p)) ∧
      longSheet.requests = ["all"] ∧
      (longSheet.compile none none).result = .error (.report .overlong) := by
  have hs : longSheet.settings none none = .ok longLimit := resolve_longLimit
  have hdone : (compileAll [] (longSheet.begin (some (.start longLimit)))
      longSheet.statements).1.toOption.isSome = true := by decide +kernel
  rcases hp : compileAll [] (longSheet.begin (some (.start longLimit))) longSheet.statements with
    ⟨f | u, p⟩
  · rw [hp] at hdone
    cases hdone
  have hrequests : longSheet.requests = ["all"] := rfl
  refine ⟨hs, ⟨p, rfl⟩, hrequests, ?_⟩
  have hbound : (longSheet.counted longLimit).ledger.settings.bound "total" =
      10 ^ maxIntegerDigits - 1 := by
    rw [(longSheet.reachable_counted longLimit).sound.kept]
    rfl
  have hsize : (((longSheet.counted longLimit).ledger.usage.consumerMap? "total").getD .empty).size
      = 2 := by decide +kernel
  have hlong : ¬ (longSheet.counted longLimit).ledger.Writable "total" := by
    rw [Ledger.Writable, isWritable_iff, hbound, hsize]
    decide +kernel
  have hknown : (longSheet.counted longLimit).ledger.usage.budgetNames = ["total"] :=
    longSheet.budgetNames_counted longLimit
  have hfault : (longSheet.counted longLimit).ledger.fault? "all" = some .overlong := by
    rw [Ledger.fault?, hknown, reportedOn]
    simp only [Answerable, allBudgets, true_or, if_true, List.findSome?_singleton, Ledger.overlong?,
      if_neg hlong]
  rw [Sheet.result_of_requests hs hp (by rw [hrequests]; exact List.cons_ne_nil _ _), hrequests,
    List.findSome?_singleton, hfault]
  rfl

end StyleBudget
