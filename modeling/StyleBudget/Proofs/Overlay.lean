/-
  The report on the page.

  The reports that a sheet asks for are shown under one header.  Each of them has been
  made by itself: one that has nothing to list says so, whatever the others list.

  * `Ledger.budgetText` is the text on one budget, `remarked` what stands for it, and
    `Ledger.Writable` says that there is a report with this text;
  * `Answerable` says which requests have a sense, and `Ledger.fault?` why one of them is not
    answered; `Ledger.usageBody_eq` is one request, `mapM_eq_of_faults` a list of which the first
    fault decides, and `Ledger.findSome?_fault?_cases` says which this is if no number is too long;
  * `Ledger.overlayReport_eq` is the report for all requests, `overlayReport_cases` the one for
    single budgets;
  * `Ledger.mergedReport` is one report on all requested budgets, with one remark if it
    lists nothing; `join_remarked_eq_iff` compares the two;
  * `Sheet.overlay_merged_iff` is the result about sheets.
-/
import Mathlib
import StyleBudget.Proofs.Overruns
import StyleBudget.Proofs.Phases

namespace StyleBudget

/-! ## Reports on single budgets -/

namespace Ledger

/-- The text on one budget; nothing if no placeholder has been used under it. -/
def budgetText (ledger : Ledger) (budget : String) : String :=
  StyleBudget.budgetText ((ledger.usage.consumerMap? budget).getD .empty) budget ledger.settings

/-- No number in the report on a budget has too many digits. -/
def Writable (ledger : Ledger) (budget : String) : Prop :=
  isWritable (ledger.settings.bound budget *
    ((ledger.usage.consumerMap? budget).getD .empty).size) = true

instance (ledger : Ledger) (budget : String) : Decidable (ledger.Writable budget) :=
  inferInstanceAs (Decidable (_ = true))

/-- Why there is no report on a budget. -/
def overlong? (ledger : Ledger) (budget : String) : Option ReportFault :=
  if ledger.Writable budget then none else some .overlong

end Ledger

/-- A remark in the place of a text that says nothing. -/
def remarked (text : String) : String := if text = "" then nothingFound else text

section

variable {ledger : Ledger} {budget : String} {m : ConsumerMap}

theorem budgetText_eq_empty_iff {settings : Settings} :
    budgetText m budget settings = "" ↔ m.isEmpty = true := by
  rw [budgetText]
  split
  · rename_i hm
    exact iff_of_true rfl hm
  · rename_i hm
    refine iff_of_false (fun h => ?_) hm
    have hl := congrArg String.toList h
    simp at hl

namespace Ledger

/-- The report on a budget that is known: its text, or the fault. -/
theorem budgetReport_eq (hm : ledger.usage.consumerMap? budget = some m) :
    budgetReport m budget ledger.settings =
      (ledger.overlong? budget).elim (.ok (ledger.budgetText budget)) .error := by
  have hmap : (ledger.usage.consumerMap? budget).getD .empty = m := by rw [hm, Option.getD_some]
  rw [overlong?]
  split
  · rename_i hw
    rw [Writable, hmap] at hw
    exact budgetReport_eq_ok_iff.2 ⟨hw, by rw [budgetText, hmap]⟩
  · rename_i hw
    rw [Writable, hmap, Bool.not_eq_true] at hw
    exact budgetReport_eq_error_iff.2 ⟨hw, rfl⟩

/-- The text on a budget is empty exactly if no placeholder has been used under it. -/
theorem budgetText_eq_empty_iff (hm : ledger.usage.consumerMap? budget = some m) :
    ledger.budgetText budget = "" ↔ m.isEmpty = true := by
  rw [budgetText, hm, Option.getD_some, StyleBudget.budgetText_eq_empty_iff]

end Ledger

end

/-! ## One request -/

/-- A report can be asked for on all budgets together, and on each that is known. -/
def Answerable (known : List String) (which : String) : Prop := which = allBudgets ∨ which ∈ known

instance (known : List String) (which : String) : Decidable (Answerable known which) :=
  inferInstanceAs (Decidable (_ ∨ _))

/-- The budgets on which a request is answered. -/
def reportedOn (known : List String) (which : String) : List String :=
  if which = allBudgets then known else [which]

/-- Results that are faults for some arguments: the first of these decides. -/
theorem mapM_eq_of_faults {α β ε : Type} {f : α → Except ε β} {fault? : α → Option ε} {g : α → β}
    {xs : List α} (h : ∀ x ∈ xs, f x = (fault? x).elim (.ok (g x)) .error) :
    xs.mapM f = (xs.findSome? fault?).elim (.ok (xs.map g)) .error := by
  induction xs with
  | nil => rfl
  | cons x rest ih =>
    rw [List.mapM_cons, h x (List.mem_cons_self ..), ih fun y hy => h y (List.mem_cons_of_mem _ hy),
      List.findSome?_cons]
    cases fault? x with
    | some e => rfl
    | none => cases rest.findSome? fault? <;> rfl

namespace Ledger

/-- What a report on one budget or on all of them lists. -/
def listing (ledger : Ledger) (which : String) : String :=
  String.join ((reportedOn ledger.usage.budgetNames which).map ledger.budgetText)

theorem listing_of_ne {ledger : Ledger} {which : String} (h : which ≠ allBudgets) :
    ledger.listing which = ledger.budgetText which := by
  rw [listing, reportedOn, if_neg h, List.map_singleton, String.join_cons, String.join_nil,
    String.append_empty]

/-- Why a request is not answered. -/
def fault? (ledger : Ledger) (which : String) : Option ReportFault :=
  if Answerable ledger.usage.budgetNames which then
    (reportedOn ledger.usage.budgetNames which).findSome? ledger.overlong?
  else some (.unknownBudget which ledger.usage.budgetNames)

variable (ledger : Ledger) (which : String) (requests : List String)

theorem usageBody_eq :
    usageBody ledger.usage ledger.settings which =
      (ledger.fault? which).elim (.ok (remarked (ledger.listing which))) .error := by
  rw [usageBody, fault?]
  by_cases ha : which = allBudgets
  · have hreports : ∀ p ∈ ledger.usage.budgets.entries, budgetReport p.2 p.1 ledger.settings =
        ((ledger.overlong? ∘ Prod.fst) p).elim (.ok ((ledger.budgetText ∘ Prod.fst) p)) .error :=
      fun p hp => budgetReport_eq (Table.mem_entries_iff.1 hp)
    rw [if_pos ha, if_pos (.inl ha), mapM_eq_of_faults hreports, listing, reportedOn, if_pos ha,
      Usage.budgetNames, Table.keys, List.map_map, List.findSome?_map]
    cases ledger.usage.budgets.entries.findSome? (ledger.overlong? ∘ Prod.fst) <;> rfl
  · rw [if_neg ha, listing_of_ne ha, reportedOn, if_neg ha, List.findSome?_singleton]
    cases hm : ledger.usage.consumerMap? which with
    | none =>
      have hunknown : ¬ Answerable ledger.usage.budgetNames which := by
        rintro (h | h)
        · exact ha h
        · have hsome := Table.mem_keys_iff.1 h
          rw [show ledger.usage.budgets.get? which = none from hm] at hsome
          cases hsome
      rw [if_neg hunknown]
      rfl
    | some m =>
      have hknown : which ∈ ledger.usage.budgetNames :=
        Table.mem_keys_iff.2 (Option.isSome_iff_exists.2 ⟨m, hm⟩)
      rw [if_pos (.inr hknown)]
      simp only [budgetReport_eq hm]
      cases ledger.overlong? which <;> rfl

/-- A request is answered exactly if it has a sense and no number in the report is too long. -/
theorem fault?_eq_none_iff {ledger : Ledger} {which : String} :
    ledger.fault? which = none ↔ Answerable ledger.usage.budgetNames which ∧
      ∀ budget ∈ reportedOn ledger.usage.budgetNames which, ledger.Writable budget := by
  rw [fault?]
  split
  · rename_i ha
    simp [ha, overlong?]
  · rename_i ha
    simp [ha]

/-- If no number is too long, only a request without a sense is not answered. -/
theorem fault?_of_writable {ledger : Ledger} {which : String}
    (hw : ∀ budget ∈ reportedOn ledger.usage.budgetNames which, ledger.Writable budget) :
    ledger.fault? which = if Answerable ledger.usage.budgetNames which then none
      else some (.unknownBudget which ledger.usage.budgetNames) := by
  rw [fault?]
  split
  · rename_i ha
    rw [List.findSome?_eq_none_iff]
    exact fun budget hb => if_pos (hw budget hb)
  · rfl

/-- If no number is too long, all requests are answered or the first without a sense decides. -/
theorem findSome?_fault?_cases {ledger : Ledger} {requests : List String}
    (hw : ∀ which ∈ requests, ∀ budget ∈ reportedOn ledger.usage.budgetNames which,
      ledger.Writable budget) :
    (requests.findSome? ledger.fault? = none ∧
      ∀ which ∈ requests, Answerable ledger.usage.budgetNames which) ∨
    ∃ before which after, requests = before ++ which :: after ∧
      (∀ earlier ∈ before, Answerable ledger.usage.budgetNames earlier) ∧
      ¬ Answerable ledger.usage.budgetNames which ∧
      requests.findSome? ledger.fault? =
        some (.unknownBudget which ledger.usage.budgetNames) := by
  induction requests with
  | nil => exact .inl ⟨rfl, List.forall_mem_nil _⟩
  | cons which rest ih =>
    obtain ⟨hwhich, hrest⟩ := List.forall_mem_cons.1 hw
    by_cases ha : Answerable ledger.usage.budgetNames which
    · have hnone : ledger.fault? which = none := (fault?_of_writable hwhich).trans (if_pos ha)
      rw [List.findSome?_cons, hnone]
      rcases ih hrest with ⟨hall, hanswerable⟩ | ⟨before, first, after, hsplit, hbefore, hnot, hf⟩
      · exact .inl ⟨hall, List.forall_mem_cons.2 ⟨ha, hanswerable⟩⟩
      · exact .inr ⟨which :: before, first, after, congrArg _ hsplit,
          List.forall_mem_cons.2 ⟨ha, hbefore⟩, hnot, hf⟩
    · have hsome := (fault?_of_writable hwhich).trans (if_neg ha)
      exact .inr ⟨[], which, rest, rfl, List.forall_mem_nil _, ha, by
        rw [List.findSome?_cons, hsome]⟩

/-! ## All requests -/

/-- The report for all requests: the one on all budgets if it is among them, and else one after
    the other, each of them once. -/
def overlayText (ledger : Ledger) (requests : List String) : String :=
  reportHeader ++
    if allBudgets ∈ requests then remarked (ledger.listing allBudgets)
    else String.join ((distinct requests).map fun which => remarked (ledger.listing which))

theorem report_eq :
    ledger.report which =
      (ledger.fault? which).elim (.ok (reportHeader ++ remarked (ledger.listing which))) .error := by
  rw [report, usageReport, usageBody_eq]
  cases ledger.fault? which <;> rfl

/-- **All requests or none** are answered; the first that is not decides. -/
theorem overlayReport_eq :
    overlayReport ledger requests =
      (requests.findSome? ledger.fault?).elim (.ok (ledger.overlayText requests)) .error := by
  rw [overlayReport, overlayBodies,
    mapM_eq_of_faults fun which _ => ledger.usageBody_eq which]
  cases hfirst : requests.findSome? ledger.fault? with
  | some f => rfl
  | none =>
    simp only [Option.elim_none, overlayText]
    split
    · rename_i ha
      rw [report_eq, List.findSome?_eq_none_iff.1 hfirst _ ha, Option.elim_none]
    · rw [← List.map_prod_left_eq_zip, Table.entries_ofList_map, List.map_map]
      rfl

end Ledger

/-- Each budget is reported on once, in the order of the first requests. -/
theorem overlayReport_cases {ledger : Ledger} {requests : List String} {report : String}
    (ha : allBudgets ∉ requests) (h : overlayReport ledger requests = .ok report) :
    (∀ budget ∈ requests, ∃ m, ledger.usage.consumerMap? budget = some m ∧
      budgetReport m budget ledger.settings = .ok (ledger.budgetText budget)) ∧
      report = reportHeader ++
        String.join (((distinct requests).map ledger.budgetText).map remarked) := by
  rw [Ledger.overlayReport_eq] at h
  cases hfirst : requests.findSome? ledger.fault? with
  | some f => rw [hfirst] at h; cases h
  | none =>
    rw [hfirst] at h
    cases h
    constructor
    · intro budget hb
      obtain ⟨hanswerable, hw⟩ :=
        Ledger.fault?_eq_none_iff.1 (List.findSome?_eq_none_iff.1 hfirst budget hb)
      rcases hanswerable with rfl | hknown
      · exact absurd hb ha
      · obtain ⟨m, hm⟩ := Option.isSome_iff_exists.1 (Table.mem_keys_iff.1 hknown)
        have hmap : ledger.usage.consumerMap? budget = some m := hm
        have hne : budget ≠ allBudgets := fun he => ha (he ▸ hb)
        have hwritable : ledger.overlong? budget = none := by
          refine if_pos (hw budget ?_)
          rw [reportedOn, if_neg hne]
          exact List.mem_singleton_self budget
        exact ⟨m, hmap, by rw [ledger.budgetReport_eq hmap, hwritable, Option.elim_none]⟩
    · have hlisting : ∀ which ∈ distinct requests,
          remarked (ledger.listing which) = remarked (ledger.budgetText which) := by
        intro which hm
        have hne : which ≠ allBudgets := fun he => ha (he ▸ mem_distinct.1 hm)
        rw [Ledger.listing_of_ne hne]
      rw [Ledger.overlayText, if_neg ha, List.map_congr_left hlisting, List.map_map]
      rfl

/-! ## One report on several budgets -/

/-- The texts one after the other, with one remark if none of them says anything. -/
def merged (texts : List String) : String :=
  String.join texts ++ if ∀ t ∈ texts, t = "" then nothingFound else ""

/-- The report on some budgets, each of them once. -/
def Ledger.mergedReport (ledger : Ledger) (requests : List String) : String :=
  reportHeader ++ merged ((distinct requests).map ledger.budgetText)

/-- Every text that says nothing brings a remark. -/
theorem length_join_remarked (texts : List String) :
    (String.join (texts.map remarked)).length =
      (String.join texts).length + texts.countP (· = "") * nothingFound.length := by
  induction texts with
  | nil => rfl
  | cons t rest ih =>
    rw [List.map_cons, String.join_cons, String.join_cons, String.length_append,
      String.length_append, ih, List.countP_cons, Nat.add_mul]
    by_cases ht : t = ""
    · simp only [remarked, ht, if_true, decide_true, String.length_empty]
      omega
    · simp only [remarked, ht, if_false, decide_false, Bool.false_eq_true]
      omega

/-- Texts that are remarked one by one are the merged text if each of them says
    something or there is only one of them, and in no other case. -/
theorem join_remarked_eq_iff {texts : List String} (hne : texts ≠ []) :
    String.join (texts.map remarked) = merged texts ↔
      (∀ t ∈ texts, t ≠ "") ∨ texts.length = 1 := by
  constructor
  · intro h
    -- both sides have the same texts, so they have the same number of remarks
    have hlength := congrArg String.length h
    rw [length_join_remarked, merged, String.length_append, Nat.add_left_cancel_iff] at hlength
    have hpos : 0 < nothingFound.length := by decide +kernel
    split at hlength
    · rename_i hall
      have hcount : texts.countP (· = "") = texts.length :=
        List.countP_eq_length.2 fun t ht => decide_eq_true (hall t ht)
      rw [hcount] at hlength
      exact .inr (Nat.eq_of_mul_eq_mul_right hpos (hlength.trans (Nat.one_mul _).symm))
    · have hzero : texts.countP (· = "") = 0 :=
        (Nat.mul_eq_zero.1 hlength).resolve_right hpos.ne'
      exact .inl fun t ht he => List.countP_eq_zero.1 hzero t ht (decide_eq_true he)
  · rintro (h | h)
    · have hsame : texts.map remarked = texts :=
        (List.map_congr_left fun t ht => if_neg (h t ht)).trans (List.map_id _)
      obtain ⟨t, rest, rfl⟩ := List.exists_cons_of_ne_nil hne
      have hnot : ¬ ∀ u ∈ t :: rest, u = "" := fun hall =>
        h t (List.mem_cons_self ..) (hall t (List.mem_cons_self ..))
      rw [hsame, merged, if_neg hnot, String.append_empty]
    · obtain ⟨t, rfl⟩ := List.length_eq_one_iff.1 h
      by_cases ht : t = "" <;> simp [merged, remarked, ht]

/-! ## Sheets -/

/-- What the page shows if reports on single budgets are asked for. -/
theorem Sheet.overlay_of_compile {sheet : Sheet}
    {budgets options : Option (List (Scalar × Value))} {c : Compiled}
    (h : (sheet.compile budgets options).result = .ok c) (hne : sheet.requests ≠ [])
    (ha : allBudgets ∉ sheet.requests) :
    ∃ ledger, c.ledger = some ledger ∧
      (∀ budget ∈ sheet.requests, ∃ m, ledger.usage.consumerMap? budget = some m ∧
        budgetReport m budget ledger.settings = .ok (ledger.budgetText budget)) ∧
      c.css = linesText (sheetLines (sheet.output ++ [overlayBlock (reportHeader ++
        String.join (((distinct sheet.requests).map ledger.budgetText).map remarked))])) := by
  obtain ⟨_, p, shown, -, hp, hshown, rfl⟩ := Sheet.reaches_of_compile h
  have hreq : p.requests = sheet.requests := hp.requests
  cases hshown with
  | nothing hn => exact absurd (hreq ▸ hn) hne
  | overlay _ hl hr =>
    rw [hreq] at hr
    obtain ⟨hknown, rfl⟩ := overlayReport_cases ha hr
    exact ⟨_, hl, hknown, rfl⟩

/-- **Reports under one header.**  Let a sheet compile that asks for reports on single
    budgets.  Each of the budgets is known and has a report, and its text is empty exactly if no
    placeholder has been used under it.  The page shows the header and then, for each of the
    budgets once and in the order of the first requests, its text or a remark that there is
    nothing to list.  This is one report on these budgets, with one remark at the end if
    all texts are empty, exactly if none of the texts is empty or there is only one. -/
theorem Sheet.overlay_merged_iff {sheet : Sheet} {budgets options : Option (List (Scalar × Value))}
    {c : Compiled} (h : (sheet.compile budgets options).result = .ok c)
    (hne : sheet.requests ≠ []) (ha : allBudgets ∉ sheet.requests) :
    ∃ ledger report, c.ledger = some ledger ∧
      c.css = linesText (sheetLines (sheet.output ++ [overlayBlock report])) ∧
      (∀ budget ∈ sheet.requests, ∃ m, ledger.usage.consumerMap? budget = some m ∧
        budgetReport m budget ledger.settings = .ok (ledger.budgetText budget) ∧
        (ledger.budgetText budget = "" ↔ m.isEmpty = true)) ∧
      report = reportHeader ++
        String.join (((distinct sheet.requests).map ledger.budgetText).map remarked) ∧
      (report = ledger.mergedReport sheet.requests ↔
        (∀ budget ∈ sheet.requests, ledger.budgetText budget ≠ "") ∨
          (distinct sheet.requests).length = 1) := by
  obtain ⟨ledger, hl, hknown, hcss⟩ := Sheet.overlay_of_compile h hne ha
  refine ⟨ledger, _, hl, hcss, fun budget hb => ?_, rfl, ?_⟩
  · obtain ⟨m, hm, hreport⟩ := hknown budget hb
    exact ⟨m, hm, hreport, Ledger.budgetText_eq_empty_iff hm⟩
  · have htexts : (distinct sheet.requests).map ledger.budgetText ≠ [] := by
      obtain ⟨budget, hb⟩ := List.exists_mem_of_ne_nil _ hne
      exact List.ne_nil_of_mem (List.mem_map_of_mem (mem_distinct.2 hb))
    rw [Ledger.mergedReport, String.append_right_inj, join_remarked_eq_iff htexts, List.length_map]
    simp only [List.forall_mem_map, mem_distinct]

/-- Two budgets under which a placeholder has been extended, one of them asked for
    twice. -/
def usedSheet : Sheet where
  statements :=
    [.assign "ext-budget" (.map [(.text "total", .scalar (.int 2)),
        (.text "card", .scalar (.int 2))]),
      .rule ["%a"] [.declaration ⟨"color", "red"⟩], .rule [".x"] [.mixin "ext" ["a", "card"]],
      .mixin "ext-debug" ["card"], .mixin "ext-debug" ["total"], .mixin "ext-debug" ["card"]]

/-- The text on a budget with one placeholder that has been extended once. -/
def textOnCard : String := "All good! - 0 of 1 card (2, 1/2 ratio)\n\n"

theorem overlay_usedSheet :
    ∃ c ledger, (usedSheet.compile none none).result = .ok c ∧ c.ledger = some ledger ∧
      usedSheet.requests = ["card", "total", "card"] ∧
      ledger.mergedReport usedSheet.requests =
        reportHeader ++ textOnCard ++ "All good! - 0 of 1 total (2, 1/2 ratio)\n\n" ∧
      c.css = ".x \x7b\n  color: red;\n\x7d\n\nbody::before \x7b\n" ++
        "  content: \"EXTEND BUDGET REPORT\\A \\A " ++
        "All good! - 0 of 1 card (2, 1/2 ratio)\\A \\A " ++
        "All good! - 0 of 1 total (2, 1/2 ratio)\\A \\A \";\n" ++ lookText := by
  have hok : (usedSheet.compile none none).result.toOption.isSome = true := by decide +kernel
  have htexts : (usedSheet.compile none none).result.toOption.map (fun c => c.ledger.map fun l =>
      (l.budgetText "card", l.budgetText "total")) =
        some (some (textOnCard, "All good! - 0 of 1 total (2, 1/2 ratio)\n\n")) := by
    decide +kernel
  cases hc : (usedSheet.compile none none).result with
  | error f => rw [hc] at hok; cases hok
  | ok c =>
    obtain ⟨ledger, report, hl, hcss, -, -, hiff⟩ :=
      Sheet.overlay_merged_iff hc (by decide +kernel) (by decide +kernel)
    rw [hc] at htexts
    simp only [Except.toOption, Option.map_some, hl, Option.some.injEq, Prod.mk.injEq] at htexts
    have hrequests : usedSheet.requests = ["card", "total", "card"] := rfl
    have hsaid : ∀ budget ∈ usedSheet.requests, ledger.budgetText budget ≠ "" := by
      simp only [hrequests, List.mem_cons, List.not_mem_nil, or_false, forall_eq_or_imp, forall_eq,
        htexts]
      decide
    have hdistinct : distinct usedSheet.requests = ["card", "total"] := rfl
    have hmerged : ledger.mergedReport usedSheet.requests =
        reportHeader ++ textOnCard ++ "All good! - 0 of 1 total (2, 1/2 ratio)\n\n" := by
      simp only [Ledger.mergedReport, hdistinct, List.map_cons, List.map_nil, htexts]
      decide +kernel
    rw [hiff.2 (.inl hsaid), hmerged] at hcss
    exact ⟨c, ledger, rfl, hl, hrequests, hmerged, hcss.trans (by decide +kernel)⟩

/-- Two budgets, one of them without a placeholder that has been extended under it. -/
def unusedSource : String :=
  "$ext-budget: (total: 2, card: 2, spare: 2);\n%a \x7b color: red; \x7d\n" ++
    ".x \x7b @include ext(a, card); \x7d\n@include ext-debug(card);\n" ++
    "@include ext-debug(spare);"

def unusedSheet : Sheet where
  statements :=
    [.assign "ext-budget" (.map [(.text "total", .scalar (.int 2)),
        (.text "card", .scalar (.int 2)), (.text "spare", .scalar (.int 2))]),
      .rule ["%a"] [.declaration ⟨"color", "red"⟩], .rule [".x"] [.mixin "ext" ["a", "card"]],
      .mixin "ext-debug" ["card"], .mixin "ext-debug" ["spare"]]

/-- The page says that there is nothing to list, below the text that lists something. -/
theorem overlay_unusedSheet :
    Sheet.read unusedSource.toList = .ok unusedSheet ∧
      unusedSheet.requests = ["card", "spare"] ∧
      ∃ c ledger, (unusedSheet.compile none none).result = .ok c ∧ c.ledger = some ledger ∧
        ledger.budgetText "card" = textOnCard ∧ ledger.budgetText "spare" = "" ∧
        c.css = linesText (sheetLines (unusedSheet.output ++
          [overlayBlock (reportHeader ++ (textOnCard ++ nothingFound))])) ∧
        ledger.mergedReport unusedSheet.requests = reportHeader ++ textOnCard ∧
        reportHeader ++ (textOnCard ++ nothingFound) ≠
          ledger.mergedReport unusedSheet.requests := by
  have hread : Sheet.read unusedSource.toList = .ok unusedSheet := by cbv
  have hrequests : unusedSheet.requests = ["card", "spare"] := rfl
  have hdistinct : distinct unusedSheet.requests = ["card", "spare"] := rfl
  have hok : (unusedSheet.compile none none).result.toOption.isSome = true := by decide +kernel
  have htexts : (unusedSheet.compile none none).result.toOption.map (fun c =>
      c.ledger.map fun l => (l.budgetText "card", l.budgetText "spare")) =
        some (some (textOnCard, "")) := by decide +kernel
  refine ⟨hread, hrequests, ?_⟩
  cases hc : (unusedSheet.compile none none).result with
  | error f => rw [hc] at hok; cases hok
  | ok c =>
    obtain ⟨ledger, hl, -, hcss⟩ := Sheet.overlay_of_compile hc (by decide +kernel)
      (by decide +kernel)
    rw [hc] at htexts
    simp only [Except.toOption, Option.map_some, hl, Option.some.injEq, Prod.mk.injEq] at htexts
    obtain ⟨hcard, hspare⟩ := htexts
    have hmerged : ledger.mergedReport unusedSheet.requests = reportHeader ++ textOnCard := by
      simp only [Ledger.mergedReport, hdistinct, List.map_cons, List.map_nil, hcard, hspare]
      decide +kernel
    have hjoin : String.join ([textOnCard, ""].map remarked) = textOnCard ++ nothingFound := by
      decide +kernel
    simp only [hdistinct, List.map_cons, List.map_nil, hcard, hspare] at hcss
    refine ⟨c, ledger, rfl, hl, hcard, hspare, hjoin ▸ hcss, hmerged, ?_⟩
    rw [hmerged, Ne, String.append_right_inj]
    decide +kernel

end StyleBudget
