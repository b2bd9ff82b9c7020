/-
  Reports and findings agree about overruns.

  Overruns are measured twice: by every call, against the list that it stores, and
  by the report, against the lists that are there at the end.  Under a budget other
  than the total one a list only ever grows, so the last finding about it says what
  the report says.

  * `budgetReport_eq_ok_iff` says when there is a report on a budget;
  * `twoLines` stand for a placeholder that is listed; `placeholderLines_eq` says when it is,
    and `consumersLine_eq_overageLine_iff` what its second line tells;
  * `OverrunListed` reads an overrun off the text on a budget, `overrunListed_iff`
    says when it stands there;
  * `overrunsOf` are the findings about a placeholder under a budget;
  * `Ledger.Measured` is the invariant that ties them to the list: `Measured.call`
    is the step, `Measured.run` the run;
  * `Session.report_eq_findings` is the result for all runs.
-/
import Mathlib
import StyleBudget.Proofs.Findings
import StyleBudget.Proofs.History
import StyleBudget.Report

namespace StyleBudget

/-! ## Reports that can be given -/

theorem isWritable_iff {n : Nat} : isWritable n = true ↔ n < 10 ^ maxIntegerDigits := by
  rw [isWritable, decide_eq_true_eq, Nat.length_repr_le_iff (by decide)]

section

variable {m : ConsumerMap} {budget : String} {settings : Settings}

theorem budgetReport_eq_ok_iff {text : String} :
    budgetReport m budget settings = .ok text ↔
      isWritable (settings.bound budget * m.size) = true ∧
        budgetText m budget settings = text := by
  rw [budgetReport]
  split
  · rename_i hw
    rw [Except.ok.injEq, and_iff_right hw]
  · rename_i hw
    exact iff_of_false nofun fun h => hw h.1

theorem budgetReport_eq_error_iff {f : ReportFault} :
    budgetReport m budget settings = .error f ↔
      isWritable (settings.bound budget * m.size) = false ∧ .overlong = f := by
  rw [budgetReport]
  split
  · rename_i hw
    exact iff_of_false nofun fun h => Bool.noConfusion (hw.symm.trans h.1)
  · rename_i hw
    rw [Except.error.injEq, and_iff_right (Bool.eq_false_iff.2 hw)]

end

/-! ## Lines of a placeholder -/

/-- The line that tells of an overrun. -/
def overageLine (excess : Nat) (consumers : List String) : String :=
  "  !! over by " ++ excess.repr ++ ": " ++ joinSelectors consumers

/-- The line with the consumers of a placeholder. -/
def consumersLine (limit : Nat) (consumers : List String) : String :=
  if limit < consumers.length then overageLine (consumers.length - limit) consumers
  else "    " ++ joinSelectors consumers

/-- The two lines of a placeholder in the full view. -/
def twoLines (limit : Nat) (placeholder : String) (consumers : List String) : List String :=
  [consumers.length.repr ++ "/" ++ limit.repr ++ " - %" ++ placeholder,
    consumersLine limit consumers]

theorem placeholderLines_eq (options : Options) (limit : Nat) (placeholder : String)
    (consumers : List String) :
    placeholderLines options limit placeholder consumers =
      if limit < consumers.length ∨ options.overOnly = false then
        twoLines limit placeholder consumers
      else [] := by
  simp only [placeholderLines, twoLines, consumersLine]
  by_cases hover : limit < consumers.length
  · simp only [hover, true_or, if_true]
    rfl
  · cases options.overOnly with
    | true => simp only [hover, if_false, if_true, Bool.true_eq_false, or_self]
    | false => simp only [hover, if_false, Bool.false_eq_true, or_true, if_true]

/-- An overrun is told exactly if there is one, and then by how much. -/
theorem consumersLine_eq_overageLine_iff {limit excess : Nat} {consumers : List String} :
    consumersLine limit consumers = overageLine excess consumers ↔
      limit < consumers.length ∧ consumers.length - limit = excess := by
  rw [consumersLine]
  split
  · rename_i hover
    rw [and_iff_right hover, overageLine, overageLine, String.append_left_inj,
      String.append_left_inj, String.append_right_inj, Nat.repr_inj]
  · rename_i hover
    refine iff_of_false ?_ fun h => hover h.1
    intro h
    -- one line is indented, the other one marked
    have hl := congrArg String.toList h
    simp [overageLine] at hl

/-! ## Overruns in a report -/

/-- Lines that follow a first one. -/
def followingLines (lines : List String) : String := String.join (lines.map ("\n" ++ ·))

theorem intercalate_cons (first : String) (lines : List String) :
    "\n".intercalate (first :: lines) = first ++ followingLines lines := by
  induction lines generalizing first with
  | nil => simp [followingLines]
  | cons line rest ih =>
    rw [String.intercalate_cons_cons, ih, followingLines, followingLines, List.map_cons,
      String.join_cons]
    simp only [String.append_assoc]

theorem followingLines_append (lines more : List String) :
    followingLines (lines ++ more) = followingLines lines ++ followingLines more := by
  rw [followingLines, List.map_append, String.join_append]; rfl

/-- The lines of placeholders in the report on a budget. -/
def reportLines (settings : Settings) (budget : String) (entries : List (String × List String)) :
    List String :=
  entries.flatMap fun p => placeholderLines settings.options (settings.bound budget) p.1 p.2

/-- The two lines that tell of an overrun. -/
def overrunLines (limit : Nat) (placeholder : String) (consumers : List String) (excess : Nat) :
    List String :=
  [consumers.length.repr ++ "/" ++ limit.repr ++ " - %" ++ placeholder,
    "  !! over by " ++ excess.repr ++ ": " ++ joinSelectors consumers]

/-- In the text on a budget, between the lines of the placeholders
    before it and after it, the placeholder is told to be over its limit by a
    number. -/
def OverrunListed (settings : Settings) (budget : String) (m : ConsumerMap) (placeholder : String)
    (excess : Nat) : Prop :=
  ∃ before consumers after, m.entries = before ++ (placeholder, consumers) :: after ∧
    budgetText m budget settings =
      "\n".intercalate
        (headline settings.options (settings.bound budget) budget m ::
          (reportLines settings budget before ++
            (overrunLines (settings.bound budget) placeholder consumers excess ++
              reportLines settings budget after))) ++ "\n\n"

/-- The lines of a placeholder tell of an overrun exactly if there is one. -/
theorem followingLines_placeholderLines {options : Options} {limit excess : Nat}
    {placeholder : String} {consumers : List String} :
    followingLines (placeholderLines options limit placeholder consumers) =
        followingLines (overrunLines limit placeholder consumers excess) ↔
      limit < consumers.length ∧ consumers.length - limit = excess := by
  have hcases : followingLines (twoLines limit placeholder consumers) =
      followingLines (overrunLines limit placeholder consumers excess) ↔
        limit < consumers.length ∧ consumers.length - limit = excess := by
    rw [← consumersLine_eq_overageLine_iff]
    simp only [followingLines, twoLines, overrunLines, overageLine, List.map_cons, List.map_nil,
      String.join_cons, String.join_nil, String.append_empty, String.append_assoc,
      String.append_right_inj]
  rw [placeholderLines_eq]
  split
  · exact hcases
  · rename_i hunlisted
    refine iff_of_false (fun h => ?_) fun h => hunlisted (.inl h.1)
    have hl := congrArg String.toList h
    simp [followingLines, overrunLines] at hl

theorem budgetText_of_entries {settings : Settings} {budget : String} {m : ConsumerMap}
    {before after : List (String × List String)} {placeholder : String} {consumers : List String}
    (h : m.entries = before ++ (placeholder, consumers) :: after) :
    budgetText m budget settings =
      "\n".intercalate
        (headline settings.options (settings.bound budget) budget m ::
          (reportLines settings budget before ++
            (placeholderLines settings.options (settings.bound budget) placeholder
                consumers ++
              reportLines settings budget after))) ++ "\n\n" := by
  have hne : m.isEmpty = false := by
    rw [Table.isEmpty, h]
    cases before <;> rfl
  rw [budgetText, hne]
  simp only [Bool.false_eq_true, if_false, h, List.flatMap_append, List.flatMap_cons]
  rfl

/-- A placeholder is listed with an overrun exactly if it has more consumers than the
    limit, and then with their number above it. -/
theorem overrunListed_iff {settings : Settings} {budget : String} {m : ConsumerMap}
    {placeholder : String} {excess : Nat} :
    OverrunListed settings budget m placeholder excess ↔
      settings.bound budget < ((m.get? placeholder).getD []).length ∧
        ((m.get? placeholder).getD []).length - settings.bound budget = excess := by
  constructor
  · rintro ⟨before, consumers, after, hm, htext⟩
    have hget : m.get? placeholder = some consumers :=
      Table.get?_eq_some_iff.2 ⟨before, after, hm⟩
    rw [budgetText_of_entries hm] at htext
    simp only [intercalate_cons, followingLines_append, String.append_assoc,
      String.append_right_inj, String.append_left_inj] at htext
    rw [hget, Option.getD_some]
    exact followingLines_placeholderLines.1 htext
  · rintro ⟨hover, hn⟩
    cases hget : m.get? placeholder with
    | none => rw [hget] at hover; exact absurd hover (Nat.not_lt_zero _)
    | some consumers =>
      rw [hget, Option.getD_some] at hover hn
      obtain ⟨before, after, hm⟩ := Table.get?_eq_some_iff.1 hget
      refine ⟨before, consumers, after, hm, ?_⟩
      rw [budgetText_of_entries hm]
      simp only [intercalate_cons, followingLines_append]
      rw [followingLines_placeholderLines.2 ⟨hover, hn⟩]

/-! ## Overruns among the findings -/

/-- The findings that a placeholder is over a budget, in order. -/
def overrunsOf (findings : List Finding) (placeholder budget : String) : List Finding :=
  findings.filter fun f =>
    f.kind = .overBudget ∧ f.placeholder = some placeholder ∧ f.budget = some budget

theorem overrunsOf_append (findings more : List Finding) (placeholder budget : String) :
    overrunsOf (findings ++ more) placeholder budget =
      overrunsOf findings placeholder budget ++ overrunsOf more placeholder budget :=
  List.filter_append ..

theorem overrunsOf_eq_nil {findings : List Finding} {placeholder budget : String}
    (h : ∀ f ∈ findings, ¬ (f.kind = .overBudget ∧ f.placeholder = some placeholder ∧
      f.budget = some budget)) : overrunsOf findings placeholder budget = [] :=
  List.filter_eq_nil_iff.2 fun f hf => by simpa using h f hf

namespace Ledger

variable {ledger : Ledger} {budget placeholder : String} {limit : Nat}

/-- A recording finds overruns of its own placeholder and budget only. -/
theorem overrunsOf_found_of_ne {placeholder' budget' : String} {consumers : List String}
    (h : ¬ (budget' = budget ∧ placeholder' = placeholder)) (options : Options) :
    overrunsOf ((ledger.found placeholder' budget' consumers).filter options.tells) placeholder
      budget = [] := by
  refine overrunsOf_eq_nil fun f hf hover => ?_
  obtain ⟨hkind, hp, hb⟩ := hover
  rcases List.mem_append.1 (List.mem_filter.1 hf).1 with hm | hm
  · rcases List.mem_append.1 hm with hm | hm
    · cases (kind_of_mem_foundBudget hm).symm.trans hkind
    · cases (kind_of_mem_foundRepeats hm).symm.trans hkind
  · obtain ⟨limit, -, rfl⟩ := List.mem_map.1 hm
    exact h ⟨Option.some.inj hb, Option.some.inj hp⟩

/-- If overruns are told, a recording tells of its own one. -/
theorem overrunsOf_found {consumers : List String} {options : Options}
    (hw : options.warnOver = true) :
    overrunsOf ((ledger.found placeholder budget consumers).filter options.tells) placeholder
      budget = ledger.foundOverrun placeholder budget consumers := by
  have hbudget : overrunsOf (ledger.foundBudget placeholder budget) placeholder budget = [] :=
    overrunsOf_eq_nil fun f hf h => by
      cases (kind_of_mem_foundBudget hf).symm.trans h.1
  have hrepeats : overrunsOf (if options.warnDuplicates then
      ledger.foundRepeats placeholder budget consumers else []) placeholder budget = [] :=
    overrunsOf_eq_nil fun f hf h => by
      split at hf
      · cases (kind_of_mem_foundRepeats hf).symm.trans h.1
      · cases hf
  have hoverrun : overrunsOf (ledger.foundOverrun placeholder budget consumers) placeholder budget =
      ledger.foundOverrun placeholder budget consumers :=
    List.filter_eq_self.2 fun f hf => by
      obtain ⟨limit, -, rfl⟩ := List.mem_map.1 hf
      simp [overrunFinding]
  rw [filter_tells_found, hw, if_pos rfl, overrunsOf_append, overrunsOf_append, hbudget, hrepeats,
    hoverrun]
  rfl

/-! ## The invariant -/

/-- The overruns that have been told for a placeholder under a budget are in order,
    and the last of them is the one that its consumers now make, if they make one. -/
structure Measured (ledger : Ledger) (budget placeholder : String) (limit : Nat)
    (excesses : List Nat) : Prop where
  told : (overrunsOf ledger.findings placeholder budget).map Finding.overage =
    excesses.map fun n : Nat => some (n : Int)
  ordered : excesses.Pairwise (· ≤ ·)
  last : excesses.getLast? =
    if limit < (ledger.usage.consumers budget placeholder).length then
      some ((ledger.usage.consumers budget placeholder).length - limit)
    else none
  nodup : (ledger.usage.consumers budget placeholder).Nodup

/-- In a list that never decreases, the last number is the greatest. -/
theorem le_of_getLast? {numbers : List Nat} (h : numbers.Pairwise (· ≤ ·)) {last : Nat}
    (hl : numbers.getLast? = some last) : ∀ n ∈ numbers, n ≤ last := by
  intro n hn
  obtain ⟨front, rfl⟩ := List.getLast?_eq_some_iff.1 hl
  rcases List.mem_append.1 hn with hn | hn
  · exact (List.pairwise_append.1 h).2.2 n hn last (List.mem_singleton_self last)
  · exact (List.mem_singleton.1 hn).le

theorem consumers_recorded (hb : budget ∈ ledger.usage.budgetNames) (placeholder : String)
    (consumers : List String) (told : List Finding) :
    (ledger.recorded placeholder budget consumers told).usage.consumers budget placeholder =
      distinct (ledger.offered placeholder budget consumers) := by
  rw [recorded, Usage.consumers_eq, Usage.recorded?_storedUsage, if_pos ⟨.inl rfl, hb, rfl⟩,
    Option.getD_some]

theorem exceededLimit?_eq (hl : ledger.settings.limit? budget = some limit) (used : Nat) :
    ledger.exceededLimit? budget used = if limit < used then some limit else none := by
  rw [exceededLimit?, hl, Option.filter_some]
  simp only [decide_eq_true_eq]

theorem foundOverrun_eq (hl : ledger.settings.limit? budget = some limit)
    (consumers : List String) :
    ledger.foundOverrun placeholder budget consumers =
      if limit < (distinct (ledger.offered placeholder budget consumers)).length then
        [overrunFinding .warning placeholder budget limit
          (distinct (ledger.offered placeholder budget consumers)).length consumers]
      else [] := by
  simp only [foundOverrun, exceededLimit?_eq hl]
  split <;> rfl

/-- No overrun that has been told is greater than the one that is there now. -/
theorem Measured.le_excess {excesses : List Nat}
    (h : ledger.Measured budget placeholder limit excesses) {n : Nat} (hn : n ∈ excesses) :
    n ≤ (ledger.usage.consumers budget placeholder).length - limit := by
  have hlast := List.getLast?_eq_some_getLast (List.ne_nil_of_mem hn)
  have hle := le_of_getLast? h.ordered hlast n hn
  rw [h.last] at hlast
  split at hlast
  · rw [Option.some.inj hlast]
    exact hle
  · cases hlast

/-- A recording under the budget measures its consumers anew, and there are no fewer
    of them than before. -/
theorem Measured.record {excesses : List Nat}
    (h : ledger.Measured budget placeholder limit excesses)
    (hl : ledger.settings.limit? budget = some limit)
    (hw : ledger.settings.options.warnOver = true) (hb : budget ∈ ledger.usage.budgetNames)
    (consumers : List String) :
    ∃ more, (ledger.recorded placeholder budget consumers
      ((ledger.found placeholder budget consumers).filter ledger.settings.options.tells)).Measured
        budget placeholder limit (excesses ++ more) := by
  have hstored := consumers_recorded hb placeholder consumers
    ((ledger.found placeholder budget consumers).filter ledger.settings.options.tells)
  have hgrows : (ledger.usage.consumers budget placeholder).length ≤
      (distinct (ledger.offered placeholder budget consumers)).length := by
    rw [offered, distinct_append h.nodup, List.length_append]
    exact Nat.le_add_right ..
  have hfound : overrunsOf (ledger.recorded placeholder budget consumers
      ((ledger.found placeholder budget consumers).filter
        ledger.settings.options.tells)).findings placeholder budget =
      overrunsOf ledger.findings placeholder budget ++
        ledger.foundOverrun placeholder budget consumers := by
    rw [recorded, overrunsOf_append, overrunsOf_found hw]
  rw [foundOverrun_eq hl] at hfound
  by_cases hlt : limit < (distinct (ledger.offered placeholder budget consumers)).length
  · rw [if_pos hlt] at hfound
    refine ⟨[(distinct (ledger.offered placeholder budget consumers)).length - limit], ?_, ?_, ?_,
      ?_⟩
    · rw [hfound, List.map_append, List.map_append, h.told]
      rfl
    · refine List.pairwise_append.2 ⟨h.ordered, List.pairwise_singleton .., fun n hn k hk => ?_⟩
      obtain rfl := List.mem_singleton.1 hk
      exact (h.le_excess hn).trans (Nat.sub_le_sub_right hgrows limit)
    · rw [hstored, if_pos hlt, List.getLast?_append]
      rfl
    · rw [hstored]
      exact nodup_distinct _
  · rw [if_neg hlt, List.append_nil] at hfound
    refine ⟨[], ?_, ?_, ?_, ?_⟩
    · rw [hfound, List.append_nil, h.told]
    · rw [List.append_nil]
      exact h.ordered
    · rw [hstored, if_neg hlt, List.append_nil, h.last, if_neg (by omega)]
    · rw [hstored]
      exact nodup_distinct _

/-- A recording for another placeholder or under another budget leaves all of it
    alone, unless what it stores is copied there. -/
theorem Measured.record_of_ne {excesses : List Nat}
    (h : ledger.Measured budget placeholder limit excesses) (ht : budget ≠ totalBudget)
    {placeholder' budget' : String} (hne : ¬ (budget' = budget ∧ placeholder' = placeholder))
    (consumers : List String) :
    (ledger.recorded placeholder' budget' consumers
      ((ledger.found placeholder' budget' consumers).filter
        ledger.settings.options.tells)).Measured budget placeholder limit excesses := by
  have hsame : (ledger.recorded placeholder' budget' consumers
      ((ledger.found placeholder' budget' consumers).filter
        ledger.settings.options.tells)).usage.consumers budget placeholder =
      ledger.usage.consumers budget placeholder := by
    rw [recorded, Usage.consumers_eq, Usage.recorded?_storedUsage, if_neg, Usage.consumers_eq]
    rintro ⟨rfl | rfl, -, rfl⟩
    · exact hne ⟨rfl, rfl⟩
    · exact ht rfl
  refine ⟨?_, h.ordered, ?_, ?_⟩
  · rw [recorded, overrunsOf_append, overrunsOf_found_of_ne hne, List.append_nil, h.told]
  · rw [hsame, h.last]
  · rw [hsame]
    exact h.nodup

end Ledger

/-! ## Runs -/

namespace Session

variable {s : Session} {budget placeholder : String} {limit : Nat} {excesses : List Nat}

/-- What a run needs for its overruns to be told. -/
structure Measures (s : Session) (budget placeholder : String) (limit : Nat)
    (excesses : List Nat) : Prop where
  strict : s.ledger.settings.options.strict = false
  warnOver : s.ledger.settings.options.warnOver = true
  limited : s.ledger.settings.limit? budget = some limit
  known : budget ∈ s.ledger.usage.budgetNames
  measured : s.ledger.Measured budget placeholder limit excesses

theorem Measures.call (h : s.Measures budget placeholder limit excesses) (ht : budget ≠ totalBudget)
    (c : Call) : ∃ more, (s.call c).2.Measures budget placeholder limit (excesses ++ more) := by
  obtain ⟨ledger, inh⟩ := s
  rcases call_uniform inh c with ⟨f, -, hc⟩ | ⟨inh', hc⟩
  · rw [hc]
    exact ⟨[], by rw [List.append_nil]; exact h⟩
  · rw [hc, Ledger.record_of_lax h.strict]
    have hknown : budget ∈ (ledger.recorded c.placeholder c.budget c.named
        ((ledger.found c.placeholder c.budget c.named).filter
          ledger.settings.options.tells)).usage.budgetNames := by
      rw [Ledger.recorded, Usage.budgetNames_storedUsage]
      exact h.known
    by_cases hown : c.budget = budget ∧ c.placeholder = placeholder
    · obtain ⟨rfl, rfl⟩ := hown
      obtain ⟨more, hm⟩ := h.measured.record h.limited h.warnOver h.known c.named
      exact ⟨more, h.strict, h.warnOver, h.limited, hknown, hm⟩
    · refine ⟨[], h.strict, h.warnOver, h.limited, hknown, ?_⟩
      rw [List.append_nil]
      exact h.measured.record_of_ne ht hown c.named

theorem Measures.run (h : s.Measures budget placeholder limit excesses) (ht : budget ≠ totalBudget)
    (calls : List Call) :
    ∃ more, (s.run calls).Measures budget placeholder limit (excesses ++ more) := by
  induction calls generalizing s excesses with
  | nil => exact ⟨[], by rw [List.append_nil]; exact h⟩
  | cons c rest ih =>
    obtain ⟨more, hm⟩ := h.call ht c
    obtain ⟨more', hm'⟩ := ih hm
    exact ⟨more ++ more', by rw [← List.append_assoc]; exact hm'⟩

theorem Measures.start {settings : Settings} (hs : settings.options.strict = false)
    (hw : settings.options.warnOver = true) (hl : settings.limit? budget = some limit)
    (inh : Option Inheritance) (placeholder : String) :
    (Session.start settings inh).Measures budget placeholder limit [] := by
  have hc := consumers_start settings inh budget placeholder
  refine ⟨hs, hw, hl, ?_, rfl, List.Pairwise.nil, ?_, ?_⟩
  · have hk : budget ∈ settings.budgets.keys := Table.mem_keys_iff.2 (by
      rw [Settings.limit?] at hl
      rw [hl]
      rfl)
    exact (Usage.setUp_start settings.budgets.nodup).1 ▸ hk
  · rw [hc]
    rfl
  · rw [hc]
    exact List.nodup_nil

end Session

/-- **Report and findings agree.**  Let a run go on after overruns and tell them, and
    take any calls, made on whether or not those before them failed.  Under a budget
    other than the total one, the report lists a placeholder with an overrun exactly
    if there is a finding about it; the number in the report is that of the last such
    finding and the number of consumers above the limit, and it is at least one; and
    the numbers of the findings never decrease.  With such a finding the report is given,
    unless the number of consumers times that of placeholders has too many digits. -/
theorem Session.report_eq_findings {settings : Settings} {budget : String}
    (hs : settings.options.strict = false) (hw : settings.options.warnOver = true)
    (hb : budget ∈ settings.budgets.keys) (ht : budget ≠ totalBudget) (inh : Option Inheritance)
    (calls : List Call) (placeholder : String) :
    ∃ (m : ConsumerMap) (limit : Nat) (excesses : List Nat),
      ((start settings inh).run calls).ledger.usage.consumerMap? budget = some m ∧
      settings.limit? budget = some limit ∧
      (overrunsOf ((start settings inh).run calls).ledger.findings placeholder budget).map
        Finding.overage = excesses.map (fun n : Nat => some (n : Int)) ∧
      excesses.Pairwise (· ≤ ·) ∧
      ((∃ n, OverrunListed settings budget m placeholder n) ↔
        overrunsOf ((start settings inh).run calls).ledger.findings placeholder budget ≠ []) ∧
      (∀ n, OverrunListed settings budget m placeholder n →
        (overrunsOf ((start settings inh).run calls).ledger.findings placeholder
          budget).getLast?.map Finding.overage = some (some (n : Int)) ∧
        (((start settings inh).run calls).ledger.usage.consumers budget placeholder).length =
          limit + n ∧
        1 ≤ n) ∧
      (∀ text, budgetReport m budget settings = .ok text → text = budgetText m budget settings) ∧
      (overrunsOf ((start settings inh).run calls).ledger.findings placeholder budget ≠ [] →
        budgetReport m budget settings = .ok (budgetText m budget settings) ∨
        10 ^ maxIntegerDigits ≤
          (((start settings inh).run calls).ledger.usage.consumers budget placeholder).length *
            m.size) := by
  obtain ⟨limit, hl⟩ := Option.isSome_iff_exists.1 (Table.mem_keys_iff.1 hb)
  have hlimit : settings.limit? budget = some limit := hl
  have hbound : settings.bound budget = limit := by rw [Settings.bound, hlimit, Option.getD_some]
  obtain ⟨excesses, h⟩ := (Measures.start hs hw hlimit inh placeholder).run ht calls
  rw [List.nil_append] at h
  obtain ⟨m, hm⟩ := Option.isSome_iff_exists.1 (Table.mem_keys_iff.1 h.known)
  have hmap : ((start settings inh).run calls).ledger.usage.consumerMap? budget = some m := hm
  have hconsumers : ((start settings inh).run calls).ledger.usage.consumers budget placeholder =
      (m.get? placeholder).getD [] := by
    rw [Usage.consumers, hmap, Option.bind_some]
  have hlast := h.measured.last
  have htold := h.measured.told
  rw [hconsumers] at hlast ⊢
  -- what the report shows is the last of the numbers
  have hshown : ∀ n, OverrunListed settings budget m placeholder n ↔
      excesses.getLast? = some n := by
    intro n
    rw [overrunListed_iff, hbound, hlast]
    split
    · rename_i hlt
      simp [hlt]
    · rename_i hlt
      simp [hlt]
  have hfound :
      overrunsOf ((start settings inh).run calls).ledger.findings placeholder budget ≠ [] ↔
        ∃ n, excesses.getLast? = some n := by
    rw [← Option.isSome_iff_exists, List.getLast?_isSome, Ne, Ne, ← List.map_eq_nil_iff, htold,
      List.map_eq_nil_iff]
  refine ⟨m, limit, excesses, hmap, hlimit, htold, h.measured.ordered, ?_, fun n hn => ?_,
    fun text htext => (budgetReport_eq_ok_iff.1 htext).2.symm, fun hover => ?_⟩
  · rw [hfound]
    exact exists_congr hshown
  · have hn' := (hshown n).1 hn
    refine ⟨?_, ?_⟩
    · rw [← List.getLast?_map, htold, List.getLast?_map, hn']
      rfl
    · rw [hlast] at hn'
      split at hn'
      · have := Option.some.inj hn'
        omega
      · cases hn'
  · obtain ⟨n, hn⟩ := hfound.1 hover
    rw [hlast] at hn
    split at hn
    · rename_i hlt
      rw [budgetReport_eq_ok_iff, and_iff_left rfl, isWritable_iff, hbound, ← Nat.not_le,
        ← imp_iff_not_or]
      exact fun hlong => hlong.trans (Nat.mul_le_mul_right _ hlt.le)
    · cases hn

/-- Limits for the total budget and for one other. -/
def cardLimits : Settings := ⟨.ofList [("total", 9), ("card", 1)], {}⟩

/-- Three calls under the other budget, the second of which fails, and one that is
    counted for the total budget alone. -/
def cardCalls : List Call :=
  [⟨"p", "card", "", [".x", ".y"]⟩, ⟨"p", "card", "", []⟩, ⟨"p", "total", "", [".z"]⟩,
    ⟨"p", "card", "", [".v", ".w"]⟩]

theorem report_eq_findings_cardCalls :
    cardLimits.options.strict = false ∧ cardLimits.options.warnOver = true ∧
      "card" ∈ cardLimits.budgets.keys ∧ "card" ≠ totalBudget ∧
      ∃ m, ((Session.start cardLimits none).run cardCalls).ledger.usage.consumerMap? "card" =
          some m ∧
        (overrunsOf ((Session.start cardLimits none).run cardCalls).ledger.findings "p" "card").map
          Finding.overage = [some 1, some 3] ∧
        OverrunListed cardLimits "card" m "p" 3 ∧
        budgetReport m "card" cardLimits =
          .ok ("⚠ Check your extends - 1 of 1 card (1, 4/1 ratio)\n4/1 - %p\n" ++
            "  !! over by 3: .x, .y, .v, .w\n\n") := by
  have hb : "card" ∈ cardLimits.budgets.keys := by decide +kernel
  have ht : "card" ≠ totalBudget := by decide +kernel
  have hf : (overrunsOf ((Session.start cardLimits none).run cardCalls).ledger.findings "p"
      "card").map Finding.overage = [some 1, some 3] := by cbv
  have hmap : ((Session.start cardLimits none).run cardCalls).ledger.usage.consumerMap? "card" =
      some (.ofList [("p", [".x", ".y", ".v", ".w"])]) := by cbv
  have hused : (((Session.start cardLimits none).run cardCalls).ledger.usage.consumers "card"
      "p").length = 4 := by cbv
  obtain ⟨m, limit, excesses, hm, -, -, -, hiff, hlast, -, hgiven⟩ :=
    Session.report_eq_findings rfl rfl hb ht none cardCalls "p"
  obtain rfl := Option.some.inj (hmap.symm.trans hm)
  have hfound : overrunsOf ((Session.start cardLimits none).run cardCalls).ledger.findings "p"
      "card" ≠ [] := fun hnil => by rw [hnil] at hf; cases hf
  have hreport := (hgiven hfound).resolve_right (by rw [hused]; decide +kernel)
  obtain ⟨n, hn⟩ := hiff.2 hfound
  have hn' := (hlast n hn).1
  rw [← List.getLast?_map, hf] at hn'
  obtain rfl : n = 3 := by
    have := Option.some.inj (Option.some.inj hn')
    omega
  exact ⟨rfl, rfl, hb, ht, _, hm, hf, hn, hreport.trans (congrArg _ (by decide +kernel))⟩

end StyleBudget
