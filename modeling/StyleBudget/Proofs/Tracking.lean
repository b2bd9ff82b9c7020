/-
  When anything is counted.

  Whether a sheet counts is decided before its first statement is taken, by a walk over all of
  its statements.  What is taken later are the same statements, so a ledger is there whenever
  one is needed; and if none is needed, the settings are not looked at.

  * `StandsIn`: a statement stands in a block, at any depth; `Sheet.tracks_iff_called` says
    that the walk finds the calls wherever they stand;
  * `Progress.Equipped` is the invariant that a ledger is there if there is a use for it:
    `Equipped.take` is the step, `Equipped.takeAll` the run, `Equipped.overlay` the end;
  * `Sheet.ledger_iff_called` is the result about sheets.
-/
import StyleBudget.Proofs.Asides

namespace StyleBudget

/-! ## Statements at any depth -/

/-- A statement stands in a block, at any depth. -/
inductive StandsIn (s : Statement) : List Statement → Prop
  | here {l : List Statement} (hs : s ∈ l) : StandsIn s l
  | inside {selectors : List String} {children l : List Statement}
    (hr : .rule selectors children ∈ l) (h : StandsIn s children) : StandsIn s l

/-- One of the mixins that count is called somewhere in the sheet. -/
def Sheet.Called (sheet : Sheet) : Prop :=
  ∃ args, StandsIn (.mixin extMixin args) sheet.statements ∨
    StandsIn (.mixin reportMixin args) sheet.statements

theorem StandsIn.mem_walkAll {s : Statement} {l : List Statement} (h : StandsIn s l) :
    s ∈ walkAll l := by
  induction h with
  | here hs => exact StyleBudget.mem_walkAll.2 ⟨s, hs, s.mem_walk_self⟩
  | inside hr _ ih => exact StyleBudget.mem_walkAll.2 ⟨_, hr, List.mem_cons_of_mem _ ih⟩

theorem StandsIn.of_subset {s : Statement} {l l' : List Statement} (h : StandsIn s l) (hl : l ⊆ l') :
    StandsIn s l' := by
  cases h with
  | here hs => exact .here (hl hs)
  | inside hr h => exact .inside (hl hr) h

theorem standsIn_of_mem_walkAll {s : Statement} :
    ∀ l : List Statement, s ∈ walkAll l → StandsIn s l
  | [], h => by cases h
  | t :: rest, h => by
    rw [walkAll] at h
    rcases List.mem_append.1 h with h | h
    · cases t with
      | rule selectors children =>
        rcases List.mem_cons.1 h with rfl | h
        · exact .here (List.mem_cons_self ..)
        · exact .inside (List.mem_cons_self ..) (standsIn_of_mem_walkAll children h)
      | _ =>
        rw [List.mem_singleton.1 h]
        exact .here (List.mem_cons_self ..)
    · exact (standsIn_of_mem_walkAll rest h).of_subset (List.subset_cons_self ..)

theorem standsIn_iff {s : Statement} {l : List Statement} : StandsIn s l ↔ s ∈ walkAll l :=
  ⟨StandsIn.mem_walkAll, standsIn_of_mem_walkAll l⟩

/-- The walk over a sheet finds the calls at every depth. -/
theorem Sheet.tracks_iff_called {sheet : Sheet} : sheet.tracks = true ↔ sheet.Called := by
  rw [tracks, List.any_eq_true, Called]
  simp only [standsIn_iff, Statement.tracks_iff]
  constructor
  · rintro ⟨s, hs, args, rfl | rfl⟩
    · exact ⟨args, .inl hs⟩
    · exact ⟨args, .inr hs⟩
  · rintro ⟨args, hs | hs⟩
    · exact ⟨_, hs, args, .inl rfl⟩
    · exact ⟨_, hs, args, .inr rfl⟩

/-! ## Variables -/

/-- The statement sets a variable. -/
def Statement.assigns : Statement → Bool
  | .assign _ _ => true
  | _ => false

theorem Statement.isAside_of_assigns (s : Statement) (hs : s.assigns = true) :
    s.isAside = true := by
  cases s with
  | assign _ _ => rfl
  | _ => cases hs

theorem Statement.isLoose_of_assigns (s : Statement) (hs : s.assigns = true) :
    s.isLoose = true :=
  s.isLoose_of_isAside (s.isAside_of_assigns hs)

theorem Statement.argumentsOf?_of_assigns (s : Statement) (hs : s.assigns = true) (name : String) :
    s.argumentsOf? name = none := by
  cases s with
  | assign _ _ => rfl
  | _ => cases hs

/-! ## A ledger for those who need it -/

namespace Progress

/-- A ledger is there, or else no report has been asked for and nothing ahead counts or asks
    for one. -/
def Equipped (p : Progress) (ahead : List Place) : Prop :=
  p.ledger = none → p.requests = [] ∧ ∀ place ∈ ahead, place.statement.tracks = false

variable {p : Progress} {ahead rest : List Place} {place : Place}

/-- With a ledger, a counted extension finds it and leaves one. -/
theorem extCall_of_some {ledger : Ledger} (h : p.ledger = some ledger) (c : Call) :
    (p.extCall c).1 ≠ .error .uncounted ∧ (p.extCall c).2.ledger ≠ none := by
  rw [extCall_of_ledger h]
  refine ⟨?_, Option.some_ne_none _⟩
  cases (Session.call ⟨ledger, some p.inheritance⟩ c).1 with
  | error f => simp [Except.mapError, Except.map]
  | ok listed => simp [Except.mapError, Except.map]

theorem callExt_of_some {ledger : Ledger} (h : p.ledger = some ledger) (args parents : List String) :
    (p.callExt args parents).1 ≠ .error .uncounted ∧ (p.callExt args parents).2.ledger ≠ none := by
  have hfails : ∀ f : CompileFault, f ≠ .uncounted →
      (Except.error f : Except CompileFault Unit) ≠ .error .uncounted ∧ p.ledger ≠ none :=
    fun f hf => ⟨fun he => hf (Except.error.inj he), by rw [h]; exact Option.some_ne_none _⟩
  rw [callExt]
  split
  · exact hfails _ (by simp)
  · exact extCall_of_some h ⟨_, _, _, _⟩
  · exact extCall_of_some h ⟨_, _, _, _⟩
  · exact extCall_of_some h ⟨_, _, _, _⟩
  · exact extCall_of_some h ⟨_, _, _, _⟩
  · exact hfails _ (by simp)

namespace Equipped

/-- **One statement** finds a ledger if it needs one. -/
theorem take (h : p.Equipped (place :: rest)) :
    (p.take place).1 ≠ .error .uncounted ∧ (p.take place).2.Equipped rest := by
  -- what holds as long as ledger and requests stay
  have hstays : ∀ q : Progress, q.ledger = p.ledger → q.requests = p.requests →
      q.Equipped rest := by
    intro q hl hr hn
    obtain ⟨hnil, hahead⟩ := h (hl ▸ hn)
    exact ⟨hr.trans hnil, fun place' hm => hahead place' (List.mem_cons_of_mem _ hm)⟩
  obtain ⟨parents, s⟩ := place
  cases s with
  | declaration d => exact ⟨by simp [Progress.take], hstays p rfl rfl⟩
  | assign name value => exact ⟨by simp [Progress.take], hstays p rfl rfl⟩
  | rule selectors children => exact ⟨by simp [Progress.take], hstays _ rfl rfl⟩
  | extend placeholder flag =>
    simp only [Progress.take, extend]
    split
    · exact ⟨by simp, hstays p rfl rfl⟩
    · split
      · exact ⟨by simp, hstays p rfl rfl⟩
      · exact ⟨by simp, hstays _ rfl rfl⟩
  | mixin name args =>
    simp only [Progress.take, call]
    -- a call that counts stands ahead, so there is a ledger
    have hledger : name = extMixin ∨ name = reportMixin → ∃ ledger, p.ledger = some ledger := by
      intro hname
      refine Option.ne_none_iff_exists'.1 fun hn => ?_
      have ht := (h hn).2 _ (List.mem_cons_self ..)
      rcases hname with rfl | rfl <;> cases ht
    split
    · rename_i he
      obtain ⟨ledger, hl⟩ := hledger (.inl he)
      obtain ⟨hfault, hleft⟩ := callExt_of_some hl args parents
      exact ⟨hfault, fun hn => absurd hn hleft⟩
    · split
      · rename_i hr
        obtain ⟨ledger, hl⟩ := hledger (.inr hr)
        exact ⟨by simp, fun hn => by cases hl.symm.trans hn⟩
      · exact ⟨by simp, hstays p rfl rfl⟩

/-- **Statements one after the other.** -/
theorem takeAll {places : List Place} (h : p.Equipped places) :
    (p.takeAll places).1 ≠ .error .uncounted ∧
      ((p.takeAll places).1 = .ok () → (p.takeAll places).2.Equipped []) := by
  induction places generalizing p with
  | nil => exact ⟨by simp [Progress.takeAll], fun _ => h⟩
  | cons place rest ih =>
    obtain ⟨hfault, hrest⟩ := h.take
    rw [Progress.takeAll]
    rcases htake : p.take place with ⟨f | u, q⟩
    · rw [htake] at hfault
      exact ⟨hfault, by simp⟩
    · rw [htake] at hrest
      exact ih hrest

/-- At the end there is a ledger for the reports that have been asked for. -/
theorem overlay (h : p.Equipped []) : p.overlay ≠ .error .uncounted := by
  rw [Progress.overlay]
  split
  · simp
  · rename_i hr hl
    have hnil := (h hl).1
    rw [hr] at hnil
    cases hnil
  · split <;> simp

end Equipped

end Progress

/-! ## Sheets -/

namespace Sheet

variable {sheet : Sheet} {budgets options : Option (List (Scalar × Value))} {c : Compiled}

theorem ledger_of_not_called (h : ¬ sheet.Called) : sheet.ledger budgets options = .ok none :=
  if_neg fun ht => h (tracks_iff_called.1 ht)

theorem equipped_begin {ledger : Option Ledger} (h : sheet.ledger budgets options = .ok ledger) :
    (sheet.begin ledger).Equipped sheet.places := by
  rintro (rfl : ledger = none)
  refine ⟨rfl, fun place hp => ?_⟩
  cases ht : sheet.tracks with
  | false =>
    rw [tracks, List.any_eq_false] at ht
    exact Bool.eq_false_iff.2 (ht _ (statement_mem_walk hp))
  | true =>
    obtain ⟨settings, -, hn⟩ := ledger_of_tracks ht h
    cases hn

/-- No run of a sheet needs a ledger that is not there. -/
theorem result_ne_uncounted (sheet : Sheet) (budgets options : Option (List (Scalar × Value))) :
    (sheet.compile budgets options).result ≠ .error .uncounted := by
  rw [result_compile]
  rcases hl : sheet.ledger budgets options with f | ledger
  · simp
  · obtain ⟨hfault, hend⟩ := (equipped_begin hl).takeAll
    simp only
    rcases hp : (sheet.begin ledger).takeAll sheet.places with ⟨f | u, p⟩
    · rw [hp] at hfault
      exact fun he => hfault (congrArg Except.error (Except.error.inj he))
    · rw [hp] at hend
      have hoverlay := (hend rfl).overlay
      simp only [Progress.result_outcome]
      cases ho : p.overlay with
      | error f => exact fun he => hoverlay (ho.trans (congrArg Except.error (Except.error.inj he)))
      | ok overlay => simp [Except.map]

/-- A ledger is left exactly if there was one at the start. -/
theorem isSome_ledger_of_compile (h : (sheet.compile budgets options).result = .ok c) :
    c.ledger.isSome = sheet.tracks := by
  obtain ⟨ledger, p, overlay, hl, hp, -, rfl⟩ := reaches_of_compile h
  have hsession := congrArg Option.isSome hp.session
  simp only [Progress.session?, Option.isSome_map, begin] at hsession
  rw [hsession]
  cases ht : sheet.tracks with
  | false =>
    rw [Sheet.ledger, ht] at hl
    cases hl
    rfl
  | true =>
    obtain ⟨settings, -, rfl⟩ := ledger_of_tracks ht hl
    rfl

/-- **A ledger is there exactly if it is called for.**  A sheet starts with a ledger for its
    settings if one of the two mixins that count is called in it, at any depth, and a fault of
    the settings is then the result; if none is called it starts without one.  A sheet that
    compiles ends as it has started, and no run needs a ledger that is not there.  If none is
    called, every sheet that is the same without its variables compiles to the same, whatever
    settings it makes itself or is given from outside, or fails with the same fault. -/
theorem ledger_iff_called (sheet : Sheet) (budgets options : Option (List (Scalar × Value))) :
    (sheet.Called → sheet.ledger budgets options =
      (sheet.settings budgets options).map fun settings => some (.start settings)) ∧
    (∀ f, sheet.Called → sheet.settings budgets options = .error f →
      (sheet.compile budgets options).result = .error (.settings f)) ∧
    (¬ sheet.Called → sheet.ledger budgets options = .ok none) ∧
    (∀ c, (sheet.compile budgets options).result = .ok c →
      (c.ledger.isSome = true ↔ sheet.Called)) ∧
    (sheet.compile budgets options).result ≠ .error .uncounted ∧
    (¬ sheet.Called → ∀ (sheet' : Sheet) (budgets' options' : Option (List (Scalar × Value))),
      sheet'.without Statement.assigns = sheet.without Statement.assigns →
      sheet'.compile budgets' options' = sheet.compile budgets options) := by
  have hcalled : sheet.Called → sheet.ledger budgets options =
      (sheet.settings budgets options).map fun settings => some (.start settings) := fun h => by
    rw [ledger, if_pos (tracks_iff_called.2 h)]
  refine ⟨hcalled, fun f h hf => ?_, ledger_of_not_called, fun c hc => ?_,
    result_ne_uncounted sheet budgets options, fun h sheet' budgets' options' hs => ?_⟩
  · rw [result_compile, hcalled h, hf]
    rfl
  · rw [isSome_ledger_of_compile hc, tracks_iff_called]
  · have hleft := sheet.leavesOut_without Statement.assigns
    have hleft' := hs ▸ sheet'.leavesOut_without Statement.assigns
    have hcalls : ∀ name, sheet'.calls name = sheet.calls name := fun name => by
      rw [← calls_of_leavesOut Statement.isLoose_of_assigns
          (fun s hs => s.argumentsOf?_of_assigns hs name) hleft,
        ← calls_of_leavesOut Statement.isLoose_of_assigns
          (fun s hs => s.argumentsOf?_of_assigns hs name) hleft']
    have h' : ¬ sheet'.Called := by
      rw [← tracks_iff_called, tracks_congr (hcalls _) (hcalls _), tracks_iff_called]
      exact h
    refine compile_congr (hleft.mono Statement.isAside_of_assigns)
      (hleft'.mono Statement.isAside_of_assigns) ?_ ?_
    · rw [requests_eq_calls, requests_eq_calls, hcalls]
    · rw [ledger_of_not_called h, ledger_of_not_called h']

end Sheet

/-- A sheet that extends without counting, and sets a table of budgets that is none. -/
def unreadSheet : Sheet where
  statements :=
    [.assign "ext-budget" (.scalar (.text "many")), .rule ["%a"] [.declaration ⟨"color", "red"⟩],
      .rule [".x"] [.extend "a" ""]]

/-- The same sheet without the table. -/
def unsetSheet : Sheet where
  statements :=
    [.rule ["%a"] [.declaration ⟨"color", "red"⟩], .rule [".x"] [.extend "a" ""]]

/-- The same sheet with a counted extension in a nested rule. -/
def misconfiguredSheet : Sheet where
  statements :=
    [.assign "ext-budget" (.scalar (.text "many")), .rule ["%a"] [.declaration ⟨"color", "red"⟩],
      .rule [".x"] [.rule [".y"] [.mixin "ext" ["a"]]]]

theorem compile_unreadSheet :
    ¬ unreadSheet.Called ∧
      unsetSheet.compile (some []) none = unreadSheet.compile none none ∧
      (unreadSheet.compile none none).result.toOption.map Compiled.css =
        some ".x \x7b\n  color: red;\n\x7d\n" ∧
      misconfiguredSheet.Called ∧
      (misconfiguredSheet.compile none none).result =
        .error (.settings (.budgetsNotMap (.scalar (.text "many")))) := by
  have hnot : ¬ unreadSheet.Called := fun h => by cases Sheet.tracks_iff_called.2 h
  have hcalled : misconfiguredSheet.Called := Sheet.tracks_iff_called.1 rfl
  obtain ⟨-, -, -, -, -, hsame⟩ := unreadSheet.ledger_iff_called none none
  obtain ⟨-, hfault, -⟩ := misconfiguredSheet.ledger_iff_called none none
  exact ⟨hnot, hsame hnot unsetSheet (some []) none rfl, by cbv, hcalled, hfault _ hcalled rfl⟩

end StyleBudget
