/-
  Placeholders that no rule has.

  The placeholders of a sheet are collected before its statements are taken, by a walk of its
  own.  So it does not matter for an extension whether a rule with its placeholder comes before
  or after it, and an extension fails for want of such a rule exactly if the sheet has none.

  * `HasToken`: a text has a placeholder as a whole token; `mem_placeholdersOf_iff` says that
    these are the placeholders which are found from left to right;
  * `Sheet.Declares`: some rule has the placeholder in its resolved selectors;
    `Sheet.mem_placeholders_iff` compares the two walks;
  * `Progress.make_of_take_error` and `Progress.allowed_of_take` are one statement, that fails or
    succeeds; `Progress.takeAll_error_cases` and `Progress.allowed_of_takeAll` are the run;
  * `Sheet.undeclared_iff` is the result about sheets.
-/
import Mathlib
import StyleBudget.Proofs.Consumers
import StyleBudget.Proofs.Nesting
import StyleBudget.Proofs.Omission

namespace StyleBudget

/-! ## Tokens -/

/-- A placeholder stands in the text as a whole token: a percent sign, a name, and nothing with
    which the name goes on. -/
def HasToken (text name : String) : Prop :=
  ∃ before after, text.toList = before ++ '%' :: (name.toList ++ after) ∧
    isWord isNameStart name.toList = true ∧ Bounded after

theorem startsName_of_isWord {name : List Char} (h : isWord isNameStart name = true)
    (after : List Char) : startsName (name ++ after) = true := by
  obtain ⟨c, cs, rfl, hc, -⟩ := isWord_cases h
  exact hc

theorem mem_placeholdersOf_of_token {before after : List Char} {name : String}
    (hname : isWord isNameStart name.toList = true) (hafter : Bounded after) :
    name ∈ placeholdersOf (before ++ '%' :: (name.toList ++ after)) := by
  refine mem_placeholdersOf_append ?_ before
  have hscan := scan_append (isNameChar_of_isWord (fun _ => isNameChar_of_isNameStart) hname) hafter
  have hfirst := firstPlaceholder?_of_opens (c := '%') ⟨rfl, startsName_of_isWord hname after⟩
  rw [hscan.1, hscan.2] at hfirst
  rw [placeholdersOf_of_some hfirst, String.ofList_toList]
  exact List.mem_cons_self ..

theorem token_of_firstPlaceholder? {cs : List Char} {o : Occurrence}
    (h : firstPlaceholder? cs = some o) : isWord isNameStart o.name = true := by
  have hall := isNameChar_of_mem_name h
  have hstart := startsName_name h
  rw [startsName_append (bounded_after h)] at hstart
  cases hn : o.name with
  | nil => rw [hn] at hstart; cases hstart
  | cons c cs =>
    rw [hn] at hstart hall
    simp only [isWord, Bool.and_eq_true, List.all_eq_true]
    exact ⟨hstart, fun d hd => hall d (List.mem_cons_of_mem c hd)⟩

theorem token_of_mem_placeholdersOf {cs : List Char} {name : String}
    (h : name ∈ placeholdersOf cs) :
    ∃ before after, cs = before ++ '%' :: (name.toList ++ after) ∧
      isWord isNameStart name.toList = true ∧ Bounded after := by
  cases ho : firstPlaceholder? cs with
  | none => rw [placeholdersOf_of_none ho] at h; cases h
  | some o =>
    have := after_length_lt ho
    have hcs := eq_of_firstPlaceholder? ho
    rw [placeholdersOf_of_some ho] at h
    rcases List.mem_cons.1 h with rfl | h
    · rw [String.toList_ofList]
      exact ⟨o.before, o.after, hcs, token_of_firstPlaceholder? ho, bounded_after ho⟩
    · obtain ⟨before, after, hafter, htoken⟩ := token_of_mem_placeholdersOf h
      refine ⟨o.before ++ '%' :: (o.name ++ before), after, ?_, htoken⟩
      rw [hcs, hafter]
      simp
termination_by cs.length

/-- The scan from left to right finds exactly the whole tokens. -/
theorem mem_placeholdersOf_iff {text name : String} :
    name ∈ placeholdersOf text.toList ↔ HasToken text name := by
  constructor
  · exact token_of_mem_placeholdersOf
  · rintro ⟨before, after, htext, hname, hafter⟩
    rw [htext]
    exact mem_placeholdersOf_of_token hname hafter

/-! ## Declarations -/

/-- Some rule of the sheet, at any depth, has the placeholder as a token in the selectors that
    its nesting resolves to. -/
def Sheet.Declares (sheet : Sheet) (name : String) : Prop :=
  ∃ place ∈ sheet.places, ∃ selectors children, place.statement = .rule selectors children ∧
    ∃ s ∈ nestSelectors place.parents selectors, HasToken s name

theorem Place.mem_placeholders_iff {place : Place} {name : String} :
    name ∈ place.placeholders ↔ ∃ selectors children, place.statement = .rule selectors children ∧
      ∃ s ∈ nestSelectors place.parents selectors, HasToken s name := by
  obtain ⟨parents, s⟩ := place
  cases s with
  | rule selectors children =>
    simp only [placeholders, List.mem_flatMap, mem_placeholdersOf_iff]
    constructor
    · exact fun h => ⟨selectors, children, rfl, h⟩
    · rintro ⟨_, _, ⟨⟩, h⟩
      exact h
  | _ => exact iff_of_false nofun nofun

/-- The placeholders that are collected at the start are those of the rules. -/
theorem Sheet.mem_placeholders_iff {sheet : Sheet} {name : String} :
    name ∈ sheet.placeholders ↔ sheet.Declares name := by
  rw [placeholders, mem_distinct, ← flatMap_placeholders_placesAll, List.mem_flatMap]
  simp only [Place.mem_placeholders_iff]
  rfl

theorem Sheet.mem_declared_begin {sheet : Sheet} {ledger : Option Ledger} {name : String} :
    name ∈ (sheet.begin ledger).inheritance.declared ↔ sheet.Declares name := by
  have hdeclared : (sheet.begin ledger).inheritance.declared = sheet.placeholders :=
    Inheritance.declared_declare (nodup_distinct _)
  rw [hdeclared, mem_placeholders_iff]

/-! ## Extensions that fail for want of a placeholder -/

/-- The fault of an extension whose placeholder is not declared. -/
def CompileFault.undeclared (name : String) : CompileFault :=
  .session (.inheritance (.undeclared name))

/-- No rule has the placeholder of the directive, which is not marked as optional. -/
def Directive.Dangles (sheet : Sheet) (d : Directive) : Prop :=
  trimText d.extension.flag ≠ optionalFlag ∧ ¬ sheet.Declares d.extension.placeholder

theorem Session.extend_of_refused {ledger : Ledger} {inh : Inheritance} {c : Call}
    {f : InheritanceFault} (h : (Session.call ⟨ledger, some inh⟩ c).1 = .error (.inheritance f)) :
    inh.make c.extension = .error f := by
  rcases Session.call_cases ⟨ledger, some inh⟩ c with ⟨-, hc⟩ | ⟨-, g, hg, hc⟩ | ⟨-, _, -, hc⟩
  · rw [hc] at h; cases h
  · rw [hc] at h
    cases h
    cases hm : inh.make c.extension with
    | ok inh' =>
      have : inherit (some inh) c.placeholder c.named c.flag = .ok (some inh') :=
        congrArg (Except.map some) hm
      cases hg.symm.trans this
    | error g' =>
      have : inherit (some inh) c.placeholder c.named c.flag = .error g' :=
        congrArg (Except.map some) hm
      exact congrArg Except.error (Except.error.inj (this.symm.trans hg))
  · -- past the inheritance only the ledger may fail
    rw [hc] at h
    cases hr : (ledger.record c.placeholder c.budget c.named).1 with
    | ok listed => rw [hr] at h; cases h
    | error g => rw [hr] at h; cases h

namespace Progress

variable {p q : Progress} {place : Place} {places : List Place} {name : String}

/-- A statement that fails in the inheritance is an extension that fails there. -/
theorem make_of_take_error {f : InheritanceFault}
    (hf : (p.take place).1 = .error (.session (.inheritance f))) :
    ∃ d, place.directive? = some d ∧ p.inheritance.make d.extension = .error f := by
  cases place.acts with
  | idle _ _ _ h => rw [h] at hf; cases hf
  | block _ _ _ h => rw [h] at hf; cases hf
  | request _ _ _ h => rw [h] at hf; cases hf
  | fails _ _ hn h =>
    rw [h] at hf
    exact absurd (Except.error.inj hf) (hn _)
  | plain _ _ hd h =>
    refine ⟨_, hd, ?_⟩
    rw [h, extend] at hf
    split at hf
    · cases hf
    · split at hf
      · rename_i hmake
        cases hf
        exact hmake
      · cases hf
  | @counted c _ _ hd h =>
    refine ⟨_, hd, ?_⟩
    rw [h] at hf
    cases hl : p.ledger with
    | none => rw [extCall, ext, hl] at hf; cases hf
    | some ledger =>
      rw [extCall_of_ledger hl] at hf
      cases hc : (Session.call ⟨ledger, some p.inheritance⟩ c).1 with
      | ok listed => rw [hc] at hf; cases hf
      | error g =>
        rw [hc] at hf
        cases hf
        exact Session.extend_of_refused hc

/-- A directive that succeeds is allowed. -/
theorem allowed_of_take (hq : p.take place = (.ok (), q)) {d : Directive}
    (hd : place.directive? = some d) : d.extension.Allowed p.inheritance.declared := by
  have hmake : ∃ inh, p.inheritance.make d.extension = .ok inh := by
    cases place.acts with
    | idle _ _ hn _ => cases hn.symm.trans hd
    | block _ _ hn _ => cases hn.symm.trans hd
    | request _ _ hn _ => cases hn.symm.trans hd
    | fails _ _ _ h => cases (h p).symm.trans hq
    | plain _ _ hd' h =>
      cases hd'.symm.trans hd
      obtain ⟨-, inh, hi, -⟩ := extend_cases ((h p).symm.trans hq)
      exact ⟨inh, hi⟩
    | counted _ _ hd' h =>
      cases hd'.symm.trans hd
      obtain ⟨-, inh, -, -, hi, -⟩ := extCall_cases ((h p).symm.trans hq)
      exact ⟨inh, hi⟩
  obtain ⟨inh, hi⟩ := hmake
  rcases Inheritance.make_cases p.inheritance d.extension with ⟨ha, -⟩ | ⟨-, f, hf⟩
  · exact ha
  · cases hi.symm.trans hf

theorem declared_of_takeAll (h : p.takeAll places = (.ok (), q)) :
    q.inheritance.declared = p.inheritance.declared := by
  rw [(reaches_of_takeAll h).inheritance, Inheritance.foldl_follow, Inheritance.declared_afterAll]

/-- All directives of a run that succeeds are allowed. -/
theorem allowed_of_takeAll (h : p.takeAll places = (.ok (), q)) :
    ∀ d ∈ places.filterMap Place.directive?, d.extension.Allowed p.inheritance.declared := by
  intro d hm
  obtain ⟨place, hm, hd⟩ := List.mem_filterMap.1 hm
  obtain ⟨before, after, rfl⟩ := List.mem_iff_append.1 hm
  rw [takeAll_append] at h
  rcases hb : p.takeAll before with ⟨f | u, p'⟩
  · rw [hb] at h; cases h
  · rw [hb] at h
    dsimp only at h
    rw [takeAll] at h
    rcases ht : p'.take place with ⟨f | u, q'⟩
    · rw [ht] at h; cases h
    · rw [← declared_of_takeAll hb]
      exact allowed_of_take ht hd

/-- A run that fails has come to a statement that fails. -/
theorem takeAll_error_cases {f : CompileFault} (h : (p.takeAll places).1 = .error f) :
    ∃ before place after p', places = before ++ place :: after ∧
      p.takeAll before = (.ok (), p') ∧ (p'.take place).1 = .error f := by
  induction places generalizing p with
  | nil => cases h
  | cons place rest ih =>
    rw [takeAll] at h
    rcases ht : p.take place with ⟨g | u, q⟩
    · rw [ht] at h
      cases h
      exact ⟨[], place, rest, p, rfl, rfl, by rw [ht]⟩
    · rw [ht] at h
      obtain ⟨before, failed, after, p', hrest, hb, hf⟩ := ih h
      refine ⟨place :: before, failed, after, p', by rw [hrest, List.cons_append], ?_, hf⟩
      rw [takeAll, ht]
      exact hb

end Progress

/-! ## Sheets -/

namespace Sheet

variable {sheet : Sheet} {budgets options : Option (List (Scalar × Value))}
  {ledger : Option Ledger} {p : Progress} {name : String}

theorem not_dangles_of_allowed {d : Directive}
    (h : d.extension.Allowed (sheet.begin ledger).inheritance.declared) : ¬ d.Dangles sheet := by
  rintro ⟨hflag, hname⟩
  rcases h with ⟨-, hd⟩ | ho
  · exact hname (mem_declared_begin.1 hd)
  · exact hflag ho

/-- A run that fails for want of a placeholder has come to the first directive that dangles. -/
theorem first_dangling_of_takeAll
    (h : ((sheet.begin ledger).takeAll sheet.places).1 = .error (.undeclared name)) :
    ∃ before d after, sheet.directives = before ++ d :: after ∧
      (∀ e ∈ before, ¬ e.Dangles sheet) ∧ d.Dangles sheet ∧ d.placeholder = name := by
  obtain ⟨before, place, after, p', hplaces, hb, hf⟩ := Progress.takeAll_error_cases h
  obtain ⟨d, hd, hmake⟩ := Progress.make_of_take_error hf
  have hdeclared := Progress.declared_of_takeAll hb
  refine ⟨before.filterMap Place.directive?, d, after.filterMap Place.directive?, ?_, ?_, ?_, ?_⟩
  · rw [directives, hplaces, List.filterMap_append, List.filterMap_cons, hd]
  · exact fun e he => not_dangles_of_allowed (Progress.allowed_of_takeAll hb e he)
  · rcases Inheritance.extend_eq_error_iff.1 hmake with ⟨hn, -⟩ | ⟨-, hflag, hn⟩
    · cases hn
    · refine ⟨fun ho => absurd (hflag.symm.trans ho) (by decide), fun hd => hn ?_⟩
      rw [hdeclared]
      exact mem_declared_begin.2 hd
  · rcases Inheritance.extend_eq_error_iff.1 hmake with ⟨hn, -⟩ | ⟨hn, -⟩
    · cases hn
    · rw [← d.placeholder_extension]
      exact (InheritanceFault.undeclared.inj hn).symm

/-- What comes after the statements does not fail for want of a placeholder. -/
theorem run_of_undeclared
    (h : (sheet.compile budgets options).result = .error (.undeclared name)) :
    ∃ ledger, ((sheet.begin ledger).takeAll sheet.places).1 = .error (.undeclared name) := by
  rw [result_compile] at h
  cases hl : sheet.ledger budgets options with
  | error f => rw [hl] at h; cases h
  | ok ledger =>
    rw [hl] at h
    refine ⟨ledger, ?_⟩
    rcases hp : (sheet.begin ledger).takeAll sheet.places with ⟨f | u, p⟩
    · simp only [hp] at h
      rw [Except.error.inj h]
    · simp only [hp, Progress.result_outcome, Progress.overlay] at h
      split at h
      · cases h
      · cases h
      · split at h <;> cases h

/-- Every directive of a sheet that compiles is allowed. -/
theorem not_dangles_of_compile {c : Compiled}
    (h : (sheet.compile budgets options).result = .ok c) :
    ∀ d ∈ sheet.directives, ¬ d.Dangles sheet := by
  obtain ⟨ledger, p, -, -, hp, -⟩ := run_of_compile h
  exact fun d hd => not_dangles_of_allowed (Progress.allowed_of_takeAll hp d hd)

theorem first_dangling_of_undeclared
    (h : (sheet.compile budgets options).result = .error (.undeclared name)) :
    ∃ before d after, sheet.directives = before ++ d :: after ∧
      (∀ e ∈ before, ¬ e.Dangles sheet) ∧ d.Dangles sheet ∧ d.placeholder = name := by
  obtain ⟨ledger, hrun⟩ := run_of_undeclared h
  exact first_dangling_of_takeAll hrun

end Sheet

/-- The first item with a property is determined. -/
theorem eq_of_first {α : Type} {P : α → Prop} {before before' after after' : List α} {a a' : α}
    (h : before ++ a :: after = before' ++ a' :: after') (hb : ∀ b ∈ before, ¬ P b) (ha : P a)
    (hb' : ∀ b ∈ before', ¬ P b) (ha' : P a') : a = a' := by
  classical
  have hfirst : (before ++ a :: after).find? (fun b => decide (P b)) = some a :=
    List.find?_eq_some_iff_append.2 ⟨by simpa using ha, before, after, rfl, by simpa using hb⟩
  have hfirst' : (before' ++ a' :: after').find? (fun b => decide (P b)) = some a' :=
    List.find?_eq_some_iff_append.2 ⟨by simpa using ha', before', after', rfl, by simpa using hb'⟩
  exact Option.some.inj (hfirst.symm.trans ((congrArg _ h).trans hfirst'))

/-- **Which placeholders can be extended.**  Let a sheet not fail for any other reason.  It fails
    for want of a placeholder exactly if some directive, not marked as optional, names one that no
    rule has as a whole token in its resolved selectors, at any depth and wherever it stands; and
    the fault names the placeholder of the first of these.  Whatever comes of a sheet, and of its
    settings, each placeholder in the selectors of its blocks is declared at the start. -/
theorem Sheet.undeclared_iff (sheet : Sheet) (budgets options : Option (List (Scalar × Value))) :
    ((∀ f, (sheet.compile budgets options).result = .error f → ∃ name, f = .undeclared name) →
      ((∃ name, (sheet.compile budgets options).result = .error (.undeclared name)) ↔
        ∃ d ∈ sheet.directives, d.Dangles sheet) ∧
      ∀ name, (sheet.compile budgets options).result = .error (.undeclared name) ↔
        ∃ before d after, sheet.directives = before ++ d :: after ∧
          (∀ e ∈ before, ¬ e.Dangles sheet) ∧ d.Dangles sheet ∧ d.placeholder = name) ∧
    ∀ (ledger : Option Ledger), ∀ b ∈ (compileAll [] (sheet.begin ledger) sheet.statements).2.blocks,
      ∀ s ∈ b.selectors, ∀ name, HasToken s name →
        name ∈ (sheet.begin ledger).inheritance.declared := by
  constructor
  · intro hother
    have hfails : ∀ d ∈ sheet.directives, d.Dangles sheet →
        ∃ name, (sheet.compile budgets options).result = .error (.undeclared name) := by
      intro d hd hdangles
      cases hr : (sheet.compile budgets options).result with
      | ok c => exact absurd hdangles (not_dangles_of_compile hr d hd)
      | error f =>
        obtain ⟨name, rfl⟩ := hother f hr
        exact ⟨name, rfl⟩
    refine ⟨⟨?_, ?_⟩, fun name => ⟨first_dangling_of_undeclared, ?_⟩⟩
    · rintro ⟨name, h⟩
      obtain ⟨before, d, after, hdirectives, -, hd, -⟩ := first_dangling_of_undeclared h
      exact ⟨d, hdirectives ▸ by simp, hd⟩
    · rintro ⟨d, hd, hdangles⟩
      exact hfails d hd hdangles
    · rintro ⟨before, d, after, hdirectives, hb, hd, rfl⟩
      obtain ⟨name, hr⟩ := hfails d (hdirectives ▸ by simp) hd
      obtain ⟨before', d', after', hdirectives', hb', hd', rfl⟩ := first_dangling_of_undeclared hr
      rw [eq_of_first (hdirectives.symm.trans hdirectives') hb hd hb' hd']
      exact hr
  · intro ledger b hm s hs name hname
    obtain ⟨more, rest, hplaces, -, hfrom⟩ :=
      (Progress.ComesFrom.start sheet ledger).takeAll sheet.places
    have hrun : compileAll [] (sheet.begin ledger) sheet.statements =
        (sheet.begin ledger).takeAll sheet.places := compileAll_eq_takeAll [] _ sheet.statements
    rw [hrun, hfrom.blocks, List.nil_append] at hm
    obtain ⟨place, hplace, hb⟩ := List.mem_filterMap.1 hm
    refine mem_declared_begin.2 ⟨place, hplaces ▸ List.mem_append_left rest hplace, ?_⟩
    obtain ⟨parents, statement⟩ := place
    cases statement with
    | rule selectors children =>
      cases hb
      exact ⟨selectors, children, rfl, s, hs, hname⟩
    | _ => cases hb

/-- The first placeholder stands in a later rule, and the second need not be there. -/
def danglingSheet : Sheet where
  statements :=
    [.rule [".x"] [.extend "base-wide" "", .extend "none" "!optional", .mixin "ext" ["gone"]],
      .rule ["%base"] [.rule ["&-wide"] []]]

theorem undeclared_danglingSheet :
    (danglingSheet.compile mirroredLimits none).result = .error (.undeclared "gone") ∧
      ∃ before d after, danglingSheet.directives = before ++ d :: after ∧
        (∀ e ∈ before, ¬ e.Dangles danglingSheet) ∧ d.Dangles danglingSheet ∧
        d.placeholder = "gone" := by
  have hr : (danglingSheet.compile mirroredLimits none).result = .error (.undeclared "gone") := by
    cbv
  have hother : ∀ f, (danglingSheet.compile mirroredLimits none).result = .error f →
      ∃ name, f = .undeclared name :=
    fun f hf => ⟨"gone", Except.error.inj (hf.symm.trans hr)⟩
  exact ⟨hr, (((danglingSheet.undeclared_iff mirroredLimits none).1 hother).2 "gone").1 hr⟩

end StyleBudget
