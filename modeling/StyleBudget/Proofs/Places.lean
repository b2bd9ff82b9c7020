/-
  Compilation as one pass over the statements in order.

  The selectors around a statement are all that nesting means for it.  With them
  written down beside every statement, a sheet is compiled by taking the
  statements one after the other.

  * `Statement.places` and `Sheet.places` are the statements of `walk`, each with
    the resolved selectors of the rule around it;
  * `Progress.take` takes one of them, `Progress.takeAll` all of them up to the
    first that fails;
  * `compileAll_eq_takeAll`: this is what compilation does;
  * `Progress.callExt_uniform`: the arguments of a counted extension give one
    call, or fail whatever has happened so far;
  * `Progress.extend_cases` and `Progress.extCall_cases` are what extensions do if
    they succeed;
  * `Sheet.result_compile` and `Progress.result_outcome` say what becomes of a
    sheet.
-/
import StyleBudget.Compile
import StyleBudget.Proofs.Recording

namespace StyleBudget

/-! ## Places -/

/-- A statement with the resolved selectors of the rule around it. -/
structure Place where
  parents : List String
  statement : Statement

mutual

/-- A statement and all that stands in it, each rule before its children. -/
def Statement.places (parents : List String) : Statement → List Place
  | .rule selectors children =>
    ⟨parents, .rule selectors children⟩ :: placesAll (nestSelectors parents selectors) children
  | .declaration d => [⟨parents, .declaration d⟩]
  | .mixin name args => [⟨parents, .mixin name args⟩]
  | .extend placeholder flag => [⟨parents, .extend placeholder flag⟩]
  | .assign name value => [⟨parents, .assign name value⟩]

def placesAll (parents : List String) : List Statement → List Place
  | [] => []
  | s :: rest => s.places parents ++ placesAll parents rest

end

def Sheet.places (sheet : Sheet) : List Place := placesAll [] sheet.statements

mutual

theorem Statement.map_statement_places (parents : List String) :
    ∀ s : Statement, (s.places parents).map Place.statement = s.walk
  | .rule selectors children => by
    rw [Statement.places, Statement.walk, List.map_cons, map_statement_placesAll _ children]
  | .declaration _ => rfl
  | .mixin _ _ => rfl
  | .extend _ _ => rfl
  | .assign _ _ => rfl

theorem map_statement_placesAll (parents : List String) :
    ∀ l : List Statement, (placesAll parents l).map Place.statement = walkAll l
  | [] => rfl
  | s :: rest => by
    rw [placesAll, walkAll, List.map_append, s.map_statement_places parents,
      map_statement_placesAll parents rest]

end

namespace Sheet

variable {sheet : Sheet}

theorem map_statement_places (sheet : Sheet) : sheet.places.map Place.statement = sheet.walk :=
  map_statement_placesAll [] sheet.statements

theorem statement_mem_walk {place : Place} (h : place ∈ sheet.places) :
    place.statement ∈ sheet.walk := by
  rw [← map_statement_places]
  exact List.mem_map_of_mem h

end Sheet

/-! ## The pass -/

namespace Progress

/-- Takes a statement at its place, but nothing that stands in it. -/
def take (p : Progress) (place : Place) : Step :=
  match place.statement with
  | .rule selectors children =>
    (.ok (), p.addBlock (nestSelectors place.parents selectors) children)
  | .mixin name args => p.call name args place.parents
  | .extend placeholder flag => p.extend placeholder flag place.parents
  | .declaration _ => (.ok (), p)
  | .assign _ _ => (.ok (), p)

/-- Takes statements at their places in order, up to the first that fails. -/
def takeAll (p : Progress) : List Place → Step
  | [] => (.ok (), p)
  | place :: rest =>
    match p.take place with
    | (.error f, p) => (.error f, p)
    | (.ok (), p) => p.takeAll rest

theorem takeAll_append (p : Progress) (places more : List Place) :
    p.takeAll (places ++ more) =
      match p.takeAll places with
      | (.error f, q) => (.error f, q)
      | (.ok (), q) => q.takeAll more := by
  induction places generalizing p with
  | nil => rfl
  | cons place rest ih =>
    rw [List.cons_append, takeAll, takeAll]
    rcases p.take place with ⟨f | u, q⟩
    · rfl
    · exact ih q

theorem takeAll_singleton (p : Progress) (place : Place) : p.takeAll [place] = p.take place := by
  rw [takeAll]
  rcases p.take place with ⟨f | u, q⟩ <;> rfl

end Progress

mutual

theorem Statement.compile_eq_takeAll (parents : List String) (p : Progress) :
    ∀ s : Statement, s.compile parents p = p.takeAll (s.places parents)
  | .rule selectors children => by
    rw [Statement.compile, Statement.places, compileAll_eq_takeAll _ _ children]
    rfl
  | .mixin name args => by
    rw [Statement.compile, Statement.places, Progress.takeAll_singleton, Progress.take]
  | .extend placeholder flag => by
    rw [Statement.compile, Statement.places, Progress.takeAll_singleton, Progress.take]
  | .declaration d => by rw [Statement.compile, Statement.places]; rfl
  | .assign name value => by rw [Statement.compile, Statement.places]; rfl

/-- **Compilation is one pass.**  Taking the statements of a block is taking all
    that stands in them, in order and each at its place. -/
theorem compileAll_eq_takeAll (parents : List String) (p : Progress) :
    ∀ l : List Statement, compileAll parents p l = p.takeAll (placesAll parents l)
  | [] => by rw [compileAll]; rfl
  | s :: rest => by
    rw [compileAll, placesAll, Progress.takeAll_append, s.compile_eq_takeAll parents p]
    rcases p.takeAll (s.places parents) with ⟨f | u, q⟩
    · rfl
    · exact compileAll_eq_takeAll parents q rest

end

/-! ## Counted extensions -/

/-- The call that the arguments of a counted extension ask for: a placeholder, and
    then a budget, and a flag if there is one. -/
def Call.ofArguments (args : List String) (parents : List String) : Call where
  placeholder := (args.filter fun a => !Progress.isFlag a).headD ""
  budget := (args.filter fun a => !Progress.isFlag a).tail.headD totalBudget
  flag := (args.filter Progress.isFlag).headD ""
  selectors := parents

namespace Progress

/-- The call is made, its selectors inherit the placeholder and are counted. -/
def extCall (p : Progress) (c : Call) : Step := p.ext c.placeholder c.budget c.flag c.selectors

/-- A counted extension is a call of the session that the progress amounts to. -/
theorem extCall_of_ledger {p : Progress} {ledger : Ledger} (h : p.ledger = some ledger) (c : Call) :
    p.extCall c =
      ((((Session.call ⟨ledger, some p.inheritance⟩ c).1.mapError CompileFault.session).map
          fun _ => ()),
        { p with
          ledger := some (Session.call ⟨ledger, some p.inheritance⟩ c).2.ledger
          inheritance :=
            (Session.call ⟨ledger, some p.inheritance⟩ c).2.inheritance.getD p.inheritance }) := by
  rw [extCall, ext, h]
  rfl

/-- The arguments of a counted extension fail by themselves, or give one call. -/
theorem callExt_uniform (args parents : List String) :
    (∃ f, (∀ g, f ≠ .session g) ∧ ∀ p : Progress, p.callExt args parents = (.error f, p)) ∨
      ∀ p : Progress, p.callExt args parents = p.extCall (.ofArguments args parents) := by
  simp only [callExt, extCall, Call.ofArguments]
  generalize args.filter isFlag = flags
  generalize args.filter (fun a => !isFlag a) = positional
  match positional, flags with
  | [], _ => exact .inl ⟨.noPlaceholder, by simp, fun _ => rfl⟩
  | [placeholder], [] => exact .inr fun _ => rfl
  | [placeholder], [flag] => exact .inr fun _ => rfl
  | [placeholder, budget], [] => exact .inr fun _ => rfl
  | [placeholder, budget], [flag] => exact .inr fun _ => rfl
  | _ :: _ :: _ :: _, _ => exact .inl ⟨.excessArguments args, by simp, fun _ => rfl⟩
  | [_], _ :: _ :: _ => exact .inl ⟨.excessArguments args, by simp, fun _ => rfl⟩
  | [_, _], _ :: _ :: _ => exact .inl ⟨.excessArguments args, by simp, fun _ => rfl⟩

/-! ## Extensions that succeed -/

variable {p q : Progress}

/-- A plain extension that succeeds. -/
theorem extend_cases {placeholder flag : String} {parents : List String}
    (h : p.extend placeholder flag parents = (.ok (), q)) :
    parents ≠ [] ∧ ∃ inh, p.inheritance.extend placeholder parents flag = .ok inh ∧
      q = { p with inheritance := inh } := by
  rw [extend] at h
  split at h
  · cases h
  · rename_i hne
    split at h
    · cases h
    · rename_i inh hi
      exact ⟨mt List.isEmpty_iff.2 hne, inh, hi, (Prod.mk.inj h).2.symm⟩

/-- A counted extension that succeeds is a call of the session. -/
theorem extCall_cases {c : Call} (h : p.extCall c = (.ok (), q)) :
    ∃ ledger inh, p.ledger = some ledger ∧ c.named ≠ [] ∧
      p.inheritance.extend c.placeholder c.named c.flag = .ok inh ∧
      (Session.call ⟨ledger, some p.inheritance⟩ c).2.inheritance = some inh ∧
      q = { p with
        ledger := some (Session.call ⟨ledger, some p.inheritance⟩ c).2.ledger
        inheritance := inh } := by
  cases hl : p.ledger with
  | none => rw [extCall, ext, hl] at h; cases h
  | some ledger =>
    rw [extCall_of_ledger hl, Prod.mk.injEq] at h
    obtain ⟨hok, rfl⟩ := h
    rcases Session.call_cases ⟨ledger, some p.inheritance⟩ c with
      ⟨-, hc⟩ | ⟨-, f, -, hc⟩ | ⟨hne, inh, hi, hc⟩
    · rw [hc] at hok; cases hok
    · rw [hc] at hok; cases hok
    · have hs : (Session.call ⟨ledger, some p.inheritance⟩ c).2.inheritance = inh := by rw [hc]
      obtain ⟨inh', he, rfl⟩ := Session.exists_extend_of_inherit hi
      exact ⟨ledger, inh', rfl, hne, he, hs, by rw [hs]; rfl⟩

end Progress

/-! ## Sheets -/

/-- The progress before the first statement. -/
def Sheet.begin (sheet : Sheet) (ledger : Option Ledger) : Progress where
  inheritance := .declare sheet.placeholders
  ledger := ledger

theorem Sheet.result_compile (sheet : Sheet) (budgets options : Option (List (Scalar × Value))) :
    (sheet.compile budgets options).result =
      match sheet.ledger budgets options with
      | .error f => .error (.settings f)
      | .ok ledger =>
        match (sheet.begin ledger).takeAll sheet.places with
        | (.error f, _) => .error f
        | (.ok (), p) => p.outcome.result := by
  rw [compile]
  rcases sheet.ledger budgets options with f | ledger
  · rfl
  · have hrun : compileAll [] ⟨.declare sheet.placeholders, ledger, [], []⟩ sheet.statements =
        (sheet.begin ledger).takeAll sheet.places := compileAll_eq_takeAll [] _ sheet.statements
    simp only [hrun]
    rcases (sheet.begin ledger).takeAll sheet.places with ⟨f | u, p⟩ <;> rfl

theorem Progress.result_outcome (p : Progress) :
    p.outcome.result =
      p.overlay.map fun overlay => ⟨sheetText (p.rules ++ overlay), p.findings, p.ledger⟩ := by
  rw [outcome]
  cases p.overlay <;> rfl

end StyleBudget
