/-
  Sheets with statements left out.

  What a statement does at its place does not depend on what is nested in it: of a rule only
  its selectors and its own declarations count there.  So a sheet is compiled step by step,
  and to leave out statements, at any depth, is to leave out their steps.

  * `Sheet.steps` are the steps of a sheet; `Sheet.placeholders_eq_steps`, `Sheet.calls_eq_steps`
    and `Sheet.compile_eq_steps` say that they are all that compilation needs, apart from
    the settings;
  * `Omits` is a list with some items left out, `LeavesOut` a block with some statements left
    out at any depth, and `withoutAll` leaves out all of a kind;
  * `LeavesOut.omits_steps` ties the blocks to the steps;
  * `Progress.Decides.takeAll` compares two runs of which one leaves out what is not seen.
-/
import StyleBudget.Proofs.Phases
import StyleBudget.Proofs.Reading

namespace StyleBudget

/-! ## Steps -/

/-- A rule with nothing but its own declarations, and any other statement as it is. -/
def Statement.bare : Statement → Statement
  | .rule selectors children => .rule selectors ((declarationsOf children).map .declaration)
  | s => s

def Place.bare (place : Place) : Place := { place with statement := place.statement.bare }

/-- The statements at their places, without what is nested in them. -/
def stepsAll (parents : List String) (l : List Statement) : List Place :=
  (placesAll parents l).map Place.bare

def Sheet.steps (sheet : Sheet) : List Place := stepsAll [] sheet.statements

theorem stepsAll_cons {s : Statement} (hs : s.isRule = false) (parents : List String)
    (rest : List Statement) : stepsAll parents (s :: rest) = ⟨parents, s⟩ :: stepsAll parents rest := by
  cases s with
  | rule _ _ => cases hs
  | _ => rfl

theorem stepsAll_rule (parents selectors : List String) (children rest : List Statement) :
    stepsAll parents (.rule selectors children :: rest) =
      ⟨parents, .rule selectors ((declarationsOf children).map .declaration)⟩ ::
        (stepsAll (nestSelectors parents selectors) children ++ stepsAll parents rest) := by
  rw [stepsAll, placesAll, Statement.places, List.map_append, List.map_cons]
  rfl

namespace Progress

theorem take_bare (p : Progress) (place : Place) : p.take place.bare = p.take place := by
  obtain ⟨parents, s⟩ := place
  cases s with
  | rule selectors children =>
    simp only [Place.bare, Statement.bare, take, addBlock, declarationsOf_declarations]
  | _ => rfl

theorem takeAll_bare (p : Progress) (places : List Place) :
    p.takeAll (places.map Place.bare) = p.takeAll places := by
  induction places generalizing p with
  | nil => rfl
  | cons place rest ih =>
    rw [List.map_cons, takeAll, takeAll, take_bare]
    rcases p.take place with ⟨f | u, q⟩
    · rfl
    · exact ih q

end Progress

/-! ## Views of the steps -/

/-- The placeholders in the resolved selectors of a rule, without those of the rules in it. -/
def Place.placeholders (place : Place) : List String :=
  match place.statement with
  | .rule selectors _ =>
    (nestSelectors place.parents selectors).flatMap fun s => placeholdersOf s.toList
  | _ => []

/-- The arguments of a call of the mixin. -/
def Statement.argumentsOf? (name : String) : Statement → Option (List String)
  | .mixin name' args => if name' = name then some args else none
  | _ => none

/-- The arguments of all calls of a mixin, in the order of the statements. -/
def Sheet.calls (sheet : Sheet) (name : String) : List (List String) :=
  sheet.walk.filterMap (Statement.argumentsOf? name)

theorem Statement.argumentsOf?_eq_some_iff {s : Statement} {name : String} {args : List String} :
    s.argumentsOf? name = some args ↔ s = .mixin name args := by
  cases s with
  | mixin name' args' =>
    rw [argumentsOf?, mixin.injEq]
    split
    · rename_i hn
      rw [Option.some.injEq, and_iff_right hn]
    · rename_i hn
      exact iff_of_false nofun fun h => hn h.1
  | _ => exact iff_of_false nofun nofun

theorem Statement.tracks_iff {s : Statement} :
    s.tracks = true ↔ ∃ args, s = .mixin extMixin args ∨ s = .mixin reportMixin args := by
  constructor
  · intro h
    cases s with
    | mixin name args =>
      have hname : name = extMixin ∨ name = reportMixin := by simpa [tracks] using h
      rcases hname with rfl | rfl
      · exact ⟨args, .inl rfl⟩
      · exact ⟨args, .inr rfl⟩
    | _ => cases h
  · rintro ⟨args, rfl | rfl⟩
    · rfl
    · rfl

theorem Place.placeholders_bare (place : Place) : place.bare.placeholders = place.placeholders := by
  obtain ⟨parents, s⟩ := place
  cases s <;> rfl

theorem Place.argumentsOf?_bare (name : String) (place : Place) :
    place.bare.statement.argumentsOf? name = place.statement.argumentsOf? name := by
  obtain ⟨parents, s⟩ := place
  cases s <;> rfl

theorem Place.request?_eq (place : Place) :
    place.request? = (place.statement.argumentsOf? reportMixin).map fun args =>
      args.headD allBudgets := by
  obtain ⟨parents, s⟩ := place
  cases s with
  | mixin name args =>
    simp only [request?, Statement.argumentsOf?]
    split <;> rfl
  | _ => rfl

mutual

theorem Statement.flatMap_placeholders_places (parents : List String) :
    ∀ s : Statement, (s.places parents).flatMap Place.placeholders = s.placeholders parents
  | .rule selectors children => by
    rw [Statement.places, Statement.placeholders, List.flatMap_cons,
      flatMap_placeholders_placesAll _ children]
    rfl
  | .declaration _ => rfl
  | .mixin _ _ => rfl
  | .extend _ _ => rfl
  | .assign _ _ => rfl

theorem flatMap_placeholders_placesAll (parents : List String) :
    ∀ l : List Statement, (placesAll parents l).flatMap Place.placeholders =
      placeholdersAll parents l
  | [] => rfl
  | s :: rest => by
    rw [placesAll, placeholdersAll, List.flatMap_append, s.flatMap_placeholders_places parents,
      flatMap_placeholders_placesAll parents rest]

end

namespace Sheet

variable (sheet : Sheet)

/-- The declared placeholders are those of the steps. -/
theorem placeholders_eq_steps :
    sheet.placeholders = distinct (sheet.steps.flatMap Place.placeholders) := by
  have hsteps : sheet.steps.flatMap Place.placeholders =
      (placesAll [] sheet.statements).flatMap Place.placeholders := by
    rw [steps, stepsAll, List.flatMap_map]
    simp only [Place.placeholders_bare]
  rw [placeholders, hsteps, flatMap_placeholders_placesAll]

theorem calls_eq_steps (name : String) :
    sheet.calls name =
      sheet.steps.filterMap fun place => place.statement.argumentsOf? name := by
  rw [calls, ← map_statement_places, List.filterMap_map, steps, stepsAll, List.filterMap_map]
  simp only [Function.comp_def, Place.argumentsOf?_bare]
  rfl

/-- Every call for a report asks for its first argument. -/
theorem requests_eq_calls :
    sheet.requests = (sheet.calls reportMixin).map fun args => args.headD allBudgets := by
  rw [requests, calls, ← map_statement_places, List.filterMap_map, List.map_filterMap]
  simp only [Place.request?_eq]
  rfl

theorem mem_calls {sheet : Sheet} {name : String} {args : List String} :
    args ∈ sheet.calls name ↔ .mixin name args ∈ sheet.walk := by
  rw [calls, List.mem_filterMap]
  simp only [Statement.argumentsOf?_eq_some_iff, exists_eq_right]

/-- A sheet counts if one of the two mixins is called. -/
theorem tracks_iff_calls :
    sheet.tracks = true ↔ sheet.calls extMixin ≠ [] ∨ sheet.calls reportMixin ≠ [] := by
  have hcalls : ∀ name, sheet.calls name ≠ [] ↔ ∃ args, .mixin name args ∈ sheet.walk := by
    intro name
    simp only [← mem_calls]
    exact ⟨List.exists_mem_of_ne_nil _, fun ⟨args, h⟩ => List.ne_nil_of_mem h⟩
  rw [tracks, List.any_eq_true, hcalls, hcalls, ← exists_or]
  simp only [Statement.tracks_iff]
  constructor
  · rintro ⟨s, hs, args, rfl | rfl⟩
    · exact ⟨args, .inl hs⟩
    · exact ⟨args, .inr hs⟩
  · rintro ⟨args, hs | hs⟩
    · exact ⟨_, hs, args, .inl rfl⟩
    · exact ⟨_, hs, args, .inr rfl⟩

/-- Sheets with the same calls both count, or neither does. -/
theorem tracks_congr {sheet sheet' : Sheet}
    (hext : sheet'.calls extMixin = sheet.calls extMixin)
    (hreport : sheet'.calls reportMixin = sheet.calls reportMixin) :
    sheet'.tracks = sheet.tracks := by
  rw [Bool.eq_iff_iff, tracks_iff_calls, tracks_iff_calls, hext, hreport]

/-- The calls and the variables of a sheet decide with which ledger it starts, or fails. -/
theorem ledger_congr {sheet sheet' : Sheet}
    (hext : sheet'.calls extMixin = sheet.calls extMixin)
    (hreport : sheet'.calls reportMixin = sheet.calls reportMixin)
    (hv : sheet'.assignments = sheet.assignments)
    (budgets options : Option (List (Scalar × Value))) :
    sheet'.ledger budgets options = sheet.ledger budgets options := by
  have hsettings : sheet'.settings budgets options = sheet.settings budgets options := by
    rw [settings, settings, hv]
  rw [ledger, ledger, tracks_congr hext hreport, hsettings]

theorem takeAll_steps (p : Progress) : p.takeAll sheet.steps = p.takeAll sheet.places :=
  p.takeAll_bare sheet.places

/-- **Compilation is one pass over the steps.** -/
theorem compile_eq_steps (budgets options : Option (List (Scalar × Value))) :
    sheet.compile budgets options =
      match sheet.ledger budgets options with
      | .error f => ⟨[], .error (.settings f)⟩
      | .ok ledger =>
        match (sheet.begin ledger).takeAll sheet.steps with
        | (.error f, p) => ⟨p.log, .error f⟩
        | (.ok (), p) => p.outcome := by
  rw [compile]
  rcases sheet.ledger budgets options with f | ledger
  · rfl
  · have hrun : compileAll [] ⟨.declare sheet.placeholders, ledger, [], []⟩ sheet.statements =
        (sheet.begin ledger).takeAll sheet.steps :=
      (compileAll_eq_takeAll [] _ sheet.statements).trans (Progress.takeAll_bare ..).symm
    rcases hp : (sheet.begin ledger).takeAll sheet.steps with ⟨f | u, p⟩
    · simp only [hrun, hp]
    · simp only [hrun, hp]

variable {sheet} {budgets options : Option (List (Scalar × Value))} {ledger : Option Ledger}
  {p : Progress}

theorem compile_of_takeAll (hl : sheet.ledger budgets options = .ok ledger)
    (hp : (sheet.begin ledger).takeAll sheet.steps = (.ok (), p)) :
    sheet.compile budgets options = p.outcome := by
  rw [compile_eq_steps, hl]
  simp only [hp]

/-- What taking all statements leads to: the reports that the sheet asks for. -/
theorem requests_of_takeAll (hp : (sheet.begin ledger).takeAll sheet.steps = (.ok (), p)) :
    p.requests = sheet.requests := by
  rw [takeAll_steps] at hp
  exact (Progress.reaches_of_takeAll hp).requests

end Sheet

/-! ## Lists with items left out -/

/-- Some items that may go have been left out of a list. -/
inductive Omits {α : Type} (may : α → Prop) : List α → List α → Prop
  | nil : Omits may [] []
  | keep {l l' : List α} (a : α) (h : Omits may l l') : Omits may (a :: l) (a :: l')
  | drop {l l' : List α} {a : α} (ha : may a) (h : Omits may l l') : Omits may (a :: l) l'

namespace Omits

variable {α β : Type} {may : α → Prop} {l l' more more' : List α}

theorem append (h : Omits may l l') (hmore : Omits may more more') :
    Omits may (l ++ more) (l' ++ more') := by
  induction h with
  | nil => exact hmore
  | keep a _ ih => exact .keep a ih
  | drop ha _ ih => exact .drop ha ih

/-- What the items that may go do not give is not lost. -/
theorem filterMap_eq {f : α → Option β} (hf : ∀ a, may a → f a = none) (h : Omits may l l') :
    l'.filterMap f = l.filterMap f := by
  induction h with
  | nil => rfl
  | keep a _ ih => rw [List.filterMap_cons, List.filterMap_cons, ih]
  | drop ha _ ih => rw [List.filterMap_cons, hf _ ha, ih]

theorem flatMap_eq {f : α → List β} (hf : ∀ a, may a → f a = []) (h : Omits may l l') :
    l'.flatMap f = l.flatMap f := by
  induction h with
  | nil => rfl
  | keep a _ ih => rw [List.flatMap_cons, List.flatMap_cons, ih]
  | drop ha _ ih => rw [List.flatMap_cons, hf _ ha, ih, List.nil_append]

end Omits

/-! ## Runs with statements left out -/

namespace Progress

/-- What is seen of a progress decides whether a statement fails, and what is seen after it. -/
def Decides {β : Type} (view : Progress → β) : Prop :=
  ∀ (p p' : Progress) (place : Place), view p' = view p →
    (p'.take place).1 = (p.take place).1 ∧ view (p'.take place).2 = view (p.take place).2

/-- **Two runs**, one of them without some statements that are not seen.  They come to the
    same, as far as is seen, unless the other one fails at such a statement. -/
theorem Decides.takeAll {β : Type} {view : Progress → β} (hview : Decides view)
    {may : Place → Prop} (hmay : ∀ p place, may place → view (p.take place).2 = view p)
    {places places' : List Place} (h : Omits may places places') {p p' : Progress}
    (hp : view p' = view p) :
    (∃ (q : Progress) (place : Place) (f : CompileFault), may place ∧
        (q.take place).1 = .error f ∧ (p.takeAll places).1 = .error f) ∨
      ((p'.takeAll places').1 = (p.takeAll places).1 ∧
        view (p'.takeAll places').2 = view (p.takeAll places).2) := by
  induction h generalizing p p' with
  | nil => exact .inr ⟨rfl, hp⟩
  | keep place _ ih =>
    obtain ⟨hout, hseen⟩ := hview p p' place hp
    rw [Progress.takeAll, Progress.takeAll]
    rcases htake : p.take place with ⟨outcome, q⟩
    rcases htake' : p'.take place with ⟨outcome', q'⟩
    rw [htake, htake'] at hout hseen
    obtain rfl : outcome' = outcome := hout
    cases outcome' with
    | error f => exact .inr ⟨rfl, hseen⟩
    | ok u => exact ih hseen
  | drop hs _ ih =>
    rename_i place _
    have hseen := hmay p place hs
    rw [Progress.takeAll]
    rcases htake : p.take place with ⟨f | u, q⟩
    · exact .inl ⟨p, place, f, hs, by rw [htake], rfl⟩
    · rw [htake] at hseen
      exact ih (hp.trans hseen.symm)

end Progress

/-! ## Blocks with statements left out -/

/-- Some statements that may go have been left out of a block, at any depth. -/
inductive LeavesOut (may : Statement → Prop) : List Statement → List Statement → Prop
  | nil : LeavesOut may [] []
  | keep {s : Statement} {l l' : List Statement} (hs : s.isRule = false) (h : LeavesOut may l l') :
    LeavesOut may (s :: l) (s :: l')
  | drop {s : Statement} {l l' : List Statement} (hs : may s) (h : LeavesOut may l l') :
    LeavesOut may (s :: l) l'
  | inside {children children' l l' : List Statement} (selectors : List String)
    (hc : LeavesOut may children children') (h : LeavesOut may l l') :
    LeavesOut may (.rule selectors children :: l) (.rule selectors children' :: l')

/-- The statement is neither a rule nor a declaration: no block shows whether it is there. -/
def Statement.isLoose : Statement → Bool
  | .rule _ _ => false
  | .declaration _ => false
  | _ => true

theorem Statement.isRule_of_isLoose {s : Statement} (hs : s.isLoose = true) : s.isRule = false := by
  cases s with
  | rule _ _ => cases hs
  | _ => rfl

theorem Statement.declaration?_of_isLoose (s : Statement) (hs : s.isLoose = true) :
    s.declaration? = none := by
  cases s with
  | declaration _ => cases hs
  | _ => rfl

namespace LeavesOut

variable {may may' : Statement → Prop} {l l' : List Statement}

theorem mono (hmay : ∀ s, may s → may' s) (h : LeavesOut may l l') : LeavesOut may' l l' := by
  induction h with
  | nil => exact .nil
  | keep hs _ ih => exact .keep hs ih
  | drop hs _ ih => exact .drop (hmay _ hs) ih
  | inside selectors _ _ ihc ih => exact .inside selectors ihc ih

/-- What neither rules nor the statements that may go give is not lost. -/
theorem filterMap_eq {β : Type} {f : Statement → Option β}
    (hrule : ∀ selectors children, f (.rule selectors children) = none)
    (hmay : ∀ s, may s → f s = none) (h : LeavesOut may l l') : l'.filterMap f = l.filterMap f := by
  induction h with
  | nil => rfl
  | keep _ _ ih => rw [List.filterMap_cons, List.filterMap_cons, ih]
  | drop hs _ ih => rw [List.filterMap_cons, hmay _ hs, ih]
  | inside selectors _ _ _ ih =>
    rw [List.filterMap_cons_none (hrule ..), List.filterMap_cons_none (hrule ..), ih]

theorem declarationsOf_eq (hmay : ∀ s, may s → s.isLoose = true) (h : LeavesOut may l l') :
    declarationsOf l' = declarationsOf l :=
  h.filterMap_eq (fun _ _ => rfl) fun s hs => s.declaration?_of_isLoose (hmay s hs)

/-- To leave out statements of a block is to leave out their steps. -/
theorem omits_steps (hmay : ∀ s, may s → s.isLoose = true) (h : LeavesOut may l l')
    (parents : List String) :
    Omits (fun place => may place.statement) (stepsAll parents l) (stepsAll parents l') := by
  induction h generalizing parents with
  | nil => exact .nil
  | keep hs _ ih =>
    rw [stepsAll_cons hs, stepsAll_cons hs]
    exact .keep _ (ih parents)
  | drop hs _ ih =>
    rw [stepsAll_cons (Statement.isRule_of_isLoose (hmay _ hs))]
    exact .drop hs (ih parents)
  | inside selectors hc _ ihc ih =>
    rw [stepsAll_rule, stepsAll_rule, hc.declarationsOf_eq hmay]
    exact .keep _ ((ihc _).append (ih parents))

end LeavesOut

theorem Place.placeholders_of_isLoose (place : Place) (hs : place.statement.isLoose = true) :
    place.placeholders = [] := by
  obtain ⟨parents, s⟩ := place
  cases s with
  | rule _ _ => cases hs
  | _ => rfl

namespace Sheet

variable {sheet sheet' : Sheet} {may : Statement → Prop}

theorem omits_steps (hmay : ∀ s, may s → s.isLoose = true)
    (h : LeavesOut may sheet.statements sheet'.statements) :
    Omits (fun place => may place.statement) sheet.steps sheet'.steps :=
  h.omits_steps hmay []

/-- The same placeholders are declared. -/
theorem placeholders_of_leavesOut (hmay : ∀ s, may s → s.isLoose = true)
    (h : LeavesOut may sheet.statements sheet'.statements) :
    sheet'.placeholders = sheet.placeholders := by
  rw [placeholders_eq_steps, placeholders_eq_steps, (omits_steps hmay h).flatMap_eq fun place hs =>
    place.placeholders_of_isLoose (hmay _ hs)]

/-- A mixin is called with the same arguments if no call of it is left out. -/
theorem calls_of_leavesOut (hmay : ∀ s, may s → s.isLoose = true) {name : String}
    (hname : ∀ s, may s → s.argumentsOf? name = none)
    (h : LeavesOut may sheet.statements sheet'.statements) :
    sheet'.calls name = sheet.calls name := by
  rw [calls_eq_steps, calls_eq_steps, (omits_steps hmay h).filterMap_eq fun place hs =>
    hname place.statement hs]

end Sheet

/-! ## Leaving out all statements of a kind -/

mutual

/-- A statement, with all of a kind left out of what stands in it. -/
def Statement.without (out : Statement → Bool) : Statement → Statement
  | .rule selectors children => .rule selectors (withoutAll out children)
  | .declaration d => .declaration d
  | .mixin name args => .mixin name args
  | .extend placeholder flag => .extend placeholder flag
  | .assign name value => .assign name value

def withoutAll (out : Statement → Bool) : List Statement → List Statement
  | [] => []
  | s :: rest => if out s then withoutAll out rest else s.without out :: withoutAll out rest

end

def Sheet.without (out : Statement → Bool) (sheet : Sheet) : Sheet :=
  ⟨withoutAll out sheet.statements⟩

theorem leavesOut_withoutAll (out : Statement → Bool) :
    ∀ l : List Statement, LeavesOut (fun s => out s = true) l (withoutAll out l)
  | [] => .nil
  | s :: rest => by
    have hrest := leavesOut_withoutAll out rest
    rw [withoutAll]
    split
    · rename_i hs
      exact .drop hs hrest
    · cases s with
      | rule selectors children => exact .inside selectors (leavesOut_withoutAll out children) hrest
      | _ => exact .keep rfl hrest

theorem Sheet.leavesOut_without (out : Statement → Bool) (sheet : Sheet) :
    LeavesOut (fun s => out s = true) sheet.statements (sheet.without out).statements :=
  leavesOut_withoutAll out sheet.statements

end StyleBudget
