/-
  Compilation of a style sheet.

  The statements are taken in source order.  Each rule gives a block under the
  selectors that its nesting resolves to; extensions make those selectors
  consumers of a placeholder, and `ext` counts them as well.  Placeholders are
  expanded in the blocks at the very end, when all their consumers are known.

  * `compileAll` takes statements, `Statement.compile` one of them;
  * `Progress.rules` are the rules that the blocks give;
  * `overlayReport` is the one report that an overlay shows for all requests;
  * `Sheet.compile` puts these together, with the log of the run.
-/
import StyleBudget.Css
import StyleBudget.Expansion
import StyleBudget.Log
import StyleBudget.Report
import StyleBudget.Session
import StyleBudget.Syntax.Reading

namespace StyleBudget

/-! ## Faults -/

/-- Why a style sheet cannot be compiled. -/
inductive CompileFault where
  | settings (f : SettingsFault)
  | session (f : SessionFault)
  | unknownMixin (name : String)
  | noPlaceholder
  | excessArguments (args : List String)
  | report (f : ReportFault)
  /-- A counted extension or a report, but nothing is counted. -/
  | uncounted

def CompileFault.message : CompileFault → String
  | settings f => f.message
  | session f => f.message
  | unknownMixin name => "Undefined mixin '" ++ name ++ "'."
  | noPlaceholder => "ext() needs the name of a placeholder to extend."
  | excessArguments args =>
    "ext() takes a placeholder, a budget and a flag, got " ++ bracketed (args.map quoted) ++ "."
  | report f => f.message
  | uncounted => "Nothing is counted here."

/-! ## Views of a sheet -/

/-- The mixin that extends with counting. -/
def extMixin : String := "ext"

/-- The mixin that asks for a report on the page. -/
def reportMixin : String := "ext-debug"

/-- The statement is a call of one of the two mixins. -/
def Statement.tracks : Statement → Bool
  | .mixin name _ => name == extMixin || name == reportMixin
  | _ => false

def Sheet.tracks (sheet : Sheet) : Bool := sheet.walk.any Statement.tracks

mutual

/-- The placeholders in the resolved selectors of a rule and of the rules in it. -/
def Statement.placeholders (parents : List String) : Statement → List String
  | .rule selectors children =>
    (nestSelectors parents selectors).flatMap (fun s => placeholdersOf s.toList)
      ++ placeholdersAll (nestSelectors parents selectors) children
  | _ => []

def placeholdersAll (parents : List String) : List Statement → List String
  | [] => []
  | s :: rest => s.placeholders parents ++ placeholdersAll parents rest

end

/-- The placeholders that the rules of a sheet declare, in source order. -/
def Sheet.placeholders (sheet : Sheet) : List String :=
  distinct (placeholdersAll [] sheet.statements)

/-! ## Progress -/

structure Block where
  selectors : List String
  declarations : List Declaration

/-- What the statements so far have led to. -/
structure Progress where
  inheritance : Inheritance
  ledger : Option Ledger := none
  blocks : List Block := []
  /-- The budgets on which reports were asked for. -/
  requests : List String := []

/-- What a step leads to, also if it fails. -/
abbrev Step := Except CompileFault Unit × Progress

namespace Progress

/-- The selectors inherit a placeholder without being counted. -/
def extend (p : Progress) (placeholder flag : String) (parents : List String) : Step :=
  if parents.isEmpty then (.error (.session .outsideSelector), p)
  else
    match p.inheritance.extend placeholder parents flag with
    | .error f => (.error (.session (.inheritance f)), p)
    | .ok inh => (.ok (), { p with inheritance := inh })

/-- The selectors inherit a placeholder and are counted under a budget. -/
def ext (p : Progress) (placeholder budget flag : String) (parents : List String) : Step :=
  match p.ledger with
  | none => (.error .uncounted, p)
  | some ledger =>
    let (outcome, session) :=
      Session.ext ⟨ledger, some p.inheritance⟩ placeholder budget flag parents
    ((outcome.mapError CompileFault.session).map fun _ => (),
      { p with
        ledger := some session.ledger
        inheritance := session.inheritance.getD p.inheritance })

def isFlag (arg : String) : Bool := arg.toList.head? == some '!'

/-- A call of `ext` with a placeholder, and then a budget and a flag if they are
    there, the flag anywhere. -/
def callExt (p : Progress) (args : List String) (parents : List String) : Step :=
  let flags := args.filter isFlag
  let positional := args.filter fun a => !isFlag a
  match positional, flags with
  | [], _ => (.error .noPlaceholder, p)
  | [placeholder], [] => p.ext placeholder totalBudget "" parents
  | [placeholder], [flag] => p.ext placeholder totalBudget flag parents
  | [placeholder, budget], [] => p.ext placeholder budget "" parents
  | [placeholder, budget], [flag] => p.ext placeholder budget flag parents
  | _, _ => (.error (.excessArguments args), p)

def call (p : Progress) (name : String) (args : List String) (parents : List String) : Step :=
  if name = extMixin then p.callExt args parents
  else if name = reportMixin then
    (.ok (), { p with requests := p.requests ++ [args.headD allBudgets] })
  else (.error (.unknownMixin name), p)

def addBlock (p : Progress) (selectors : List String) (children : List Statement) : Progress :=
  { p with blocks := p.blocks ++ [⟨selectors, declarationsOf children⟩] }

end Progress

mutual

/-- Takes a statement that stands under the given selectors. -/
def Statement.compile (parents : List String) (p : Progress) : Statement → Step
  | .rule selectors children =>
    compileAll (nestSelectors parents selectors)
      (p.addBlock (nestSelectors parents selectors) children) children
  | .mixin name args => p.call name args parents
  | .extend placeholder flag => p.extend placeholder flag parents
  | .declaration _ => (.ok (), p)
  | .assign _ _ => (.ok (), p)

/-- Takes the statements of a block in order, up to the first that fails. -/
def compileAll (parents : List String) (p : Progress) : List Statement → Step
  | [] => (.ok (), p)
  | s :: rest =>
    match s.compile parents p with
    | (.error f, p) => (.error f, p)
    | (.ok (), p) => compileAll parents p rest

end

/-! ## Output -/

/-- The rule that a block gives, unless it has no declaration or only
    placeholders that nothing extends. -/
def Block.rule? (inh : Inheritance) (b : Block) : Option String :=
  let selectors := inh.expand b.selectors
  if selectors.isEmpty || b.declarations.isEmpty then none
  else some (ruleText selectors b.declarations)

/-- The rules that the blocks give, once all extensions are known. -/
def Progress.rules (p : Progress) : List String := p.blocks.filterMap (Block.rule? p.inheritance)

/-- The reports that were asked for, with their requests, up to the first that cannot
    be given. -/
def reportsUpTo (ledger : Ledger) : List String → List (String × String)
  | [] => []
  | which :: rest =>
    match ledger.report which with
    | .ok text => (which, text) :: reportsUpTo ledger rest
    | .error _ => []

/-- What the overlay says under the header for the reports on single budgets:
    each of them once. -/
def overlayBodies (ledger : Ledger) (requests : List String) : Except ReportFault String :=
  match requests.mapM (usageBody ledger.usage ledger.settings) with
  | .error f => .error f
  | .ok bodies => .ok (String.join ((Table.ofList (requests.zip bodies)).entries.map Prod.snd))

/-- The report that the overlay shows: the report on all budgets if it was asked
    for, and else those on single budgets under one header. -/
def overlayReport (ledger : Ledger) (requests : List String) : Except ReportFault String :=
  match overlayBodies ledger requests with
  | .error f => .error f
  | .ok bodies =>
    if allBudgets ∈ requests then ledger.report allBudgets else .ok (reportHeader ++ bodies)

/-- The overlay as a list of rules, empty if no report was asked for. -/
def Progress.overlay (p : Progress) : Except CompileFault (List String) :=
  match p.requests, p.ledger with
  | [], _ => .ok []
  | _ :: _, none => .error .uncounted
  | requests, some ledger =>
    match overlayReport ledger requests with
    | .error f => .error (.report f)
    | .ok report => .ok [overlayRule report]

/-! ## Compilation -/

structure Compiled where
  css : String
  findings : List Finding
  /-- What has been counted, if the sheet counts at all. -/
  ledger : Option Ledger

structure Outcome where
  log : List Event
  result : Except CompileFault Compiled

/-- The settings that a sheet asks for, with those that override them. -/
def Sheet.settings (sheet : Sheet) (budgets options : Option (List (Scalar × Value))) :
    Except SettingsFault Settings :=
  let value (name : String) := (sheet.assignments.get? name).getD .null
  Settings.resolve (overlay (value "ext-budget") budgets) (overlay (value "ext-options") options)

/-- The ledger at the start: there is one exactly if the sheet counts. -/
def Sheet.ledger (sheet : Sheet) (budgets options : Option (List (Scalar × Value))) :
    Except SettingsFault (Option Ledger) :=
  if sheet.tracks then (sheet.settings budgets options).map fun s => some (Ledger.start s)
  else .ok none

def Progress.findings (p : Progress) : List Finding :=
  match p.ledger with
  | some ledger => ledger.findings
  | none => []

/-- The events up to the output: the start of counting, and the findings. -/
def Progress.log (p : Progress) : List Event :=
  match p.ledger with
  | some ledger => .started ledger.settings :: ledger.findings.map .found
  | none => []

def Progress.reportLog (p : Progress) : List Event :=
  match p.ledger with
  | some ledger => (reportsUpTo ledger p.requests).map fun r => .reported r.1 r.2.length
  | none => []

def Progress.outcome (p : Progress) : Outcome :=
  match p.overlay with
  | .error f => ⟨p.log ++ p.reportLog, .error f⟩
  | .ok overlay =>
    let rules := p.rules ++ overlay
    ⟨p.log ++ p.reportLog ++ [.compiled rules.length p.findings.length],
      .ok ⟨sheetText rules, p.findings, p.ledger⟩⟩

/-- Compiles a sheet, with settings that override its own. -/
def Sheet.compile (sheet : Sheet) (budgets options : Option (List (Scalar × Value))) : Outcome :=
  match sheet.ledger budgets options with
  | .error f => ⟨[], .error (.settings f)⟩
  | .ok ledger =>
    match compileAll [] ⟨.declare sheet.placeholders, ledger, [], []⟩ sheet.statements with
    | (.error f, p) => ⟨p.log, .error f⟩
    | (.ok (), p) => p.outcome

end StyleBudget
