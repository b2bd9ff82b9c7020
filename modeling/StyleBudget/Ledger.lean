/-
  The ledger: counting the consumers of placeholders against budgets.

  * `Ledger.record` counts selectors for a placeholder under a budget and gives
    the consumers that are now counted, or the finding that stops a strict run;
  * what is counted under any other budget is stored under the total budget as
    well, where it replaces what was there.
-/
import StyleBudget.Repeats
import StyleBudget.Selector
import StyleBudget.Usage

namespace StyleBudget

/-! ## Findings of the ledger -/

def unknownBudgetFinding (placeholder budget : String) : Finding where
  kind := .configuration
  severity := .warning
  message := "The '" ++ budget ++ "' budget is not specified in $ext-budget."
  placeholder := some placeholder
  budget := some budget

/-- The finding about a placeholder with more consumers than its budget allows,
    when the given selectors have extended it. -/
def overrunFinding (severity : Severity) (placeholder budget : String) (limit used : Nat)
    (consumers : List String) : Finding where
  kind := .overBudget
  severity := severity
  message := "%" ++ placeholder ++ " is over the '" ++ budget ++ "' budget by "
    ++ (used - limit).repr ++ " (limit " ++ limit.repr ++ ") when extended from "
    ++ joinSelectors consumers ++ "."
  placeholder := some placeholder
  selector := some (joinSelectors consumers)
  budget := some budget
  overage := some (used - limit : Nat)
  limit := some limit

/-! ## The ledger -/

/-- The settings of a run, what has been counted, and the findings in order. -/
structure Ledger where
  settings : Settings
  usage : Usage
  findings : List Finding := []

/-- A finding that stops a strict run. -/
inductive LedgerFault where
  | repeated (f : Finding)
  | overrun (f : Finding)
  deriving DecidableEq, Repr

def LedgerFault.finding : LedgerFault → Finding
  | repeated f => f
  | overrun f => f

namespace Ledger

/-- A ledger in which nothing has been counted. -/
def start (settings : Settings) : Ledger where
  settings := settings
  usage := ({} : Usage).setUp settings.budgets.keys

def note (ledger : Ledger) (findings : List Finding) : Ledger :=
  { ledger with findings := ledger.findings ++ findings }

def warnings (ledger : Ledger) : List Finding := ledger.findings.filter Finding.isWarning

/-- The usage with the consumers of a placeholder stored under a budget and under
    the total budget, as far as these have been set up. -/
def storedUsage (u : Usage) (budget placeholder : String) (consumers : List String) : Usage :=
  let u := (u.record? budget placeholder consumers).getD u
  if budget = totalBudget then u
  else (u.record? totalBudget placeholder consumers).getD u

def store (ledger : Ledger) (budget placeholder : String) (consumers : List String) : Ledger :=
  { ledger with usage := storedUsage ledger.usage budget placeholder consumers }

/-- The limit of the budget, if that many consumers are more than it allows. -/
def exceededLimit? (ledger : Ledger) (budget : String) (used : Nat) : Option Nat :=
  (ledger.settings.limit? budget).filter fun limit => limit < used

/-- The outcome for the recorded consumers of a placeholder when the given ones
    are the latest: an overrun stops a strict run and may give a finding in any
    other. -/
def checkLimit (ledger : Ledger) (placeholder budget : String) (recorded consumers : List String) :
    Except LedgerFault (List String) × Ledger :=
  match ledger.exceededLimit? budget recorded.length with
  | none => (.ok recorded, ledger)
  | some limit =>
    if ledger.settings.options.strict then
      (.error (.overrun
        (overrunFinding .error placeholder budget limit recorded.length consumers)), ledger)
    else if ledger.settings.options.warnOver then
      (.ok recorded, ledger.note
        [overrunFinding .warning placeholder budget limit recorded.length consumers])
    else (.ok recorded, ledger)

/-- The ledger with a finding about a budget that has not been set up. -/
def noteBudget (ledger : Ledger) (placeholder budget : String) : Ledger :=
  if ledger.usage.contains budget then ledger
  else ledger.note [unknownBudgetFinding placeholder budget]

/-- Counts selectors for a placeholder under a budget. -/
def record (ledger : Ledger) (placeholder budget : String) (consumers : List String) :
    Except LedgerFault (List String) × Ledger :=
  let existing := ledger.usage.consumers budget placeholder
  let noted := ledger.noteBudget placeholder budget
  match dropRepeats placeholder ledger.settings.options (existing ++ consumers) with
  | .error f => (.error (.repeated f), noted)
  | .ok (recorded, findings) =>
    ((noted.note findings).store budget placeholder recorded).checkLimit placeholder budget
      recorded consumers

end Ledger

end StyleBudget
