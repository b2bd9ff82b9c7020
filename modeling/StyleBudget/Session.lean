/-
  Sessions: extending placeholders with their use counted.

  * `Session.ext` lets the selectors of a rule inherit a placeholder and counts
    them under a budget;
  * it gives the session that follows also if it fails, so that a caller may go
    on.
-/
import StyleBudget.Inheritance
import StyleBudget.Ledger

namespace StyleBudget

/-- A ledger, and the inheritance that counted extensions take part in, if there
    is one. -/
structure Session where
  ledger : Ledger
  inheritance : Option Inheritance := none

/-- Why a placeholder cannot be extended with its use counted. -/
inductive SessionFault where
  | outsideSelector
  | inheritance (f : InheritanceFault)
  | ledger (f : LedgerFault)
  deriving DecidableEq, Repr

def SessionFault.message : SessionFault → String
  | outsideSelector => "cannot extend outside a selector"
  | inheritance f => f.message
  | ledger f => f.finding.message

namespace Session

/-- The inheritance after an extension, if there is an inheritance at all. -/
def inherit (inh : Option Inheritance) (placeholder : String) (selectors : List String)
    (flag : String) : Except InheritanceFault (Option Inheritance) :=
  match inh with
  | none => .ok none
  | some inh => (inh.extend placeholder selectors flag).map some

/-- The selectors inherit a placeholder and are counted under a budget; empty
    selectors do not count.  The answer is the list of consumers counted for the
    placeholder. -/
def ext (session : Session) (placeholder budget flag : String) (selectors : List String) :
    Except SessionFault (List String) × Session :=
  let consumers := selectors.filter fun s => s ≠ ""
  if consumers.isEmpty then (.error .outsideSelector, session)
  else
    match inherit session.inheritance placeholder consumers flag with
    | .error f => (.error (.inheritance f), session)
    | .ok inh =>
      let (outcome, ledger) := session.ledger.record placeholder budget consumers
      (outcome.mapError SessionFault.ledger, ⟨ledger, inh⟩)

end Session

end StyleBudget
