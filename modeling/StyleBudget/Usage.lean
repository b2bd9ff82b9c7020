/-
  Usage: which selectors have been counted for which placeholder, under each
  budget.

  * `Usage` keeps the budgets in the order in which they were set up, and under
    each the placeholders in the order of their first use;
  * `Usage.setUp` sets the budgets up once;
  * `Usage.record?` stores the consumers of a placeholder under a budget.
-/
import StyleBudget.Table
import StyleBudget.Value

namespace StyleBudget

/-! ## Usage -/

abbrev ConsumerMap := Table String (List String)

/-- The consumers of each placeholder under each budget. -/
structure Usage where
  budgets : Table String ConsumerMap := .empty

namespace Usage

/-- One empty map for each budget, unless some budget is there already. -/
def setUp (u : Usage) (names : List String) : Usage :=
  if u.budgets.isEmpty then ⟨.ofList (names.map fun name => (name, .empty))⟩ else u

def contains (u : Usage) (budget : String) : Bool := u.budgets.contains budget

def budgetNames (u : Usage) : List String := u.budgets.keys

/-- The consumers of each placeholder under a budget that has been set up. -/
def consumerMap? (u : Usage) (budget : String) : Option ConsumerMap := u.budgets.get? budget

/-- The consumers of a placeholder under a budget; none if it has not been used. -/
def consumers (u : Usage) (budget placeholder : String) : List String :=
  ((u.consumerMap? budget).bind fun m => m.get? placeholder).getD []

/-- The usage with the consumers of a placeholder stored under a budget, if the
    budget has been set up. -/
def record? (u : Usage) (budget placeholder : String) (consumers : List String) :
    Option Usage :=
  (u.consumerMap? budget).map fun m => ⟨u.budgets.insert budget (m.insert placeholder consumers)⟩

def missingMessage (budget : String) : String := quoted budget

/-- The number of placeholders under each budget, on one line. -/
def summary (u : Usage) : String :=
  "UsageRegistry(placeholders="
    ++ braced (u.budgets.entries.map fun (name, m) => quoted name ++ ": " ++ m.size.repr) ++ ")"

end Usage

end StyleBudget
