/-
  Reports: the use of placeholders against their budgets, as text.

  * `budgetText` is a headline for one budget with lines for its placeholders, and
    `budgetReport` the same unless a number in it is too long to be written;
  * `usageReport` puts the reports of all budgets, or of one, under a header.
-/
import StyleBudget.Decimal.Literal
import StyleBudget.Ledger

namespace StyleBudget

/-! ## Faults -/

/-- Why a report cannot be given. -/
inductive ReportFault where
  | unknownBudget (budget : String) (known : List String)
  /-- A number has too many digits to be written. -/
  | overlong
  deriving DecidableEq, Repr

def ReportFault.message : ReportFault → String
  | unknownBudget budget known =>
    "No budget named '" ++ budget ++ "'. Known budgets: " ++ ", ".intercalate known
  | overlong =>
    "Exceeds the limit (" ++ maxIntegerDigits.repr ++ " digits) for integer string conversion; "
      ++ "use sys.set_int_max_str_digits() to increase the limit"

/-! ## One budget -/

/-- The lines of one placeholder: its count against the limit, and its
    consumers.  Within the limit they are left out if only overruns are asked
    for. -/
def placeholderLines (options : Options) (limit : Nat) (placeholder : String)
    (consumers : List String) : List String :=
  let used := consumers.length
  let count := used.repr ++ "/" ++ limit.repr ++ " - %" ++ placeholder
  if limit < used then
    [count, "  !! over by " ++ (used - limit).repr ++ ": " ++ joinSelectors consumers]
  else if options.overOnly then []
  else [count, "    " ++ joinSelectors consumers]

def overCount (limit : Nat) (m : ConsumerMap) : Nat :=
  m.entries.countP fun p => limit < p.2.length

/-- The number of consumers of the last placeholder. -/
def lastUsed (m : ConsumerMap) : Nat :=
  match m.entries.getLast? with
  | some p => p.2.length
  | none => 0

def headline (options : Options) (limit : Nat) (budget : String) (m : ConsumerMap) : String :=
  (if overCount limit m = 0 ∧ options.showAll then "All good!" else "⚠ Check your extends")
    ++ " - " ++ (overCount limit m).repr ++ " of " ++ m.size.repr ++ " " ++ budget
    ++ " (" ++ limit.repr ++ ", " ++ (lastUsed m).repr ++ "/" ++ (limit * m.size).repr
    ++ " ratio)"

/-- The limit of a budget, or zero if it has none. -/
def Settings.bound (settings : Settings) (budget : String) : Nat :=
  (settings.limit? budget).getD 0

/-- The text on a budget; nothing if no placeholder has been used under it. -/
def budgetText (m : ConsumerMap) (budget : String) (settings : Settings) : String :=
  if m.isEmpty then ""
  else
    let limit := settings.bound budget
    let lines := m.entries.flatMap fun p => placeholderLines settings.options limit p.1 p.2
    "\n".intercalate (headline settings.options limit budget m :: lines) ++ "\n\n"

/-- The report on a budget.  The settings decide two numbers in it: the limit, and the limit
    times the number of placeholders, which is no smaller.  All others are lengths of lists and
    never too long. -/
def budgetReport (m : ConsumerMap) (budget : String) (settings : Settings) :
    Except ReportFault String :=
  if isWritable (settings.bound budget * m.size) then .ok (budgetText m budget settings)
  else .error .overlong

/-! ## All budgets -/

def reportHeader : String := "EXTEND BUDGET REPORT\n\n"

def nothingFound : String :=
  "Nothing to see here. Set show-all: true or over-only: false "
    ++ "in $ext-options to list every placeholder.\n"

/-- The name that asks for the report on all budgets. -/
def allBudgets : String := "all"

/-- What stands under the header: the reports on one budget or on all of them,
    or a remark if there is nothing to list. -/
def usageBody (usage : Usage) (settings : Settings) (which : String) :
    Except ReportFault String :=
  let remarked (body : String) := if body = "" then nothingFound else body
  if which = allBudgets then
    (usage.budgets.entries.mapM fun p => budgetReport p.2 p.1 settings).map fun texts =>
      remarked (String.join texts)
  else
    match usage.consumerMap? which with
    | some m => (budgetReport m which settings).map remarked
    | none => .error (.unknownBudget which usage.budgetNames)

/-- The report on one budget or on all of them. -/
def usageReport (usage : Usage) (settings : Settings) (which : String) :
    Except ReportFault String :=
  (usageBody usage settings which).map (reportHeader ++ ·)

def Ledger.report (ledger : Ledger) (which : String) : Except ReportFault String :=
  usageReport ledger.usage ledger.settings which

end StyleBudget
