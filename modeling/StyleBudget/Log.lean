/-
  The log: what happens in a run, one line for each event.

  * `Event` is something that happens;
  * `Event.line` is its line: how grave it is, the part of the program that
    tells it, and what it says.
-/
import StyleBudget.Finding
import StyleBudget.Settings

namespace StyleBudget

/-- Something that happens in a run. -/
inductive Event where
  | started (settings : Settings)
  | found (f : Finding)
  /-- A repeat is found by a filter that nothing listens to. -/
  | unheard (f : Finding)
  | reported (which : String) (length : Nat)
  | compiled (rules findings : Nat)

def Options.shown (o : Options) : String :=
  "ExtOptions(strict=" ++ boolText o.strict ++ ", warn_over=" ++ boolText o.warnOver
    ++ ", warn_duplicates=" ++ boolText o.warnDuplicates ++ ", over_only=" ++ boolText o.overOnly
    ++ ", show_all=" ++ boolText o.showAll ++ ")"

def Settings.shown (settings : Settings) : String :=
  "budgets="
    ++ braced (settings.budgets.entries.map fun p => quoted p.1 ++ ": " ++ p.2.repr)
    ++ " options=" ++ settings.options.shown

def Event.line : Event → String
  | started settings =>
    "DEBUG extbudget.tracking.session: Extend session started: " ++ settings.shown
  | found f => "WARNING extbudget.tracking.session: " ++ f.text
  | unheard f => "WARNING extbudget.tracking.dedupe: " ++ f.text
  | reported which length =>
    "DEBUG extbudget.report.debug: Rendered debug report for " ++ which ++ " ("
      ++ length.repr ++ " chars)"
  | compiled rules findings =>
    "DEBUG extbudget.compiler: Compiled " ++ rules.repr ++ " rule(s) with " ++ findings.repr
      ++ " diagnostic(s)"

end StyleBudget
