/-
  Findings: what is noticed about the use of placeholders.

  * `Finding` is one finding with all it is about;
  * `Finding.text` is its line: how grave it is, the placeholder, the message;
  * `readKindAndSeverity` reads the words for a kind and a severity.
-/
import StyleBudget.Text.Quoted

namespace StyleBudget

/-! ## Findings -/

inductive Severity where
  | error
  | warning
  | info
  deriving DecidableEq, Repr

def Severity.word : Severity → String
  | error => "ERROR"
  | warning => "WARNING"
  | info => "INFO"

def Severity.ofWord? (word : String) : Option Severity :=
  [error, warning, info].find? fun s => s.word == word

inductive FindingKind where
  /-- A budget that the settings do not know. -/
  | configuration
  /-- A selector that inherits a placeholder again. -/
  | duplicate
  /-- A placeholder with more consumers than its budget allows. -/
  | overBudget
  deriving DecidableEq, Repr

def FindingKind.word : FindingKind → String
  | configuration => "configuration"
  | duplicate => "duplicate"
  | overBudget => "over_budget"

def FindingKind.ofWord? (word : String) : Option FindingKind :=
  [configuration, duplicate, overBudget].find? fun k => k.word == word

/-- A word that names no kind of finding or no severity. -/
inductive WordFault where
  | kind (word : String)
  | severity (word : String)
  deriving DecidableEq, Repr

def WordFault.message : WordFault → String
  | kind word => quoted word ++ " is not a valid DiagnosticKind"
  | severity word => quoted word ++ " is not a valid Severity"

/-- The kind and the severity of two words, of which the kind is read first. -/
def readKindAndSeverity (kind severity : String) : Except WordFault (FindingKind × Severity) :=
  match FindingKind.ofWord? kind, Severity.ofWord? severity with
  | none, _ => .error (.kind kind)
  | some _, none => .error (.severity severity)
  | some k, some s => .ok (k, s)

/-- A finding, with those of placeholder, selector, budget, overage and limit
    that it is about. -/
structure Finding where
  kind : FindingKind
  severity : Severity
  message : String
  placeholder : Option String := none
  selector : Option String := none
  budget : Option String := none
  overage : Option Int := none
  limit : Option Int := none
  deriving DecidableEq, Repr

namespace Finding

def isError (f : Finding) : Bool := f.severity == .error

def isWarning (f : Finding) : Bool := f.severity == .warning

/-- The line of a finding; an empty placeholder is left out like an absent one. -/
def text (f : Finding) : String :=
  let place := match f.placeholder with
    | some "" | none => ""
    | some p => " [%" ++ p ++ "]"
  f.severity.word ++ place ++ ": " ++ f.message

end Finding

end StyleBudget
