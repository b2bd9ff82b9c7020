/-
  Settings on the command line: `name=limit` and `name=flag`.

  * `readLimits` and `readFlags` read all values that were given, or tell the
    fault of the first that cannot be read;
  * of settings with one name the first gives the place and the last the value.
-/
import StyleBudget.Decimal.Literal
import StyleBudget.Table
import StyleBudget.Text.Quoted

namespace StyleBudget

/-! ## Faults -/

/-- Why the values of an option cannot be read. -/
inductive SettingFault where
  /-- No name, or no equals sign after it. -/
  | noPair (option text : String)
  | noInteger (option name text : String)
  | noTruthValue (option name text : String)
  deriving DecidableEq, Repr

def SettingFault.message : SettingFault → String
  | noPair option text =>
    "Invalid value for " ++ option ++ ": expected NAME=VALUE, got " ++ quoted text
  | noInteger option name text =>
    "Invalid value for " ++ option ++ ": limit for '" ++ name ++ "' must be an integer, got "
      ++ quoted text
  | noTruthValue option name text =>
    "Invalid value for " ++ option ++ ": '" ++ name ++ "' must be true or false, got "
      ++ quoted text

/-! ## Pairs -/

/-- The name before the first equals sign and the text after it, without white
    space around them; there is none without an equals sign or with a blank
    name. -/
def readPair? (text : String) : Option (String × String) :=
  (cutAt? '=' text.toList).bind fun (name, value) =>
    if (trim name).isEmpty then none
    else some (String.ofList (trim name), String.ofList (trim value))

/-- A truth value in one of four spellings, in any letter case. -/
def readTruthValue? (text : String) : Option Bool :=
  let word := String.ofList (text.toList.map Char.toLower)
  if word ∈ ["true", "1", "yes", "on"] then some true
  else if word ∈ ["false", "0", "no", "off"] then some false
  else none

/-! ## Lists of settings -/

def budgetOption : String := "--budget"

def flagOption : String := "--option"

def readLimit (text : String) : Except SettingFault (String × Int) :=
  match readPair? text with
  | none => .error (.noPair budgetOption text)
  | some (name, value) =>
    match readInteger? value.toList with
    | some n => .ok (name, n)
    | none => .error (.noInteger budgetOption name value)

def readFlag (text : String) : Except SettingFault (String × Bool) :=
  match readPair? text with
  | none => .error (.noPair flagOption text)
  | some (name, value) =>
    match readTruthValue? value with
    | some b => .ok (name, b)
    | none => .error (.noTruthValue flagOption name value)

/-- A table of the settings that all texts write, if there are texts at all. -/
def readSettings {α : Type} (read : String → Except SettingFault (String × α))
    (texts : List String) : Except SettingFault (Option (Table String α)) :=
  if texts.isEmpty then .ok none
  else
    match texts.mapM read with
    | .error e => .error e
    | .ok pairs => .ok (some (.ofList pairs))

def readLimits : List String → Except SettingFault (Option (Table String Int)) :=
  readSettings readLimit

def readFlags : List String → Except SettingFault (Option (Table String Bool)) :=
  readSettings readFlag

end StyleBudget
