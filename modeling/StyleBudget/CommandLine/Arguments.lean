/-
  The arguments of a command: options and what stands between them.

  * `OptionSpec` describes an option: its names, and whether it has a value;
  * `scanArguments` takes the options out of a list of arguments.  A value is
    attached with an equals sign, directly after a one-letter name, or is the
    next argument; two hyphens alone end the options.
-/
import StyleBudget.Text.Blank

namespace StyleBudget

/-! ## Options -/

/-- An option of the program or of one of its commands. -/
inductive OptionKey where
  | verbose
  | version
  | help
  | budget
  | flag
  | output
  | json
  | only
  deriving DecidableEq, Repr

/-- The names of an option, and whether it has a value. -/
structure OptionSpec where
  key : OptionKey
  long : String
  short : Option Char := none
  hasValue : Bool := false

/-- Why arguments cannot be read. -/
inductive ArgumentFault where
  | unknownOption (name : String)
  | noValue (name : String)
  | excessValue (name : String)
  deriving DecidableEq, Repr

def ArgumentFault.message : ArgumentFault → String
  | unknownOption name => "No such option: " ++ name
  | noValue name => "Option '" ++ name ++ "' requires an argument."
  | excessValue name => "Option '" ++ name ++ "' does not take a value."

/-- The options that were given, with their values, and the other arguments. -/
structure Scanned where
  options : List (OptionKey × String) := []
  positional : List String := []

namespace Scanned

def values (s : Scanned) (key : OptionKey) : List String :=
  s.options.filterMap fun p => if p.1 = key then some p.2 else none

def has (s : Scanned) (key : OptionKey) : Bool := s.options.any fun p => p.1 = key

def last? (s : Scanned) (key : OptionKey) : Option String := (s.values key).getLast?

end Scanned

/-! ## One argument -/

/-- What one argument gives: options, and an option whose value is the next
    argument, with the name it was called by. -/
structure Matched where
  options : List (OptionKey × String) := []
  pending : Option (OptionKey × String) := none

/-- The options of a group of one-letter names. -/
def matchLetters (specs : List OptionSpec) : List Char → Except ArgumentFault Matched
  | [] => .ok {}
  | c :: rest =>
    match specs.find? fun spec => spec.short = some c with
    | none => .error (.unknownOption (String.ofList ['-', c]))
    | some spec =>
      if spec.hasValue then
        if rest.isEmpty then .ok { pending := some (spec.key, String.ofList ['-', c]) }
        else .ok { options := [(spec.key, String.ofList rest)] }
      else
        (matchLetters specs rest).map fun m => { m with options := (spec.key, "") :: m.options }

/-- The name of an option and the value attached to it with an equals sign. -/
def cutValue (arg : String) : String × Option String :=
  match cutAt? '=' arg.toList with
  | none => (arg, none)
  | some (name, value) => (String.ofList name, some (String.ofList value))

/-- The options that an argument with a hyphen gives. -/
def matchArgument (specs : List OptionSpec) (arg : String) : Except ArgumentFault Matched :=
  let (name, value) := cutValue arg
  match specs.find? fun spec => spec.long = name with
  | some spec =>
    match value with
    | some v =>
      if spec.hasValue then .ok { options := [(spec.key, v)] } else .error (.excessValue name)
    | none =>
      if spec.hasValue then .ok { pending := some (spec.key, name) }
      else .ok { options := [(spec.key, "")] }
  | none =>
    match arg.toList with
    | '-' :: '-' :: _ => .error (.unknownOption name)
    | _ :: letters => matchLetters specs letters
    | [] => .error (.unknownOption name)

/-! ## All arguments -/

/-- The argument is made of a hyphen and something after it. -/
def looksLikeOption (arg : String) : Bool :=
  match arg.toList with
  | '-' :: _ :: _ => true
  | _ => false

def Scanned.prepend (options : List (OptionKey × String)) (s : Scanned) : Scanned :=
  { s with options := options ++ s.options }

/-- Takes the options out of a list of arguments, of all or only of those before
    the first other argument. -/
def scanArguments (specs : List OptionSpec) (anywhere : Bool) :
    List String → Except ArgumentFault Scanned
  | [] => .ok {}
  | arg :: rest =>
    if arg = "--" then .ok { positional := rest }
    else if looksLikeOption arg then
      match matchArgument specs arg, rest with
      | .error e, _ => .error e
      | .ok ⟨options, none⟩, rest => (scanArguments specs anywhere rest).map (·.prepend options)
      | .ok ⟨_, some (_, name)⟩, [] => .error (.noValue name)
      | .ok ⟨options, some (key, _)⟩, value :: rest =>
        (scanArguments specs anywhere rest).map (·.prepend (options ++ [(key, value)]))
    else if anywhere then
      (scanArguments specs anywhere rest).map fun s =>
        { s with positional := arg :: s.positional }
    else .ok { positional := arg :: rest }

end StyleBudget
