/-
  The settings of a run: a limit for each budget, and five flags.

  * `Flag` and `Options` are the flags, `Flag.ofName?` reads the name of one
    with hyphens or underscores;
  * `Settings.resolve` checks the two maps that a user gives, the budgets first,
    and gives the settings or the first fault in the order of the entries;
  * `overlay` puts a map that overrides on top of another.
-/
import StyleBudget.Table
import StyleBudget.Value

namespace StyleBudget

/-! ## Flags -/

inductive Flag where
  | strict
  | warnOver
  | warnDuplicates
  | overOnly
  | showAll
  deriving DecidableEq, Repr

namespace Flag

def name : Flag → String
  | strict => "strict"
  | warnOver => "warn-over"
  | warnDuplicates => "warn-duplicates"
  | overOnly => "over-only"
  | showAll => "show-all"

def all : List Flag := [strict, warnOver, warnDuplicates, overOnly, showAll]

/-- A name with its underscores written as hyphens. -/
def hyphenated (s : String) : String :=
  String.ofList (s.toList.map fun c => if c == '_' then '-' else c)

/-- The flag of a name, in which underscores count as hyphens. -/
def ofName? (s : String) : Option Flag := all.find? fun flag => flag.name == hyphenated s

end Flag

/-- The values of the flags. -/
structure Options where
  /-- A repeat or an overrun stops the run. -/
  strict : Bool := false
  /-- An overrun gives a finding. -/
  warnOver : Bool := true
  /-- A repeat gives a finding. -/
  warnDuplicates : Bool := true
  /-- Reports list only what is over its limit. -/
  overOnly : Bool := true
  /-- Reports say so if all is good. -/
  showAll : Bool := true
  deriving DecidableEq, Repr

namespace Options

def get (o : Options) : Flag → Bool
  | .strict => o.strict
  | .warnOver => o.warnOver
  | .warnDuplicates => o.warnDuplicates
  | .overOnly => o.overOnly
  | .showAll => o.showAll

def set (o : Options) (flag : Flag) (b : Bool) : Options :=
  match flag with
  | .strict => { o with strict := b }
  | .warnOver => { o with warnOver := b }
  | .warnDuplicates => { o with warnDuplicates := b }
  | .overOnly => { o with overOnly := b }
  | .showAll => { o with showAll := b }

theorem get_set (o : Options) (flag flag' : Flag) (b : Bool) :
    (o.set flag b).get flag' = if flag' = flag then b else o.get flag' := by
  cases flag <;> cases flag' <;> rfl

end Options

/-! ## Faults -/

/-- Why two maps are no settings. -/
inductive SettingsFault where
  | noBudgets
  | budgetsNotMap (found : Value)
  | emptyBudgets
  | badLimit (name : String) (found : Value)
  | optionsNotMap (found : Value)
  | unknownOption (name : String)
  | badOption (name : String) (found : Value)

def SettingsFault.message : SettingsFault → String
  | noBudgets => "No budget table found. Define $ext-budget, e.g. (total: 15)."
  | budgetsNotMap found =>
    "The budget table must be a map of names to limits, got " ++ found.shown ++ "."
  | emptyBudgets => "The budget table is empty. Add at least one budget."
  | badLimit name found =>
    "Budget '" ++ name ++ "' must be a positive integer, got " ++ found.shown ++ "."
  | optionsNotMap found =>
    "Options must be a map of flag names to booleans, got " ++ found.shown ++ "."
  | unknownOption name =>
    "Unknown option '" ++ name ++ "'. Known options: " ++ ", ".intercalate (Flag.all.map Flag.name)
      ++ "."
  | badOption name found =>
    "Option '" ++ name ++ "' must be true or false, got " ++ found.shown ++ "."

/-! ## Options from a map -/

namespace Options

def setEntry (o : Options) (key : Scalar) (value : Value) : Except SettingsFault Options :=
  match Flag.ofName? key.keyText, value with
  | none, _ => .error (.unknownOption key.keyText)
  | some flag, .scalar (.bool b) => .ok (o.set flag b)
  | some _, v => .error (.badOption key.keyText v)

/-- The options with the entries of a map put on top, from first to last. -/
def setEntries (o : Options) : List (Scalar × Value) → Except SettingsFault Options
  | [] => .ok o
  | (key, value) :: rest =>
    match o.setEntry key value with
    | .error e => .error e
    | .ok o => o.setEntries rest

/-- The options that a value gives; the absent value gives the defaults. -/
def ofValue : Value → Except SettingsFault Options
  | .scalar .null => .ok {}
  | .map entries => setEntries {} entries
  | v => .error (.optionsNotMap v)

def getNamed (o : Options) (name : String) : Except SettingsFault Bool :=
  match Flag.ofName? name with
  | some flag => .ok (o.get flag)
  | none => .error (.unknownOption name)

end Options

/-! ## Limits from a map -/

/-- The name of the budget that every inheritance counts for. -/
def totalBudget : String := "total"

def setLimit (limits : Table String Nat) (key : Scalar) (value : Value) :
    Except SettingsFault (Table String Nat) :=
  match value with
  | .scalar (.int n) =>
    if n < 1 then .error (.badLimit key.keyText value)
    else .ok (limits.insert key.keyText n.toNat)
  | _ => .error (.badLimit key.keyText value)

/-- A table of limits with the entries of a map put on top, from first to last. -/
def setLimits (limits : Table String Nat) :
    List (Scalar × Value) → Except SettingsFault (Table String Nat)
  | [] => .ok limits
  | (key, value) :: rest =>
    match setLimit limits key value with
    | .error e => .error e
    | .ok limits => setLimits limits rest

def limitsOfValue : Value → Except SettingsFault (Table String Nat)
  | .scalar .null => .error .noBudgets
  | .map [] => .error .emptyBudgets
  | .map entries => setLimits .empty entries
  | v => .error (.budgetsNotMap v)

/-! ## Settings -/

/-- The limits of the budgets and the options of a run. -/
structure Settings where
  budgets : Table String Nat
  options : Options := {}

namespace Settings

def limit? (settings : Settings) (budget : String) : Option Nat := settings.budgets.get? budget

/-- The settings that a map of limits and a map of options give. -/
def resolve (budgets options : Value) : Except SettingsFault Settings :=
  match limitsOfValue budgets with
  | .error e => .error e
  | .ok limits =>
    match Options.ofValue options with
    | .error e => .error e
    | .ok options => .ok ⟨limits, options⟩

end Settings

/-! ## Maps on top of maps -/

/-- The entries of a map with those of another put on top. -/
def overlayEntries (base overrides : List (Scalar × Value)) : List (Scalar × Value) :=
  overrides.foldl (fun entries p => insertPair p.1 p.2 entries) base

/-- A value with the entries that override it, if there are any: they stand for
    an absent value, and a value that is no map stays as it is, so that its
    fault is told. -/
def overlay (base : Value) (overrides : Option (List (Scalar × Value))) : Value :=
  match overrides, base with
  | none, base => base
  | some entries, .scalar .null => .map entries
  | some entries, .map baseEntries => .map (overlayEntries baseEntries entries)
  | some _, base => base

end StyleBudget
