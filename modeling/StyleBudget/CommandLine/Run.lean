/-
  The command line: `compile` writes a style sheet, `report` the use of its
  placeholders.

  * `run` gives the whole response to a list of arguments on a disk: what is
    printed, what is written, and the exit code;
  * `mentionedPaths` are the paths that it looks at.
-/
import StyleBudget.CommandLine.Arguments
import StyleBudget.CommandLine.Disk
import StyleBudget.CommandLine.Json
import StyleBudget.CommandLine.Setting
import StyleBudget.Compile

namespace StyleBudget

/-! ## Responses -/

/-- A fault outside the program that ends it. -/
inductive Crash where
  | undecodable
  | overlong (digits : Nat)
  /-- A number in a report has too many digits. -/
  | overlongReport
  | unwritable (fault : WriteFault)
  deriving DecidableEq, Repr

def Crash.message : Crash → String
  | undecodable => "the style sheet is not UTF-8"
  | overlong digits => overlongMessage digits
  | overlongReport => ReportFault.overlong.message
  | unwritable .noDirectory => "the directory of the output does not exist"
  | unwritable .notDirectory => "the output lies below a file"
  | unwritable .isDirectory => "the output is a directory"

/-- What a run does. -/
structure Response where
  exitCode : Nat := 0
  stdout : String := ""
  stderr : String := ""
  crash : Option Crash := none
  written : Option (String × String) := none

namespace Response

/-- The response with a text printed to the error output before everything else. -/
def after (r : Response) (text : String) : Response := { r with stderr := text ++ r.stderr }

def failure (exitCode : Nat) (message : String) : Response :=
  { exitCode := exitCode, stderr := "Error: " ++ message ++ "\n" }

def ofCrash (crash : Crash) : Response := { exitCode := 1, crash := some crash }

end Response

/-! ## Commands and options -/

inductive Command where
  | compile
  | report
  deriving DecidableEq, Repr

def Command.name : Command → String
  | compile => "compile"
  | report => "report"

def Command.ofName? (name : String) : Option Command :=
  [Command.compile, Command.report].find? fun c => c.name == name

def programOptions : List OptionSpec :=
  [{ key := .version, long := "--version" },
    { key := .verbose, long := "--verbose", short := some 'v' },
    { key := .help, long := "--help" }]

def Command.options : Command → List OptionSpec
  | compile =>
    shared ++ [{ key := .output, long := "--output", short := some 'o', hasValue := true }]
  | report =>
    shared ++ [{ key := .only, long := "--only", hasValue := true },
      { key := .json, long := "--json" }]
where
  shared : List OptionSpec :=
    [{ key := .budget, long := budgetOption, hasValue := true },
      { key := .flag, long := flagOption, hasValue := true },
      { key := .help, long := "--help" }]

/-! ## Wrong usage -/

def programUsage : String :=
  "Usage: cli [OPTIONS] COMMAND [ARGS]...\n"

def Command.usage (c : Command) : String :=
  "Usage: cli " ++ c.name ++ " [OPTIONS] STYLESHEET\n"

def Command.misused (c : Command) (message : String) : Response :=
  (Response.failure 2 message).after
    (c.usage ++ "Try 'cli " ++ c.name ++ " --help' for help.\n\n")

def programMisused (message : String) : Response :=
  (Response.failure 2 message).after (programUsage ++ "Try 'cli --help' for help.\n\n")

/-- The response to arguments that cannot be read: an unknown option comes with
    the usage. -/
def argumentsRefused (misused : String → Response) (f : ArgumentFault) : Response :=
  match f with
  | .unknownOption _ => misused f.message
  | _ => Response.failure 2 f.message

/-- What is said of a path that holds no file. -/
def pathRefused (parameter path remark : String) : String :=
  "Invalid value for " ++ parameter ++ ": File " ++ quoted path ++ " " ++ remark

/-! ## Running a command -/

/-- What a command works on once its arguments are in order. -/
structure Job where
  verbose : Bool
  stylesheet : String
  bytes : ByteArray
  output : Option String
  only : String
  json : Bool

/-- The response to a report that cannot be given: only a name that is not known is told. -/
def reportRefused (f : ReportFault) : Response :=
  match f with
  | .unknownBudget .. => .failure 1 f.message
  | .overlong => .ofCrash .overlongReport

/-- The response to a style sheet that does not compile. -/
def compilationRefused (f : CompileFault) : Response :=
  match f with
  | .report f => reportRefused f
  | f => .failure 1 f.message

/-- The log of a run, if it is asked for. -/
def Job.logText (job : Job) (log : List Event) : String :=
  if job.verbose then linesText (log.map Event.line) else ""

/-- The response of `compile` to a compiled sheet: it is written to a file if one
    is named, and printed otherwise. -/
def Job.compiled (job : Job) (disk : Disk) (c : Compiled) : Response :=
  match job.output with
  | none | some "" => { stdout := c.css }
  | some path =>
    match disk.writeFault? path with
    | some f => .ofCrash (.unwritable f)
    | none =>
      { stderr := "Wrote " ++ path ++ " (" ++ c.findings.length.repr ++ " warning(s))\n"
        written := some (path, c.css) }

def Job.reported (job : Job) (c : Compiled) : Response :=
  match c.ledger with
  | none => { stdout := "No ext() directives found; nothing to report.\n" }
  | some ledger =>
    if job.json then { stdout := jsonUsage ledger.usage ++ "\n" }
    else
      match ledger.report job.only with
      | .error f => reportRefused f
      | .ok text =>
        { stdout := text, stderr := job.logText [.reported job.only text.length] }

def Job.unread (job : Job) (source : List Char) (f : ReadFault) : Response :=
  match f with
  | .overlong digits => .ofCrash (.overlong digits)
  | .complaint c =>
    let p := c.position source
    { exitCode := 1
      stderr := "Parse error in " ++ baseName job.stylesheet ++ ":" ++ p.line.repr ++ ":"
        ++ p.column.repr ++ ": " ++ c.message source ++ "\n" }

def limitEntries (t : Table String Int) : List (Scalar × Value) :=
  t.entries.map fun p => (.text p.1, .scalar (.int p.2))

def flagEntries (t : Table String Bool) : List (Scalar × Value) :=
  t.entries.map fun p => (.text p.1, .scalar (.bool p.2))

/-- Compiles the style sheet and goes on with a command; the log and the findings
    are printed first. -/
def Job.run (job : Job) (command : Command) (disk : Disk)
    (budgets : Option (Table String Int)) (options : Option (Table String Bool)) : Response :=
  match decodeText? job.bytes with
  | none => .ofCrash .undecodable
  | some source =>
    match Sheet.read source with
    | .error f => job.unread source f
    | .ok sheet =>
      let outcome := sheet.compile (budgets.map limitEntries) (options.map flagEntries)
      let response := match outcome.result with
        | .error f => compilationRefused f
        | .ok c =>
          let response := match command with
            | .compile => job.compiled disk c
            | .report => job.reported c
          response.after (linesText (c.findings.map Finding.text))
      response.after (job.logText outcome.log)

/-- Reads the settings of a command and runs it. -/
def Job.start (job : Job) (command : Command) (disk : Disk) (limits flags : List String) :
    Response :=
  match readLimits limits with
  | .error e => command.misused e.message
  | .ok budgets =>
    match readFlags flags with
    | .error e => command.misused e.message
    | .ok options => job.run command disk budgets options

/-- Checks the paths of a command and starts it. -/
def Command.checked (c : Command) (verbose : Bool) (s : Scanned) (disk : Disk) : Response :=
  let output := s.last? .output
  match output.map disk.entry, s.positional with
  | some .directory, _ =>
    c.misused (pathRefused "'-o' / '--output'" (output.getD "") "is a directory.")
  | _, [] => c.misused "Missing argument 'STYLESHEET'."
  | _, path :: excess =>
    match disk.entry path with
    | .missing => c.misused (pathRefused "'STYLESHEET'" path "does not exist.")
    | .directory => c.misused (pathRefused "'STYLESHEET'" path "is a directory.")
    | .file bytes =>
      match excess with
      | [] =>
        Job.start ⟨verbose, path, bytes, output, (s.last? .only).getD allBudgets, s.has .json⟩ c
          disk (s.values .budget) (s.values .flag)
      | [arg] => c.misused ("Got unexpected extra argument (" ++ arg ++ ")")
      | args => c.misused ("Got unexpected extra arguments (" ++ " ".intercalate args ++ ")")

def Command.run (c : Command) (verbose : Bool) (args : List String) (disk : Disk) : Response :=
  match scanArguments c.options true args with
  | .error f => argumentsRefused c.misused f
  | .ok s => if s.has .help then { stdout := c.usage } else c.checked verbose s disk

def versionText : String := "extbudget, version 0.1.0\n"

/-- The response to arguments that ask for help or the version, and to those that
    name no command. -/
def Scanned.withoutCommand (s : Scanned) : Response :=
  match (s.options.find? fun p => p.1 = .version ∨ p.1 = .help).map Prod.fst with
  | some .version => { stdout := versionText }
  | some _ => { stdout := programUsage }
  | none =>
    match s.positional with
    | [] => if s.options.isEmpty then { exitCode := 2, stderr := programUsage }
      else programMisused "Missing command."
    | name :: _ => programMisused ("No such command " ++ quoted name ++ ".")

/-- The command that arguments name, unless they ask for help or the version. -/
def Scanned.command? (s : Scanned) : Option (Command × List String) :=
  if s.has .version || s.has .help then none
  else
    match s.positional with
    | [] => none
    | name :: args => (Command.ofName? name).map fun c => (c, args)

def run (args : List String) (disk : Disk) : Response :=
  match scanArguments programOptions false args with
  | .error f => argumentsRefused programMisused f
  | .ok s =>
    match s.command? with
    | some (c, args) => c.run (s.has .verbose) args disk
    | none => s.withoutCommand

/-! ## Paths -/

/-- The paths that the program looks at when it is called with these arguments. -/
def mentionedPaths (args : List String) : List String :=
  match scanArguments programOptions false args with
  | .error _ => []
  | .ok s =>
    match s.command? with
    | none => []
    | some (c, args) =>
      match scanArguments c.options true args with
      | .error _ => []
      | .ok s => s.positional.take 1 ++ (s.last? .output).toList

end StyleBudget
