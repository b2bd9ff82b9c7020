/-
  What a run leaves behind.

  A run that fails prints nothing to the output and leaves the disk as it is; every fault is
  found before the first character is put out.

  * `Disk.write` and `Response.applied` are what a response does to the disk, and
    `Disk.OnlyWritten` says that one file has changed and nothing else;
  * `Response.Refused` are the responses of runs that fail, `Delivered` those of runs that
    do what they were asked for;
  * each step of a command either refuses or goes on: `Job.run_cases`, `Command.run_cases`
    and `run_cases`;
  * `run_complete` is the result.
-/
import Mathlib.Data.List.Infix
import Mathlib.Tactic.Tauto
import StyleBudget.CommandLine.Run

namespace StyleBudget

/-! ## The disk after a run -/

namespace Disk

variable {disk : Disk} {path text : String}

/-- The disk with a text in the file at a path. -/
def write (disk : Disk) (path text : String) : Disk :=
  { disk with files := (path, text.toUTF8) :: disk.files }

/-- The second disk differs from the first in one file only, which holds a text. -/
structure OnlyWritten (path text : String) (disk disk' : Disk) : Prop where
  file : disk'.file? (pathParts path) = some text.toUTF8
  files : ∀ parts, parts ≠ pathParts path → disk'.file? parts = disk.file? parts
  directories : ∀ parts, disk'.isDirectory parts = disk.isDirectory parts

theorem file?_write (parts : List String) :
    (disk.write path text).file? parts =
      if parts = pathParts path then some text.toUTF8 else disk.file? parts := by
  by_cases h : parts = pathParts path
  · simp [file?, write, h]
  · have h' : ¬ pathParts path = parts := fun he => h he.symm
    simp [file?, write, h, h']

/-- Where something can be written, all directories on the way are there. -/
theorem isDirectory_of_parent (h : disk.writeFault? path = none) {parts : List String}
    (hp : parts <+: pathParts path) (hne : parts ≠ pathParts path) :
    disk.isDirectory parts = true := by
  simp only [writeFault?] at h
  split at h
  · cases h
  · split at h
    · rename_i hnone
      have hlt : parts.length < (pathParts path).length := by
        refine Nat.lt_of_le_of_ne hp.length_le fun he => ?_
        exact hne (hp.eq_of_length he)
      have hmem : parts ∈ (List.range (pathParts path).length).map (pathParts path).take :=
        List.mem_map.2 ⟨parts.length, List.mem_range.2 hlt, (List.prefix_iff_eq_take.1 hp).symm⟩
      simpa using List.find?_eq_none.1 hnone parts hmem
    · split at h
      · cases h
      · cases h

theorem isDirectory_write (h : disk.writeFault? path = none) (parts : List String) :
    (disk.write path text).isDirectory parts = disk.isDirectory parts := by
  have hadded : (disk.write path text).isDirectory parts = true ↔
      disk.isDirectory parts = true ∨ (parts <+: pathParts path ∧ parts ≠ pathParts path) := by
    simp only [isDirectory, write, List.any_cons, Bool.or_eq_true, Bool.and_eq_true,
      List.isPrefixOf_iff_prefix, decide_eq_true_eq]
    tauto
  rw [Bool.eq_iff_iff, hadded]
  constructor
  · rintro (hd | ⟨hp, hne⟩)
    · exact hd
    · exact isDirectory_of_parent h hp hne
  · exact .inl

theorem onlyWritten_write (h : disk.writeFault? path = none) (text : String) :
    OnlyWritten path text disk (disk.write path text) where
  file := by rw [file?_write, if_pos rfl]
  files := fun parts hne => by rw [file?_write, if_neg hne]
  directories := isDirectory_write h

end Disk

/-- What a response does to the disk. -/
def Response.applied (r : Response) (disk : Disk) : Disk :=
  match r.written with
  | none => disk
  | some (path, text) => disk.write path text

/-! ## Refusals -/

/-- The response fails, prints nothing to the output and writes nothing. -/
structure Response.Refused (r : Response) : Prop where
  exitCode : r.exitCode ≠ 0
  stdout : r.stdout = ""
  written : r.written = none

namespace Response.Refused

variable {r : Response}

theorem after (h : r.Refused) (text : String) : (r.after text).Refused :=
  ⟨h.exitCode, h.stdout, h.written⟩

theorem failure {exitCode : Nat} (h : exitCode ≠ 0) (message : String) :
    (Response.failure exitCode message).Refused :=
  ⟨h, rfl, rfl⟩

theorem ofCrash (crash : Crash) : (Response.ofCrash crash).Refused :=
  ⟨Nat.one_ne_zero, rfl, rfl⟩

theorem misused (c : Command) (message : String) : (c.misused message).Refused :=
  (failure (by decide) message).after _

theorem programMisused (message : String) : (StyleBudget.programMisused message).Refused :=
  (failure (by decide) message).after _

theorem argumentsRefused {misused : String → Response} (h : ∀ message, (misused message).Refused)
    (f : ArgumentFault) : (StyleBudget.argumentsRefused misused f).Refused := by
  cases f with
  | unknownOption name => exact h _
  | noValue name => exact failure (by decide) _
  | excessValue name => exact failure (by decide) _

theorem unread (job : Job) (source : List Char) (f : ReadFault) :
    (job.unread source f).Refused := by
  cases f with
  | complaint c => exact ⟨Nat.one_ne_zero, rfl, rfl⟩
  | overlong digits => exact ofCrash _

theorem reportRefused (f : ReportFault) : (StyleBudget.reportRefused f).Refused := by
  cases f with
  | unknownBudget budget known => exact failure Nat.one_ne_zero _
  | overlong => exact ofCrash _

theorem compilationRefused (f : CompileFault) : (StyleBudget.compilationRefused f).Refused := by
  cases f with
  | report f => exact reportRefused f
  | _ => exact failure Nat.one_ne_zero _

end Response.Refused

/-! ## Success -/

/-- The response succeeds and writes nothing. -/
structure Response.Informs (r : Response) : Prop where
  exitCode : r.exitCode = 0
  written : r.written = none

/-- The response of a command that has compiled a sheet: the output goes to the file that is
    named, or nothing is written. -/
inductive Delivered (command : Command) (output : Option String) (disk : Disk) (c : Compiled)
    (r : Response) : Prop
  | toFile (path : String) (hc : command = .compile) (ho : output = some path) (hne : path ≠ "")
    (hexit : r.exitCode = 0) (hstdout : r.stdout = "") (hw : r.written = some (path, c.css))
    (hf : disk.writeFault? path = none)
  | printed (ho : command = .report ∨ output.getD "" = "") (hexit : r.exitCode = 0)
    (hstdout : command = .compile → r.stdout = c.css) (hw : r.written = none)

theorem Delivered.after {command : Command} {output : Option String} {disk : Disk} {c : Compiled}
    {r : Response} (h : Delivered command output disk c r) (text : String) :
    Delivered command output disk c (r.after text) := by
  cases h with
  | toFile path hc ho hne hexit hstdout hw hf => exact .toFile path hc ho hne hexit hstdout hw hf
  | printed ho hexit hstdout hw => exact .printed ho hexit hstdout hw

namespace Job

variable (job : Job) (disk : Disk) (c : Compiled)

theorem compiled_cases : (job.compiled disk c).Refused ∨
    Delivered .compile job.output disk c (job.compiled disk c) := by
  unfold compiled
  split
  · rename_i ho
    exact .inr (.printed (.inr (by rw [ho]; rfl)) rfl (fun _ => rfl) rfl)
  · rename_i ho
    exact .inr (.printed (.inr (by rw [ho]; rfl)) rfl (fun _ => rfl) rfl)
  · rename_i path hne ho
    cases hf : disk.writeFault? path with
    | some f => exact .inl (.ofCrash _)
    | none => exact .inr (.toFile path rfl ho hne rfl rfl rfl hf)

theorem reported_cases : (job.reported c).Refused ∨
    Delivered .report job.output disk c (job.reported c) := by
  have hprinted : ∀ r : Response, r.exitCode = 0 → r.written = none →
      Delivered .report job.output disk c r :=
    fun r he hw => .printed (.inl rfl) he (fun h => by cases h) hw
  unfold reported
  split
  · exact .inr (hprinted _ rfl rfl)
  · split
    · exact .inr (hprinted _ rfl rfl)
    · split
      · exact .inl (.reportRefused _)
      · exact .inr (hprinted _ rfl rfl)

/-- A style sheet is read and compiled with the settings that are given, and what it gives is
    delivered; or the run is refused. -/
theorem run_cases (command : Command) (budgets : Option (Table String Int))
    (options : Option (Table String Bool)) :
    (job.run command disk budgets options).Refused ∨
      ∃ source sheet c, decodeText? job.bytes = some source ∧ Sheet.read source = .ok sheet ∧
        (sheet.compile (budgets.map limitEntries) (options.map flagEntries)).result = .ok c ∧
        Delivered command job.output disk c (job.run command disk budgets options) := by
  unfold run
  split
  · exact .inl (.ofCrash _)
  · rename_i source hsource
    split
    · exact .inl (.unread job source _)
    · rename_i sheet hsheet
      cases hc : (sheet.compile (budgets.map limitEntries) (options.map flagEntries)).result with
      | error f =>
        simp only [hc]
        exact .inl ((Response.Refused.compilationRefused f).after _)
      | ok c =>
        simp only [hc]
        cases command with
        | compile =>
          rcases job.compiled_cases disk c with hr | hd
          · exact .inl ((hr.after _).after _)
          · exact .inr ⟨source, sheet, c, hsource, hsheet, hc, (hd.after _).after _⟩
        | report =>
          rcases job.reported_cases disk c with hr | hd
          · exact .inl ((hr.after _).after _)
          · exact .inr ⟨source, sheet, c, hsource, hsheet, hc, (hd.after _).after _⟩

end Job

/-! ## Commands -/

/-- The style sheet that the arguments of a command name is read and compiled with the settings
    that they give. -/
def Compiles (s : Scanned) (disk : Disk) (c : Compiled) : Prop :=
  ∃ path bytes source sheet budgets options,
    s.positional = [path] ∧ disk.entry path = .file bytes ∧ decodeText? bytes = some source ∧
      Sheet.read source = .ok sheet ∧ readLimits (s.values .budget) = .ok budgets ∧
      readFlags (s.values .flag) = .ok options ∧
      (sheet.compile (budgets.map limitEntries) (options.map flagEntries)).result = .ok c

theorem Command.checked_cases (command : Command) (verbose : Bool) (s : Scanned) (disk : Disk) :
    (command.checked verbose s disk).Refused ∨ ∃ c, Compiles s disk c ∧
      Delivered command (s.last? .output) disk c (command.checked verbose s disk) := by
  unfold checked
  simp only
  split
  · exact .inl (.misused _ _)
  · exact .inl (.misused _ _)
  · rename_i path excess hpos _
    split
    · exact .inl (.misused _ _)
    · exact .inl (.misused _ _)
    · rename_i bytes hentry
      split
      · unfold Job.start
        split
        · exact .inl (.misused _ _)
        · rename_i budgets hb
          split
          · exact .inl (.misused _ _)
          · rename_i options ho
            rcases Job.run_cases _ disk command budgets options with
              hr | ⟨source, sheet, c, hsource, hsheet, hc, hd⟩
            · exact .inl hr
            · exact .inr ⟨c, ⟨path, bytes, source, sheet, budgets, options, hpos, hentry, hsource,
                hsheet, hb, ho, hc⟩, hd⟩
      · exact .inl (.misused _ _)
      · exact .inl (.misused _ _)

/-- The arguments call a command with options and other arguments of its own. -/
def Calls (args : List String) (command : Command) (s : Scanned) : Prop :=
  ∃ program rest, scanArguments programOptions false args = .ok program ∧
    program.command? = some (command, rest) ∧ scanArguments command.options true rest = .ok s

/-- The arguments ask the program for help or its version, or a command for help. -/
def AsksForHelp (args : List String) : Prop :=
  (∃ program, scanArguments programOptions false args = .ok program ∧
    (program.has .version = true ∨ program.has .help = true)) ∨
  ∃ command s, Calls args command s ∧ s.has .help = true

theorem withoutCommand_cases (s : Scanned) : s.withoutCommand.Refused ∨
    ((s.has .version = true ∨ s.has .help = true) ∧ s.withoutCommand.Informs) := by
  unfold Scanned.withoutCommand
  cases hf : s.options.find? fun p => p.1 = .version ∨ p.1 = .help with
  | none =>
    simp only [Option.map_none]
    split
    · split
      · exact .inl ⟨by decide, rfl, rfl⟩
      · exact .inl (.programMisused _)
    · exact .inl (.programMisused _)
  | some p =>
    have hm := List.mem_of_find?_eq_some hf
    have hp : p.1 = .version ∨ p.1 = .help := by simpa using List.find?_some hf
    refine .inr ?_
    rcases hp with hp | hp
    · refine ⟨.inl (List.any_eq_true.2 ⟨p, hm, by simpa using hp⟩), ?_⟩
      rw [Option.map_some, hp]
      exact ⟨rfl, rfl⟩
    · refine ⟨.inr (List.any_eq_true.2 ⟨p, hm, by simpa using hp⟩), ?_⟩
      rw [Option.map_some, hp]
      exact ⟨rfl, rfl⟩

theorem run_cases (args : List String) (disk : Disk) :
    (run args disk).Refused ∨ (AsksForHelp args ∧ (run args disk).Informs) ∨
      ∃ command s c, Calls args command s ∧ Compiles s disk c ∧
        Delivered command (s.last? .output) disk c (run args disk) := by
  unfold run
  split
  · exact .inl (.argumentsRefused .programMisused _)
  · rename_i program hprogram
    split
    · rename_i command rest hcommand
      unfold Command.run
      split
      · exact .inl (.argumentsRefused (.misused command) _)
      · rename_i s hs
        have hcalls : Calls args command s := ⟨program, rest, hprogram, hcommand, hs⟩
        by_cases hh : s.has .help = true
        · rw [if_pos hh]
          exact .inr (.inl ⟨.inr ⟨command, s, hcalls, hh⟩, rfl, rfl⟩)
        · rw [if_neg hh]
          rcases command.checked_cases (program.has .verbose) s disk with hr | ⟨c, hc, hd⟩
          · exact .inl hr
          · exact .inr (.inr ⟨command, s, c, hcalls, hc, hd⟩)
    · rcases withoutCommand_cases program with hr | ⟨hh, hi⟩
      · exact .inl hr
      · exact .inr (.inl ⟨.inl ⟨program, hprogram, hh⟩, hi⟩)

/-! ## No partial output -/

/-- **No partial output.**  A run that fails prints nothing to the output and leaves the disk as it
    is.  One that succeeds, and was not asked for help, has read and compiled the style sheet
    without a fault; with a file named for the output that file and nothing else is written,
    and nothing is printed. -/
theorem run_complete (args : List String) (disk : Disk) :
    ((run args disk).exitCode ≠ 0 →
      (run args disk).stdout = "" ∧ (run args disk).applied disk = disk) ∧
    ((run args disk).exitCode = 0 → ¬ AsksForHelp args →
      ∃ command s c, Calls args command s ∧ Compiles s disk c ∧
        (command = .compile → ∀ path, s.last? .output = some path → path ≠ "" →
          (run args disk).stdout = "" ∧
            Disk.OnlyWritten path c.css disk ((run args disk).applied disk)) ∧
        (command = .report ∨ (s.last? .output).getD "" = "" →
          (command = .compile → (run args disk).stdout = c.css) ∧
            (run args disk).applied disk = disk)) := by
  have happlied : ∀ r : Response, r.written = none → r.applied disk = disk := by
    intro r hw
    rw [Response.applied, hw]
  rcases run_cases args disk with hr | ⟨hh, hi⟩ | ⟨command, s, c, hcalls, hc, hd⟩
  · refine ⟨fun _ => ⟨hr.stdout, happlied _ hr.written⟩, fun he => ?_⟩
    exact absurd he hr.exitCode
  · exact ⟨fun he => absurd hi.exitCode he, fun _ hn => absurd hh hn⟩
  · cases hd with
    | toFile path hcommand ho hne hexit hstdout hwritten hf =>
      refine ⟨fun he => absurd hexit he, fun _ _ => ⟨command, s, c, hcalls, hc, ?_, ?_⟩⟩
      · intro _ path' ho' _
        obtain rfl := Option.some.inj (ho.symm.trans ho')
        refine ⟨hstdout, ?_⟩
        rw [Response.applied, hwritten]
        exact Disk.onlyWritten_write hf _
      · rintro (hreport | hempty)
        · rw [hcommand] at hreport; cases hreport
        · rw [ho] at hempty
          exact absurd hempty hne
    | printed ho hexit hstdout hwritten =>
      refine ⟨fun he => absurd hexit he, fun _ _ => ⟨command, s, c, hcalls, hc, ?_, ?_⟩⟩
      · rintro rfl path' ho' hne
        rcases ho with ho | ho
        · cases ho
        · rw [ho'] at ho
          exact absurd ho hne
      · intro _
        exact ⟨hstdout, happlied _ hwritten⟩

/-- A style sheet in one file. -/
def plainDisk : Disk where
  files := [("a", "%p \x7b b: c \x7d .x \x7b @extend %p; \x7d".toUTF8)]

theorem run_complete_plainDisk :
    (run ["compile", "c", "-o", "b"] plainDisk).applied plainDisk = plainDisk ∧
      (run ["compile", "a", "-o", "b"] plainDisk).stdout = "" ∧
      ∃ s c, Compiles s plainDisk c ∧ Disk.OnlyWritten "b" c.css plainDisk
        ((run ["compile", "a", "-o", "b"] plainDisk).applied plainDisk) := by
  have hmissing : (run ["compile", "c", "-o", "b"] plainDisk).exitCode ≠ 0 := by
    decide +kernel
  have hfine : (run ["compile", "a", "-o", "b"] plainDisk).exitCode = 0 := by
    decide +kernel
  have hprogram : (scanArguments programOptions false ["compile", "a", "-o", "b"]).toOption.map
      (fun s => (s.options, s.positional)) = some ([], ["compile", "a", "-o", "b"]) := by
    decide +kernel
  have hscanned : (scanArguments Command.compile.options true ["a", "-o", "b"]).toOption.map
      (fun s => (s.options, s.positional)) = some ([(.output, "b")], ["a"]) := by decide +kernel
  have hcalls : ∀ command s, Calls ["compile", "a", "-o", "b"] command s →
      command = .compile ∧ s = ⟨[(.output, "b")], ["a"]⟩ := by
    rintro command ⟨options, positional⟩ ⟨⟨_, _⟩, rest, hp, hc, hs⟩
    rw [hp] at hprogram
    cases hprogram
    obtain ⟨rfl, rfl⟩ := Prod.mk.inj (Option.some.inj
      ((by decide +kernel : some (Command.compile, ["a", "-o", "b"]) = _).trans hc))
    rw [hs] at hscanned
    cases hscanned
    exact ⟨rfl, rfl⟩
  have hhelp : ¬ AsksForHelp ["compile", "a", "-o", "b"] := by
    rintro (⟨⟨_, _⟩, hp, hh⟩ | ⟨command, s, hc, hh⟩)
    · rw [hp] at hprogram
      cases hprogram
      exact absurd hh (by decide)
    · obtain ⟨-, rfl⟩ := hcalls command s hc
      exact absurd hh (by decide)
  refine ⟨((run_complete _ plainDisk).1 hmissing).2, ?_⟩
  obtain ⟨command, s, c, hc, hcompiles, hfile, -⟩ := (run_complete _ plainDisk).2 hfine hhelp
  obtain ⟨rfl, rfl⟩ := hcalls command s hc
  obtain ⟨hstdout, hdisk⟩ := hfile rfl "b" (by decide) (by decide)
  exact ⟨hstdout, _, c, hcompiles, hdisk⟩

end StyleBudget
