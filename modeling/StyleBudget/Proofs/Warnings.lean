/-
  The warning flags say what is told, and nothing else.

  Two runs that are not strict and differ only in their warning flags do the same
  things.  Either of them is the run that tells everything, seen through its flags.

  * `Settings.Alike`: the settings differ in nothing but the two flags;
  * `Settings.telling` sets both flags, and `Session.toldBy` is what a session
    would be with other flags;
  * `Ledger.record_toldBy` and `Session.call_toldBy` are the step,
    `Session.run_toldBy` is the run;
  * `Session.findings_eq_filter` is the result for two runs.
-/
import StyleBudget.Proofs.Findings
import StyleBudget.Proofs.Strict

namespace StyleBudget

/-! ## Settings -/

/-- The settings differ in nothing but the warning flags. -/
structure Settings.Alike (settings settings' : Settings) : Prop where
  budgets : settings'.budgets = settings.budgets
  options : ∀ flag, flag ≠ .warnOver → flag ≠ .warnDuplicates →
    settings'.options.get flag = settings.options.get flag

/-- The settings with both warning flags set. -/
def Settings.telling (settings : Settings) : Settings :=
  { settings with options := { settings.options with warnOver := true, warnDuplicates := true } }

theorem Settings.Alike.telling_eq {settings settings' : Settings} (h : settings.Alike settings') :
    settings'.telling = settings.telling := by
  obtain ⟨budgets, options⟩ := settings
  obtain ⟨budgets', options'⟩ := settings'
  obtain rfl : budgets' = budgets := h.budgets
  have hstrict : options'.strict = options.strict := h.options .strict nofun nofun
  have honly : options'.overOnly = options.overOnly := h.options .overOnly nofun nofun
  have hall : options'.showAll = options.showAll := h.options .showAll nofun nofun
  simp only [Settings.telling, hstrict, honly, hall]

theorem Settings.lax_telling {settings : Settings} (h : settings.options.strict = false) :
    settings.telling.Lax := ⟨h, rfl, rfl⟩

/-- The findings about budgets that have not been set up. -/
def unknownBudgetsOf (findings : List Finding) : List Finding :=
  findings.filter fun f => f.kind = .configuration

theorem unknownBudgetsOf_filter_tells (findings : List Finding) (options : Options) :
    unknownBudgetsOf (findings.filter options.tells) = unknownBudgetsOf findings := by
  rw [unknownBudgetsOf, List.filter_filter]
  refine List.filter_congr fun f _ => ?_
  cases hk : f.kind <;> simp [Options.tells, hk]

/-! ## Sessions under other flags -/

/-- The ledger as other settings would have told it. -/
def Ledger.toldBy (ledger : Ledger) (settings : Settings) : Ledger where
  settings := settings
  usage := ledger.usage
  findings := ledger.findings.filter settings.options.tells

def Session.toldBy (s : Session) (settings : Settings) : Session :=
  { s with ledger := s.ledger.toldBy settings }

theorem Session.start_toldBy {settings : Settings} (inh : Option Inheritance) :
    (Session.start settings.telling inh).toldBy settings = Session.start settings inh := rfl

section

variable {ledger : Ledger} {settings : Settings} {placeholder budget : String}
  {consumers : List String}

/-- A recording finds the same under other flags. -/
theorem Ledger.found_toldBy (hb : settings.budgets = ledger.settings.budgets) :
    (ledger.toldBy settings).found placeholder budget consumers =
      ledger.found placeholder budget consumers := by
  have hlimit : ∀ used, (ledger.toldBy settings).exceededLimit? budget used =
      ledger.exceededLimit? budget used := by
    intro used
    simp only [exceededLimit?, Settings.limit?, toldBy, hb]
  have hoverrun : (ledger.toldBy settings).foundOverrun placeholder budget consumers =
      ledger.foundOverrun placeholder budget consumers := by
    simp only [foundOverrun, hlimit]
    rfl
  rw [found, found, hoverrun]
  rfl

/-- **One recording.**  Under other flags it gives the same list and stores the same
    consumers, and what it tells is filtered. -/
theorem Ledger.record_toldBy (hl : ledger.settings.Lax)
    (hb : settings.budgets = ledger.settings.budgets) (hs : settings.options.strict = false)
    (placeholder budget : String) (consumers : List String) :
    (ledger.toldBy settings).record placeholder budget consumers =
      ((ledger.record placeholder budget consumers).1,
        (ledger.record placeholder budget consumers).2.toldBy settings) := by
  have hall := hl.record placeholder budget consumers
  have hlax : (ledger.toldBy settings).settings.options.strict = false := hs
  rw [record_of_lax hlax, hall, found_toldBy hb]
  have hfindings : (ledger.findings ++ ledger.found placeholder budget consumers).filter
      settings.options.tells =
        (ledger.toldBy settings).findings ++
          (ledger.found placeholder budget consumers).filter settings.options.tells :=
    List.filter_append ..
  refine Prod.ext rfl ?_
  simp only [recorded, toldBy] at hfindings ⊢
  rw [hfindings]
  rfl

end

namespace Session

variable {s : Session} {settings : Settings}

/-- **One call.** -/
theorem call_toldBy (hl : s.ledger.settings.Lax)
    (hb : settings.budgets = s.ledger.settings.budgets) (hs : settings.options.strict = false)
    (c : Call) :
    (s.toldBy settings).call c = ((s.call c).1, (s.call c).2.toldBy settings) ∧
      (s.call c).2.ledger.settings = s.ledger.settings := by
  obtain ⟨ledger, inh⟩ := s
  rcases call_uniform inh c with ⟨f, -, hc⟩ | ⟨inh', hc⟩
  · rw [hc]
    exact ⟨hc (ledger.toldBy settings), rfl⟩
  · have hrecord := Ledger.record_toldBy hl hb hs c.placeholder c.budget c.named
    rw [hc]
    refine ⟨?_, ?_⟩
    · refine (hc (ledger.toldBy settings)).trans ?_
      rw [hrecord]
      rfl
    · rw [Ledger.record_of_lax hl.strict]
      rfl

/-- **Calls one after the other.** -/
theorem run_toldBy (hl : s.ledger.settings.Lax)
    (hb : settings.budgets = s.ledger.settings.budgets) (hs : settings.options.strict = false)
    (calls : List Call) :
    (s.toldBy settings).run calls = (s.run calls).toldBy settings ∧
      (s.toldBy settings).answers calls = s.answers calls := by
  induction calls generalizing s with
  | nil => exact ⟨rfl, rfl⟩
  | cons c rest ih =>
    obtain ⟨hcall, hset⟩ := call_toldBy hl hb hs c
    obtain ⟨hrun, hanswers⟩ := ih (s := (s.call c).2) (hset ▸ hl) (hset ▸ hb)
    rw [run, run, answers, answers, hcall]
    exact ⟨hrun, congrArg _ hanswers⟩

/-- A run is the one that tells everything, seen through its flags. -/
theorem run_telling (hs : settings.options.strict = false) (inh : Option Inheritance)
    (calls : List Call) :
    (start settings inh).run calls = ((start settings.telling inh).run calls).toldBy settings ∧
      (start settings inh).answers calls = (start settings.telling inh).answers calls := by
  have hlax : (start settings.telling inh).ledger.settings.Lax := Settings.lax_telling hs
  have hbudgets : settings.budgets = (start settings.telling inh).ledger.settings.budgets := rfl
  rw [← start_toldBy inh]
  exact run_toldBy hlax hbudgets hs calls

/-- **The warning flags only filter.**  Let two runs that are not strict differ in
    nothing but their warning flags, and take any calls, made on whether or not those
    before them failed.  Then both give the same answers, count the same and inherit
    the same; the findings of each are those of the run that tells everything, in
    order, without the repeats or the overruns that its flags leave out; and neither
    leaves out a finding about a budget that is not known. -/
theorem findings_eq_filter {settings settings' : Settings}
    (hs : settings.options.strict = false) (h : settings.Alike settings')
    (inh : Option Inheritance) (calls : List Call) :
    (start settings' inh).answers calls = (start settings inh).answers calls ∧
    ((start settings' inh).run calls).ledger.usage =
      ((start settings inh).run calls).ledger.usage ∧
    ((start settings' inh).run calls).inheritance =
      ((start settings inh).run calls).inheritance ∧
    (((start settings inh).run calls).ledger.findings =
        ((start settings.telling inh).run calls).ledger.findings.filter settings.options.tells ∧
      ((start settings' inh).run calls).ledger.findings =
        ((start settings.telling inh).run calls).ledger.findings.filter settings'.options.tells) ∧
    unknownBudgetsOf ((start settings inh).run calls).ledger.findings =
        unknownBudgetsOf ((start settings.telling inh).run calls).ledger.findings ∧
      unknownBudgetsOf ((start settings' inh).run calls).ledger.findings =
        unknownBudgetsOf ((start settings.telling inh).run calls).ledger.findings := by
  have hs' : settings'.options.strict = false := (h.options .strict nofun nofun).trans hs
  obtain ⟨hrun, hanswers⟩ := run_telling hs inh calls
  obtain ⟨hrun', hanswers'⟩ := run_telling hs' inh calls
  rw [h.telling_eq] at hrun' hanswers'
  have hfindings := congrArg (fun s : Session => s.ledger.findings) hrun
  have hfindings' := congrArg (fun s : Session => s.ledger.findings) hrun'
  refine ⟨hanswers'.trans hanswers.symm, ?_, ?_, ⟨hfindings, hfindings'⟩, ?_, ?_⟩
  · rw [hrun, hrun']
    rfl
  · rw [hrun, hrun']
    rfl
  · exact (congrArg unknownBudgetsOf hfindings).trans (unknownBudgetsOf_filter_tells ..)
  · exact (congrArg unknownBudgetsOf hfindings').trans (unknownBudgetsOf_filter_tells ..)

end Session

/-- Settings that do not tell of overruns, and settings that do not tell of repeats. -/
def overrunsUntold : Settings := ⟨.ofList [("total", 1)], { warnOver := false }⟩

def repeatsUntold : Settings := ⟨.ofList [("total", 1)], { warnDuplicates := false }⟩

/-- A call for a budget that is not known, one that fails, and one that repeats a
    selector and exceeds the limit. -/
def noisyCalls : List Call :=
  [⟨"p", "card", "", [".x"]⟩, ⟨"q", "total", "", [".x"]⟩, ⟨"p", "total", "", [".x", ".y"]⟩]

theorem findings_noisyCalls :
    overrunsUntold.options.strict = false ∧ overrunsUntold.Alike repeatsUntold ∧
      (Session.start repeatsUntold (some (.declare ["p"]))).answers noisyCalls =
        (Session.start overrunsUntold (some (.declare ["p"]))).answers noisyCalls ∧
      ((Session.start overrunsUntold (some (.declare ["p"]))).run noisyCalls).ledger.findings =
        [unknownBudgetFinding "p" "card", repeatFinding .warning "p" ".x"] ∧
      ((Session.start repeatsUntold (some (.declare ["p"]))).run noisyCalls).ledger.findings =
        [unknownBudgetFinding "p" "card",
          overrunFinding .warning "p" "total" 1 2 [".x", ".y"]] := by
  have halike : overrunsUntold.Alike repeatsUntold :=
    ⟨rfl, fun flag hover hrepeat => by cases flag <;> first | rfl | contradiction⟩
  have htold : ((Session.start overrunsUntold.telling (some (.declare ["p"]))).run
      noisyCalls).ledger.findings =
        [unknownBudgetFinding "p" "card", repeatFinding .warning "p" ".x",
          overrunFinding .warning "p" "total" 1 2 [".x", ".y"]] := by cbv
  obtain ⟨hanswers, -, -, ⟨hfindings, hfindings'⟩, -⟩ :=
    Session.findings_eq_filter rfl halike (some (.declare ["p"])) noisyCalls
  rw [htold] at hfindings hfindings'
  exact ⟨rfl, halike, hanswers, hfindings, hfindings'⟩

end StyleBudget
