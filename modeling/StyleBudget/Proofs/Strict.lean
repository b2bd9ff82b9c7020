/-
  A strict run is a run that stops at its first repeat or overrun.

  Two runs with the same settings, except that one of them is strict, are alike as
  long as the other one finds nothing but unknown budgets.  Where it first warns of
  a repeat or of an overrun, the strict run stops with this finding as its fault.

  * `Settings.strictly` sets the flag, `Settings.Lax` is the case in which it is off
    and all findings are told;
  * `Session.call_strictly` is the step, `Session.run_strictly` the run;
  * `Progress.take_strictly` and `Progress.takeAll_strictly` are the same for the
    statements of a sheet;
  * `strict_eq_lax_until_finding` puts both together, for calls and for sheets.
-/
import Mathlib
import StyleBudget.Proofs.Findings
import StyleBudget.Proofs.History
import StyleBudget.Proofs.Places

namespace StyleBudget

/-! ## Strict settings -/

def Settings.strictly (settings : Settings) : Settings :=
  { settings with options := { settings.options with strict := true } }

/-- The run goes on after a finding and tells all of them. -/
structure Settings.Lax (settings : Settings) : Prop where
  strict : settings.options.strict = false
  warnOver : settings.options.warnOver = true
  warnDuplicates : settings.options.warnDuplicates = true

def Ledger.strictly (ledger : Ledger) : Ledger :=
  { ledger with settings := ledger.settings.strictly }

def Session.strictly (s : Session) : Session := { s with ledger := s.ledger.strictly }

def Progress.strictly (p : Progress) : Progress :=
  { p with ledger := p.ledger.map Ledger.strictly }

/-- No finding is a repeat or an overrun. -/
def Harmless (findings : List Finding) : Prop := ∀ f ∈ findings, f.kind = .configuration

theorem harmless_iff {findings : List Finding} :
    Harmless findings ↔ findings.find? Finding.stops = none := by
  simp [Harmless, Finding.stops, List.find?_eq_none]

theorem Settings.Lax.tells {settings : Settings} (h : settings.Lax) (f : Finding) :
    settings.options.tells f = true := by
  rw [Options.tells]
  split
  · rfl
  · exact h.warnDuplicates
  · exact h.warnOver

/-- A recording that tells all that it finds. -/
theorem Settings.Lax.record {ledger : Ledger} (h : ledger.settings.Lax) (placeholder budget : String)
    (consumers : List String) :
    ledger.record placeholder budget consumers =
      (.ok (distinct (ledger.offered placeholder budget consumers)),
        ledger.recorded placeholder budget consumers
          (ledger.found placeholder budget consumers)) := by
  rw [Ledger.record_of_lax h.strict, List.filter_eq_self.2 fun f _ => h.tells f]

/-! ## Calls -/

namespace Session

variable {s : Session}

/-- What the calls give, each made whatever came of those before it. -/
def answers (s : Session) : List Call → List (Except SessionFault (List String))
  | [] => []
  | c :: rest => (s.call c).1 :: (s.call c).2.answers rest

/-- **One call.**  If it finds no repeat and no overrun the strict session does the
    same, and else it stops at the first of these. -/
theorem call_strictly (hl : s.ledger.settings.Lax) (c : Call) :
    ∃ new, (s.call c).2.ledger.findings = s.ledger.findings ++ new ∧
      (s.call c).2.ledger.settings = s.ledger.settings ∧
      (new.find? Finding.stops = none →
        s.strictly.call c = ((s.call c).1, (s.call c).2.strictly)) ∧
      (∀ f, (s.call c).1 ≠ .error (.ledger f)) ∧
      ∀ f, new.find? Finding.stops = some f →
        f.severity = .warning ∧ (s.strictly.call c).1 = .error (.ledger f.fault) := by
  obtain ⟨ledger, inh⟩ := s
  rcases call_uniform inh c with ⟨f, hf, hc⟩ | ⟨inh', hc⟩
  · rw [hc]
    refine ⟨[], (List.append_nil _).symm, rfl, fun _ => hc ledger.strictly,
      fun g hg => hf g (Except.error.inj hg), fun f hn => by cases hn⟩
  · have hlax := hl.record c.placeholder c.budget c.named
    have hfound : ledger.strictly.found c.placeholder c.budget c.named =
        ledger.found c.placeholder c.budget c.named := rfl
    rw [hc, hlax]
    refine ⟨_, rfl, rfl, fun hn => ?_, fun f hf => (by cases hf), fun f hf => ?_⟩
    · refine (hc ledger.strictly).trans ?_
      rw [Ledger.record_of_strict rfl (hfound ▸ hn)]
      rfl
    · refine ⟨Ledger.severity_of_mem_found (List.mem_of_find?_eq_some hf), ?_⟩
      have hstop := congrArg Prod.fst (hc ledger.strictly)
      refine hstop.trans ?_
      have hrecord : (ledger.strictly.record c.placeholder c.budget c.named).1 = .error f.fault :=
        Ledger.record_of_stops rfl (hfound ▸ hf)
      simp only [hrecord]
      rfl

/-- **Calls one after the other.** -/
theorem run_strictly (hl : s.ledger.settings.Lax) (calls : List Call) :
    ∃ new, (s.run calls).ledger.findings = s.ledger.findings ++ new ∧
      (s.run calls).ledger.settings = s.ledger.settings ∧
      (∀ a ∈ s.answers calls, ∀ f, a ≠ .error (.ledger f)) ∧
      (new.find? Finding.stops = none →
        s.strictly.run calls = (s.run calls).strictly ∧
          s.strictly.answers calls = s.answers calls) := by
  induction calls generalizing s with
  | nil =>
    exact ⟨[], (List.append_nil _).symm, rfl, fun a ha => (by cases ha), fun _ => ⟨rfl, rfl⟩⟩
  | cons c rest ih =>
    obtain ⟨new, hnew, hset, hquiet, hanswer, -⟩ := call_strictly hl c
    obtain ⟨more, hmore, hset', hanswers, hquiet'⟩ := ih (s := (s.call c).2) (hset ▸ hl)
    refine ⟨new ++ more, ?_, hset'.trans hset, fun a ha => ?_, fun hn => ?_⟩
    · rw [run, hmore, hnew, List.append_assoc]
    · rcases List.mem_cons.1 ha with rfl | ha
      · exact hanswer
      · exact hanswers a ha
    · rw [List.find?_append, Option.or_eq_none_iff] at hn
      obtain ⟨hrun, hans⟩ := hquiet' hn.2
      rw [run, answers, answers, hquiet hn.1]
      exact ⟨hrun, congrArg _ hans⟩

end Session

/-! ## Statements -/

namespace Progress

variable {p : Progress}

def Lax (p : Progress) : Prop := ∀ ledger, p.ledger = some ledger → ledger.settings.Lax

/-- What the strict run does in the place of a step with new findings. -/
structure FollowsStrictly (p : Progress) (step strictStep : Step) (new : List Finding) : Prop where
  findings : step.2.findings = p.findings ++ new
  lax : step.2.Lax
  quiet : new.find? Finding.stops = none → strictStep = (step.1, step.2.strictly)
  stops : ∀ f, new.find? Finding.stops = some f →
    strictStep.1 = .error (.session (.ledger f.fault))

/-- A step in which nothing is counted. -/
theorem FollowsStrictly.quietly {step strictStep : Step} (hf : step.2.findings = p.findings)
    (hl : step.2.Lax) (hs : strictStep = (step.1, step.2.strictly)) :
    p.FollowsStrictly step strictStep [] where
  findings := by rw [hf, List.append_nil]
  lax := hl
  quiet _ := hs
  stops f hn := by cases hn

/-- The strict run goes no further than its first repeat or overrun. -/
theorem FollowsStrictly.fails {step strictStep : Step} {new : List Finding} {f : Finding}
    (h : p.FollowsStrictly step strictStep new) (hf : new.find? Finding.stops = some f) :
    ∃ q, strictStep = (.error (.session (.ledger f.fault)), q) :=
  ⟨strictStep.2, Prod.ext (h.stops f hf) rfl⟩

theorem extend_strictly (hl : p.Lax) (placeholder flag : String) (parents : List String) :
    p.FollowsStrictly (p.extend placeholder flag parents)
      (p.strictly.extend placeholder flag parents) [] := by
  unfold extend
  split
  · exact .quietly rfl hl rfl
  · have hi : p.strictly.inheritance = p.inheritance := rfl
    rw [hi]
    cases p.inheritance.extend placeholder parents flag with
    | error f => exact .quietly rfl hl rfl
    | ok inh => exact .quietly rfl hl rfl

theorem extCall_strictly (hl : p.Lax) (c : Call) :
    ∃ new, p.FollowsStrictly (p.extCall c) (p.strictly.extCall c) new := by
  cases hp : p.ledger with
  | none =>
    have hs : p.strictly.ledger = none := by rw [strictly, hp]; rfl
    rw [extCall, extCall, ext, ext, hp, hs]
    exact ⟨[], .quietly rfl hl rfl⟩
  | some ledger =>
    have hs : p.strictly.ledger = some ledger.strictly := by rw [strictly, hp]; rfl
    obtain ⟨new, hnew, hset, hquiet, -, hstops⟩ :=
      Session.call_strictly (s := ⟨ledger, some p.inheritance⟩) (hl ledger hp) c
    rw [extCall_of_ledger hp, extCall_of_ledger hs]
    refine ⟨new, ?_, ?_, fun hn => ?_, fun f hf => ?_⟩
    · simpa [Progress.findings, hp] using hnew
    · intro ledger' h'
      obtain rfl := Option.some.inj h'
      exact hset ▸ hl ledger hp
    · have hcall := hquiet hn
      have heq : (⟨ledger.strictly, some p.strictly.inheritance⟩ : Session) =
          Session.strictly ⟨ledger, some p.inheritance⟩ := rfl
      rw [heq, hcall]
      rfl
    · have hcall := (hstops f hf).2
      have heq : (⟨ledger.strictly, some p.strictly.inheritance⟩ : Session) =
          Session.strictly ⟨ledger, some p.inheritance⟩ := rfl
      simp only [heq, hcall]
      rfl

/-- **One statement.** -/
theorem take_strictly (hl : p.Lax) (place : Place) :
    ∃ new, p.FollowsStrictly (p.take place) (p.strictly.take place) new := by
  obtain ⟨parents, s⟩ := place
  cases s with
  | declaration d => exact ⟨[], .quietly rfl hl rfl⟩
  | assign name value => exact ⟨[], .quietly rfl hl rfl⟩
  | rule selectors children => exact ⟨[], .quietly rfl hl rfl⟩
  | extend placeholder flag => exact ⟨[], extend_strictly hl placeholder flag parents⟩
  | mixin name args =>
    have htake : ∀ q : Progress, q.take ⟨parents, .mixin name args⟩ = q.call name args parents :=
      fun _ => rfl
    rw [htake, htake, call, call]
    split
    · rcases callExt_uniform args parents with ⟨f, -, hf⟩ | hc
      · rw [hf, hf]
        exact ⟨[], .quietly rfl hl rfl⟩
      · rw [hc, hc]
        exact extCall_strictly hl _
    · split
      · exact ⟨[], .quietly rfl hl rfl⟩
      · exact ⟨[], .quietly rfl hl rfl⟩

/-- **Statements one after the other.** -/
theorem takeAll_strictly (hl : p.Lax) (places : List Place) :
    ∃ new, p.FollowsStrictly (p.takeAll places) (p.strictly.takeAll places) new := by
  induction places generalizing p with
  | nil => exact ⟨[], .quietly rfl hl rfl⟩
  | cons place rest ih =>
    obtain ⟨new, h⟩ := take_strictly hl place
    rw [takeAll, takeAll]
    rcases hp : p.take place with ⟨f | u, q⟩
    · rw [hp] at h
      refine ⟨new, h.findings, h.lax, fun hn => ?_, fun g hg => ?_⟩
      · rw [h.quiet hn]
      · obtain ⟨q', hq'⟩ := h.fails hg
        rw [hq']
    · rw [hp] at h
      obtain ⟨more, h'⟩ := ih h.lax
      refine ⟨new ++ more, ?_, h'.lax, fun hn => ?_, fun g hg => ?_⟩
      · rw [h'.findings, h.findings, List.append_assoc]
      · rw [List.find?_append, Option.or_eq_none_iff] at hn
        rw [h.quiet hn.1]
        exact h'.quiet hn.2
      · rw [List.find?_append] at hg
        cases hn : new.find? Finding.stops with
        | none =>
          rw [hn, Option.none_or] at hg
          rw [h.quiet hn]
          exact h'.stops g hg
        | some g' =>
          rw [hn, Option.some_or] at hg
          cases hg
          obtain ⟨q', hq'⟩ := h.fails hn
          rw [hq']

/-- The reports do not show whether a run is strict. -/
theorem overlay_strictly (p : Progress) : p.strictly.overlay = p.overlay := by
  have hreport : ∀ (ledger : Ledger) (requests : List String),
      overlayReport ledger.strictly requests = overlayReport ledger requests := fun _ _ => rfl
  have hr : p.strictly.requests = p.requests := rfl
  rw [overlay, overlay, hr]
  cases p.requests with
  | nil => rfl
  | cons which rest =>
    have hs : p.strictly.ledger = p.ledger.map Ledger.strictly := rfl
    rw [hs]
    cases p.ledger with
    | none => rfl
    | some ledger => simp only [Option.map_some, hreport]

theorem findings_strictly (p : Progress) : p.strictly.findings = p.findings := by
  have hs : p.strictly.ledger = p.ledger.map Ledger.strictly := rfl
  rw [findings, findings, hs]
  cases p.ledger <;> rfl

end Progress

/-! ## Sheets -/

/-- What a sheet compiles to if nothing but the flag of its settings is changed. -/
def Compiled.strictly (c : Compiled) : Compiled :=
  { c with ledger := c.ledger.map Ledger.strictly }

theorem Progress.result_strictly (p : Progress) :
    p.strictly.outcome.result = p.outcome.result.map Compiled.strictly := by
  rw [result_outcome, result_outcome, overlay_strictly, findings_strictly]
  cases p.overlay <;> rfl

namespace Sheet

variable {sheet : Sheet} {budgets options budgets' options' : Option (List (Scalar × Value))}

theorem ledger_strictly
    (h : sheet.settings budgets' options' =
      (sheet.settings budgets options).map Settings.strictly) :
    sheet.ledger budgets' options' =
      (sheet.ledger budgets options).map (Option.map Ledger.strictly) := by
  rw [ledger, ledger, h]
  split
  · cases sheet.settings budgets options <;> rfl
  · rfl

/-- The progress at the start has found nothing, and its settings are lax if those
    of the sheet are. -/
theorem begin_of_ledger (hl : ∀ settings, sheet.settings budgets options = .ok settings →
    settings.Lax) {ledger : Option Ledger} (h : sheet.ledger budgets options = .ok ledger) :
    (sheet.begin ledger).Lax ∧ (sheet.begin ledger).findings = [] := by
  rw [Sheet.ledger] at h
  split at h
  · obtain ⟨settings, hs, rfl⟩ := map_eq_ok_iff.1 h
    refine ⟨fun ledger hb => ?_, rfl⟩
    cases hb
    exact hl settings hs
  · cases h
    exact ⟨fun ledger hb => (by cases hb), rfl⟩

/-- **One sheet, twice.**  The strict compilation succeeds where the other one does
    without a repeat or an overrun, and with the same result. -/
theorem result_strictly_iff
    (hl : ∀ settings, sheet.settings budgets options = .ok settings → settings.Lax)
    (hs : sheet.settings budgets' options' = (sheet.settings budgets options).map Settings.strictly)
    {c' : Compiled} :
    (sheet.compile budgets' options').result = .ok c' ↔
      ∃ c, (sheet.compile budgets options).result = .ok c ∧ Harmless c.findings ∧
        c' = c.strictly := by
  rw [result_compile, result_compile, ledger_strictly hs]
  cases hledger : sheet.ledger budgets options with
  | error f => simp [Except.map]
  | ok ledger =>
    obtain ⟨hlax, hnone⟩ := begin_of_ledger hl hledger
    obtain ⟨new, h⟩ := Progress.takeAll_strictly hlax sheet.places
    have hb : sheet.begin (ledger.map Ledger.strictly) = (sheet.begin ledger).strictly := rfl
    simp only [Except.map, hb]
    rcases hq : (sheet.begin ledger).takeAll sheet.places with ⟨f | u, q⟩
    · -- the other run fails, so the strict one fails there or before
      rw [hq] at h
      constructor
      · intro hok
        cases hn : new.find? Finding.stops with
        | none => rw [h.quiet hn] at hok; cases hok
        | some g =>
          obtain ⟨q', hq'⟩ := h.fails hn
          rw [hq'] at hok
          cases hok
      · rintro ⟨c, hc, -⟩
        cases hc
    · rw [hq] at h
      have hfound : q.findings = new := by rw [h.findings, hnone, List.nil_append]
      have hcompiled : ∀ c, q.outcome.result = .ok c → c.findings = new := by
        intro c hc
        rw [Progress.result_outcome] at hc
        cases ho : q.overlay with
        | error f => rw [ho] at hc; cases hc
        | ok overlay => rw [ho] at hc; cases hc; exact hfound
      cases hn : new.find? Finding.stops with
      | none =>
        simp only [h.quiet hn, Progress.result_strictly]
        constructor
        · intro hok
          cases hr : q.outcome.result with
          | error f => rw [hr] at hok; cases hok
          | ok c =>
            rw [hr] at hok
            exact ⟨c, rfl, harmless_iff.2 (hcompiled c hr ▸ hn), (Except.ok.inj hok).symm⟩
        · rintro ⟨c, hc, -, rfl⟩
          rw [hc]
          rfl
      | some g =>
        obtain ⟨q', hq'⟩ := h.fails hn
        rw [hq']
        constructor
        · intro hok
          cases hok
        · rintro ⟨c, hc, hquiet, -⟩
          rw [harmless_iff, hcompiled c hc, hn] at hquiet
          cases hquiet

end Sheet

/-- **A strict run is the other run stopped at its first repeat or overrun.**  As long
    as calls find nothing but unknown budgets, both sessions give the same answers
    and come to the same state, and none of the answers is a fault of the ledger;
    a call that goes on to find a repeat or an overrun stops the strict session with
    the first of them.  So a sheet compiles under strict settings exactly if it
    compiles otherwise without a repeat and an overrun, and then to the same rules,
    with the same findings and the same usage. -/
theorem strict_eq_lax_until_finding :
    (∀ settings : Settings, settings.Lax → ∀ inh before,
      Harmless ((Session.start settings inh).run before).ledger.findings →
      (Session.start settings.strictly inh).run before =
          ((Session.start settings inh).run before).strictly ∧
        (Session.start settings.strictly inh).answers before =
          (Session.start settings inh).answers before ∧
        (∀ a ∈ (Session.start settings.strictly inh).answers before, ∀ f,
          a ≠ .error (.ledger f)) ∧
        ∀ c f, (((Session.start settings inh).run before).call c).2.ledger.findings.find?
            Finding.stops = some f →
          f.severity = .warning ∧
            (((Session.start settings.strictly inh).run before).call c).1 =
              .error (.ledger f.fault)) ∧
    (∀ (sheet : Sheet) (budgets options budgets' options' : Option (List (Scalar × Value))),
      (∀ settings, sheet.settings budgets options = .ok settings → settings.Lax) →
      sheet.settings budgets' options' = (sheet.settings budgets options).map Settings.strictly →
      ((∃ c', (sheet.compile budgets' options').result = .ok c') ↔
        ∃ c, (sheet.compile budgets options).result = .ok c ∧ Harmless c.findings) ∧
      ∀ c c', (sheet.compile budgets options).result = .ok c →
        (sheet.compile budgets' options').result = .ok c' →
        c'.css = c.css ∧ c'.findings = c.findings ∧
          c'.ledger.map Ledger.usage = c.ledger.map Ledger.usage) := by
  constructor
  · intro settings hl inh before hquiet
    have hlax : (Session.start settings inh).ledger.settings.Lax := hl
    obtain ⟨new, hnew, hset, hanswers, hsame⟩ := Session.run_strictly hlax before
    have hfound : ((Session.start settings inh).run before).ledger.findings = new := hnew
    have hnone : new.find? Finding.stops = none := harmless_iff.1 (hfound ▸ hquiet)
    have hstart : Session.start settings.strictly inh = (Session.start settings inh).strictly := rfl
    obtain ⟨hrun, hans⟩ := hsame hnone
    rw [hstart, hrun, hans]
    refine ⟨rfl, rfl, hanswers, fun c f hf => ?_⟩
    obtain ⟨more, hmore, -, -, -, hstops⟩ := Session.call_strictly (hset ▸ hlax) c
    rw [hmore, List.find?_append, hfound, hnone, Option.none_or] at hf
    exact hstops f hf
  · intro sheet budgets options budgets' options' hl hs
    refine ⟨⟨fun ⟨c', hc'⟩ => ?_, fun ⟨c, hc, hquiet⟩ => ?_⟩, fun c c' hc hc' => ?_⟩
    · obtain ⟨c, hc, hquiet, -⟩ := (Sheet.result_strictly_iff hl hs).1 hc'
      exact ⟨c, hc, hquiet⟩
    · exact ⟨c.strictly, (Sheet.result_strictly_iff hl hs).2 ⟨c, hc, hquiet, rfl⟩⟩
    · obtain ⟨c₀, hc₀, -, rfl⟩ := (Sheet.result_strictly_iff hl hs).1 hc'
      obtain rfl := Except.ok.inj (hc₀.symm.trans hc)
      refine ⟨rfl, rfl, ?_⟩
      rw [Compiled.strictly, Option.map_map]
      rfl

def twoConsumers : Settings := ⟨.ofList [("total", 2)], {}⟩

/-- A call for a budget that is not known, and one within the limit. -/
def quietCalls : List Call := [⟨"p", "card", "", [".y"]⟩, ⟨"p", "total", "", [".x"]⟩]

def quietSheet : Sheet where
  statements :=
    [.assign "ext-budget" (.map [(.text "total", .scalar (.int 2))]),
      .rule ["%p"] [.declaration ⟨"color", "red"⟩], .rule [".x"] [.mixin "ext" ["p", "card"]]]

/-- One next call repeats a selector and exceeds the limit, and the repeat comes first; another
    one only exceeds the limit. -/
theorem strict_quietCalls :
    twoConsumers.Lax ∧
      Harmless ((Session.start twoConsumers (some (.declare ["p"]))).run
        quietCalls).ledger.findings ∧
      (((Session.start twoConsumers.strictly (some (.declare ["p"]))).run quietCalls).call
        ⟨"p", "total", "", [".x", ".z"]⟩).1 =
          .error (.ledger (.repeated (repeatFinding .error "p" ".x"))) ∧
      (((Session.start twoConsumers.strictly (some (.declare ["p"]))).run quietCalls).call
        ⟨"p", "total", "", [".z", ".w"]⟩).1 =
          .error (.ledger (.overrun (overrunFinding .error "p" "total" 2 4 [".z", ".w"]))) ∧
      ∃ c', (quietSheet.compile none (some [(.text "strict", .scalar (.bool true))])).result =
        .ok c' := by
  have hl : twoConsumers.Lax := ⟨rfl, rfl, rfl⟩
  have hquiet : Harmless ((Session.start twoConsumers (some (.declare ["p"]))).run
      quietCalls).ledger.findings := by
    rw [harmless_iff]
    cbv
  obtain ⟨-, -, -, hstops⟩ := strict_eq_lax_until_finding.1 twoConsumers hl _ quietCalls hquiet
  have hfirst : (((Session.start twoConsumers (some (.declare ["p"]))).run quietCalls).call
      ⟨"p", "total", "", [".x", ".z"]⟩).2.ledger.findings.find? Finding.stops =
        some (repeatFinding .warning "p" ".x") := by cbv
  have hover : (((Session.start twoConsumers (some (.declare ["p"]))).run quietCalls).call
      ⟨"p", "total", "", [".z", ".w"]⟩).2.ledger.findings.find? Finding.stops =
        some (overrunFinding .warning "p" "total" 2 4 [".z", ".w"]) := by cbv
  have hsettings : quietSheet.settings none none = .ok twoConsumers := rfl
  have hstrict : quietSheet.settings none (some [(.text "strict", .scalar (.bool true))]) =
      .ok twoConsumers.strictly := rfl
  have hok : (quietSheet.compile none none).result.toOption.map
      (fun c => c.findings.map Finding.kind) = some [.configuration] := by cbv
  refine ⟨hl, hquiet, (hstops _ _ hfirst).2, (hstops _ _ hover).2, ?_⟩
  have hsheet := (strict_eq_lax_until_finding.2 quietSheet none none none
    (some [(.text "strict", .scalar (.bool true))])
    (fun settings hs => by rw [hsettings] at hs; exact Except.ok.inj hs ▸ hl)
    (by rw [hsettings, hstrict]; rfl)).1
  refine hsheet.2 ?_
  cases hc : (quietSheet.compile none none).result with
  | error f => rw [hc] at hok; cases hok
  | ok c =>
    rw [hc] at hok
    have hkinds : c.findings.map Finding.kind = [.configuration] := Option.some.inj hok
    refine ⟨c, rfl, fun f hf => ?_⟩
    have hk : f.kind ∈ c.findings.map Finding.kind := List.mem_map_of_mem hf
    rw [hkinds] at hk
    exact List.mem_singleton.1 hk

end StyleBudget
