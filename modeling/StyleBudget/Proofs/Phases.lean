/-
  Compilation in two phases.

  In the first phase the extensions of a sheet are made in the order of its
  statements, and only they change what is inherited and counted.  In the second
  phase the rules are written in the same order, with the placeholders expanded as
  the whole first phase has left them.

  * `Sheet.directives` are the extensions, `Sheet.inherited` and `Sheet.counted`
    what they lead to; `Inheritance.foldl_follow`: the first is a run of extensions;
  * `Sheet.output` are the rules of the second phase, each with its selectors and
    declarations;
  * `Place.Acts` is what taking a statement comes to, in whatever progress;
  * `Progress.Reaches` is what taking statements has changed: `reaches_of_take` is
    the step, `reaches_of_takeAll` the run;
  * `Progress.Shows` says which rules stand behind the others;
  * `Sheet.compile_eq_phases` is the result about sheets that compile.
-/
import Mathlib
import StyleBudget.Proofs.Extensions
import StyleBudget.Proofs.Lines
import StyleBudget.Proofs.Places

namespace StyleBudget

/-! ## First phase -/

/-- An extension of a placeholder by the selectors around it. -/
inductive Directive where
  | counted (c : Call)
  | plain (placeholder flag : String) (selectors : List String)

def Place.directive? (place : Place) : Option Directive :=
  match place.statement with
  | .mixin name args =>
    if name = extMixin then some (.counted (.ofArguments args place.parents)) else none
  | .extend placeholder flag => some (.plain placeholder flag place.parents)
  | _ => none

/-- The budget on which a statement asks for a report. -/
def Place.request? (place : Place) : Option String :=
  match place.statement with
  | .mixin name args => if name = reportMixin then some (args.headD allBudgets) else none
  | _ => none

/-- The consumers after a directive; one that fails leaves them as they are. -/
def Inheritance.follow (inh : Inheritance) : Directive → Inheritance
  | .counted c => (inh.extend c.placeholder c.named c.flag).toOption.getD inh
  | .plain placeholder flag selectors => (inh.extend placeholder selectors flag).toOption.getD inh

/-- The extension that a directive asks for. -/
def Directive.extension : Directive → Extension
  | .counted c => c.extension
  | .plain placeholder flag selectors => ⟨placeholder, flag, selectors⟩

theorem Inheritance.follow_eq_after (inh : Inheritance) (d : Directive) :
    inh.follow d = inh.after d.extension := by
  cases d <;> rfl

/-- The directives of a sheet are a run of extensions. -/
theorem Inheritance.foldl_follow (inh : Inheritance) (ds : List Directive) :
    ds.foldl follow inh = inh.afterAll (ds.map Directive.extension) := by
  rw [afterAll, List.foldl_map]
  simp only [← follow_eq_after]

/-- The session after a directive.  Only a counted one is a call; any other goes to
    the inheritance of the session. -/
def Session.follow (s : Session) : Directive → Session
  | .counted c => (s.call c).2
  | .plain placeholder flag selectors =>
    { s with inheritance := s.inheritance.map fun inh =>
        inh.follow (.plain placeholder flag selectors) }

namespace Sheet

/-- The extensions of a sheet, in the order of its statements. -/
def directives (sheet : Sheet) : List Directive := sheet.places.filterMap Place.directive?

/-- The budgets on which reports are asked for, in the order of the statements. -/
def requests (sheet : Sheet) : List String := sheet.places.filterMap Place.request?

/-- What the placeholders of a sheet inherit after its last directive. -/
def inherited (sheet : Sheet) : Inheritance :=
  sheet.directives.foldl Inheritance.follow (.declare sheet.placeholders)

/-- A fresh session after all directives of a sheet. -/
def counted (sheet : Sheet) (settings : Settings) : Session :=
  sheet.directives.foldl Session.follow ⟨.start settings, some (.declare sheet.placeholders)⟩

end Sheet

/-! ## Second phase -/

/-- The rule that is written for a statement: it needs a declaration of its own and
    a selector that is left when the placeholders are expanded. -/
def Place.output? (inh : Inheritance) (place : Place) : Option Block :=
  match place.statement with
  | .rule selectors children =>
    if declarationsOf children ≠ [] ∧ inh.expand (nestSelectors place.parents selectors) ≠ [] then
      some ⟨inh.expand (nestSelectors place.parents selectors), declarationsOf children⟩
    else none
  | _ => none

/-- The rules that a sheet gives, in the order of its statements. -/
def Sheet.output (sheet : Sheet) : List Block :=
  sheet.places.filterMap (Place.output? sheet.inherited)

/-! ## Requests in a sheet -/

theorem Sheet.requests_eq_nil_iff {sheet : Sheet} :
    sheet.requests = [] ↔ ∀ args, .mixin reportMixin args ∉ sheet.walk := by
  rw [requests, List.filterMap_eq_nil_iff, ← map_statement_places]
  constructor
  · intro h args hm
    obtain ⟨place, hp, hs⟩ := List.mem_map.1 hm
    have hn := h place hp
    rw [Place.request?, hs] at hn
    simp at hn
  · intro h place hp
    rw [Place.request?]
    split
    · rename_i name args hs
      refine if_neg fun hr => h args (List.mem_map.2 ⟨place, hp, ?_⟩)
      rw [hs, hr]
    · rfl

/-! ## What taking statements changes -/

namespace Progress

/-- The session that a progress amounts to, if anything is counted. -/
def session? (p : Progress) : Option Session := p.ledger.map fun ledger => ⟨ledger, p.inheritance⟩

end Progress

def Place.block? (place : Place) : Option Block :=
  match place.statement with
  | .rule selectors children =>
    some ⟨nestSelectors place.parents selectors, declarationsOf children⟩
  | _ => none

/-- What it comes to to take a statement, whatever has been taken before it. -/
inductive Place.Acts (place : Place) : Prop
  | idle (hb : place.block? = none) (hr : place.request? = none) (hd : place.directive? = none)
      (h : ∀ p : Progress, p.take place = (.ok (), p))
  | block {b : Block} (hb : place.block? = some b) (hr : place.request? = none)
      (hd : place.directive? = none)
      (h : ∀ p : Progress, p.take place = (.ok (), { p with blocks := p.blocks ++ [b] }))
  | request {which : String} (hb : place.block? = none) (hr : place.request? = some which)
      (hd : place.directive? = none)
      (h : ∀ p : Progress, p.take place = (.ok (), { p with requests := p.requests ++ [which] }))
  | plain {placeholder flag : String} (hb : place.block? = none) (hr : place.request? = none)
      (hd : place.directive? = some (.plain placeholder flag place.parents))
      (h : ∀ p : Progress, p.take place = p.extend placeholder flag place.parents)
  | counted {c : Call} (hb : place.block? = none) (hr : place.request? = none)
      (hd : place.directive? = some (.counted c)) (h : ∀ p : Progress, p.take place = p.extCall c)
  /-- The statement has no sense, whatever is there to extend. -/
  | fails {f : CompileFault} (hb : place.block? = none) (hr : place.request? = none)
      (hf : ∀ g, f ≠ .session g) (h : ∀ p : Progress, p.take place = (.error f, p))

theorem Place.acts (place : Place) : place.Acts := by
  obtain ⟨parents, s⟩ := place
  cases s with
  | declaration d => exact .idle rfl rfl rfl fun _ => rfl
  | assign name value => exact .idle rfl rfl rfl fun _ => rfl
  | rule selectors children => exact .block rfl rfl rfl fun _ => rfl
  | extend placeholder flag => exact .plain rfl rfl rfl fun _ => rfl
  | mixin name args =>
    by_cases he : name = extMixin
    · subst he
      rcases Progress.callExt_uniform args parents with ⟨f, hf, hfails⟩ | hcall
      · exact .fails rfl rfl hf hfails
      · exact .counted rfl rfl rfl hcall
    · by_cases hr : name = reportMixin
      · subst hr
        exact .request rfl rfl rfl fun _ => rfl
      · refine .fails (f := .unknownMixin name) rfl (if_neg hr) (by simp) fun p => ?_
        exact (if_neg he).trans (if_neg hr)

/-- What a progress owes to the statements that have been taken. -/
structure Progress.Reaches (p : Progress) (places : List Place) (q : Progress) : Prop where
  blocks : q.blocks = p.blocks ++ places.filterMap Place.block?
  requests : q.requests = p.requests ++ places.filterMap Place.request?
  inheritance :
    q.inheritance = (places.filterMap Place.directive?).foldl Inheritance.follow p.inheritance
  session : q.session? =
    p.session?.map fun s => (places.filterMap Place.directive?).foldl Session.follow s

namespace Progress

variable {p q r : Progress} {place : Place} {places more : List Place}

theorem Reaches.nil (p : Progress) : p.Reaches [] p where
  blocks := (List.append_nil _).symm
  requests := (List.append_nil _).symm
  inheritance := rfl
  session := by simp

theorem Reaches.append (h : p.Reaches places q) (h' : q.Reaches more r) :
    p.Reaches (places ++ more) r where
  blocks := by rw [h'.blocks, h.blocks, List.filterMap_append, List.append_assoc]
  requests := by rw [h'.requests, h.requests, List.filterMap_append, List.append_assoc]
  inheritance := by rw [h'.inheritance, h.inheritance, List.filterMap_append, List.foldl_append]
  session := by
    rw [h'.session, h.session, List.filterMap_append, Option.map_map]
    simp only [Function.comp_def, List.foldl_append]

/-- A directive changes the inheritance and the session as it does by itself. -/
theorem Reaches.directive {d : Directive} (hd : place.directive? = some d)
    (hb : place.block? = none) (hr : place.request? = none) (hqb : q.blocks = p.blocks)
    (hqr : q.requests = p.requests) (hi : q.inheritance = p.inheritance.follow d)
    (hs : q.session? = p.session?.map fun s => s.follow d) : p.Reaches [place] q := by
  constructor <;> simp [hb, hr, hd, hqb, hqr, hi, hs]

/-- The step: what a statement changes if it succeeds. -/
theorem reaches_of_take (hq : p.take place = (.ok (), q)) : p.Reaches [place] q := by
  cases place.acts with
  | idle hb hr hd h =>
    cases (h p).symm.trans hq
    constructor <;> simp [hb, hr, hd]
  | block hb hr hd h =>
    cases (h p).symm.trans hq
    constructor <;> simp [hb, hr, hd, session?, Function.comp_def]
  | request hb hr hd h =>
    cases (h p).symm.trans hq
    constructor <;> simp [hb, hr, hd, session?, Function.comp_def]
  | fails hb hr hf h => cases (h p).symm.trans hq
  | plain hb hr hd h =>
    obtain ⟨-, inh, hi, rfl⟩ := extend_cases ((h p).symm.trans hq)
    refine .directive hd hb hr rfl rfl ?_ ?_
    · rw [Inheritance.follow, hi]; rfl
    · simp [session?, Session.follow, Inheritance.follow, hi, Except.toOption, Function.comp_def]
  | counted hb hr hd h =>
    obtain ⟨ledger, inh, hl, -, hi, hs, rfl⟩ := extCall_cases ((h p).symm.trans hq)
    refine .directive hd hb hr rfl rfl ?_ ?_
    · rw [Inheritance.follow, hi]; rfl
    · simp only [session?, hl, Option.map_some, Session.follow]
      rw [← hs]

/-- The run: what statements change if they succeed one after the other. -/
theorem reaches_of_takeAll (h : p.takeAll places = (.ok (), q)) : p.Reaches places q := by
  induction places generalizing p with
  | nil => cases h; exact .nil _
  | cons place rest ih =>
    rw [takeAll] at h
    rcases hp : p.take place with ⟨f | u, p'⟩
    · rw [hp] at h; cases h
    · rw [hp] at h
      exact (reaches_of_take hp).append (ih h)

/-- The rules that stand behind those of the blocks: one overlay if a report was asked
    for. -/
inductive Shows (p : Progress) : List Block → Prop
  | nothing (hr : p.requests = []) : p.Shows []
  | overlay {ledger : Ledger} {report : String} (hr : p.requests ≠ [])
      (hl : p.ledger = some ledger) (ho : overlayReport ledger p.requests = .ok report) :
      p.Shows [overlayBlock report]

theorem shows_of_overlay {overlay : List String} (h : p.overlay = .ok overlay) :
    ∃ shown : List Block, overlay = shown.map Block.text ∧ p.Shows shown := by
  rw [Progress.overlay] at h
  split at h
  · rename_i hr
    cases h
    exact ⟨[], rfl, .nothing hr⟩
  · cases h
  · rename_i ledger hl hn
    cases ho : overlayReport ledger p.requests with
    | error f => rw [ho] at h; cases h
    | ok report =>
      rw [ho] at h
      cases h
      exact ⟨[overlayBlock report], rfl, .overlay hn hl ho⟩

/-- The rules of the blocks are those of the second phase. -/
theorem rule?_of_block? (inh : Inheritance) (place : Place) :
    place.block?.bind (Block.rule? inh) = (place.output? inh).map Block.text := by
  unfold Place.block? Place.output?
  split
  · rw [Option.bind_some, Block.rule?]
    simp only [Bool.or_eq_true, List.isEmpty_iff]
    split
    · rename_i h
      rw [if_neg fun hn => h.elim hn.2 hn.1]
      rfl
    · rename_i h
      rw [if_pos ⟨fun hd => h (.inr hd), fun hs => h (.inl hs)⟩]
      rfl
  · rfl

theorem Reaches.rules {sheet : Sheet} {ledger : Option Ledger}
    (h : (sheet.begin ledger).Reaches sheet.places p) :
    p.rules = sheet.output.map Block.text := by
  have hi : p.inheritance = sheet.inherited := h.inheritance
  rw [Progress.rules, h.blocks, Sheet.begin, List.nil_append, List.filterMap_filterMap, hi,
    Sheet.output, List.map_filterMap]
  simp only [rule?_of_block?]

/-- The rules with what stands behind them, line by line. -/
theorem Reaches.text {sheet : Sheet} {ledger : Option Ledger}
    (h : (sheet.begin ledger).Reaches sheet.places p) (shown : List Block) :
    sheetText (p.rules ++ shown.map Block.text) =
      linesText (sheetLines (sheet.output ++ shown)) := by
  rw [h.rules, linesText_sheetLines, List.map_append]

end Progress

/-! ## Sheets -/

namespace Sheet

variable {sheet : Sheet} {budgets options : Option (List (Scalar × Value))} {c : Compiled}

/-- A sheet that compiles has taken all its statements and written what they have
    led to. -/
theorem run_of_compile (h : (sheet.compile budgets options).result = .ok c) :
    ∃ ledger p overlay, sheet.ledger budgets options = .ok ledger ∧
      (sheet.begin ledger).takeAll sheet.places = (.ok (), p) ∧ p.overlay = .ok overlay ∧
      c = ⟨sheetText (p.rules ++ overlay), p.findings, p.ledger⟩ := by
  rw [result_compile] at h
  rcases hl : sheet.ledger budgets options with f | ledger
  · rw [hl] at h; cases h
  · rw [hl] at h
    rcases hp : (sheet.begin ledger).takeAll sheet.places with ⟨f | u, p⟩
    · simp only [hp] at h; cases h
    · simp only [hp, Progress.result_outcome] at h
      cases ho : p.overlay with
      | error f => rw [ho] at h; cases h
      | ok overlay =>
        rw [ho] at h
        exact ⟨ledger, p, overlay, rfl, hp, ho, (Except.ok.inj h).symm⟩

/-- The text of a sheet that compiles, line by line: its rules, and what stands behind
    them. -/
theorem reaches_of_compile (h : (sheet.compile budgets options).result = .ok c) :
    ∃ ledger p shown, sheet.ledger budgets options = .ok ledger ∧
      (sheet.begin ledger).Reaches sheet.places p ∧ p.Shows shown ∧
      c = ⟨linesText (sheetLines (sheet.output ++ shown)), p.findings, p.ledger⟩ := by
  obtain ⟨ledger, p, overlay, hl, hp, ho, rfl⟩ := run_of_compile h
  have hr := Progress.reaches_of_takeAll hp
  obtain ⟨shown, rfl, hs⟩ := Progress.shows_of_overlay ho
  exact ⟨ledger, p, shown, hl, hr, hs, by rw [hr.text]⟩

theorem ledger_of_tracks (ht : sheet.tracks = true) {ledger : Option Ledger}
    (h : sheet.ledger budgets options = .ok ledger) :
    ∃ settings, sheet.settings budgets options = .ok settings ∧
      ledger = some (.start settings) := by
  rw [Sheet.ledger, if_pos ht] at h
  obtain ⟨settings, hs, hledger⟩ := map_eq_ok_iff.1 h
  exact ⟨settings, hs, hledger.symm⟩

end Sheet

/-- **Compilation in two phases.**  Let a sheet compile.  Its statements are walked
    in order, each under the resolved selectors of the rule around it.  If anything
    is counted, the usage and the findings are those of a fresh session that has
    been given every extension in this order, and its inheritance is the one in
    which the rules are written.  The text has the lines of these rules and no
    others: in the same order, each rule that has declarations of its own and
    selectors left, with all of its selectors and declarations, and after them an
    overlay exactly if a report is asked for. -/
theorem Sheet.compile_eq_phases {sheet : Sheet} {budgets options : Option (List (Scalar × Value))}
    {c : Compiled} (h : (sheet.compile budgets options).result = .ok c) :
    sheet.places.map Place.statement = sheet.walk ∧
    (sheet.tracks = false → c.ledger = none ∧ c.findings = []) ∧
    (sheet.tracks = true → ∃ settings, sheet.settings budgets options = .ok settings ∧
      c.ledger = some (sheet.counted settings).ledger ∧
      c.findings = (sheet.counted settings).ledger.findings ∧
      (sheet.counted settings).inheritance = some sheet.inherited) ∧
    ((∀ args, .mixin reportMixin args ∉ sheet.walk) →
      c.css = linesText (sheetLines sheet.output)) ∧
    ((∃ args, .mixin reportMixin args ∈ sheet.walk) → ∃ ledger report, c.ledger = some ledger ∧
      overlayReport ledger sheet.requests = .ok report ∧
      c.css = linesText (sheetLines (sheet.output ++ [overlayBlock report]))) := by
  obtain ⟨ledger, p, shown, hl, hp, hshown, rfl⟩ := reaches_of_compile h
  have hreq : p.requests = sheet.requests := hp.requests
  have hses := hp.session
  refine ⟨map_statement_placesAll [] sheet.statements, fun ht => ?_, fun ht => ?_, fun hq => ?_,
    fun hq => ?_⟩
  · rw [Sheet.ledger, ht] at hl
    cases hl
    have hn : p.ledger = none := by simpa [Progress.session?, begin] using hses
    exact ⟨hn, by rw [Progress.findings, hn]⟩
  · obtain ⟨settings, hs, rfl⟩ := ledger_of_tracks ht hl
    have hc : p.session? = some (sheet.counted settings) := hses
    obtain ⟨ledger, hpl, hc⟩ := Option.map_eq_some_iff.1 hc
    refine ⟨settings, hs, ?_⟩
    rw [← hc]
    exact ⟨hpl, by rw [Progress.findings, hpl], congrArg some hp.inheritance⟩
  · cases hshown with
    | nothing => rw [List.append_nil]
    | overlay hn => exact absurd (requests_eq_nil_iff.2 hq) (hreq ▸ hn)
  · cases hshown with
    | nothing hn =>
      obtain ⟨args, hm⟩ := hq
      exact absurd hm (requests_eq_nil_iff.1 (hreq ▸ hn) args)
    | overlay hn hpl hr => exact ⟨_, _, hpl, hreq ▸ hr, rfl⟩

/-- A placeholder that is extended after its rule, by a rule in another one whose
    declarations stand around it. -/
def forwardSheet : Sheet where
  statements :=
    [.rule ["%a"] [.declaration ⟨"color", "red"⟩],
      .rule [".x"] [.declaration ⟨"top", "0"⟩,
        .rule ["&.y"] [.mixin "ext" ["a"], .declaration ⟨"left", "0"⟩],
        .extend "a" "", .declaration ⟨"right", "0"⟩]]

def forwardLimits : Option (List (Scalar × Value)) := some [(.text "total", .scalar (.int 1))]

theorem isSome_forwardSheet :
    (forwardSheet.compile forwardLimits none).result.toOption.isSome = true := by cbv

theorem lines_forwardSheet :
    sheetLines forwardSheet.output =
      [".x.y,", ".x \x7b", "  color: red;", "\x7d", "",
        ".x \x7b", "  top: 0;", "  right: 0;", "\x7d", "",
        ".x.y \x7b", "  left: 0;", "\x7d"] := by cbv

theorem compile_forwardSheet :
    ∃ c settings, (forwardSheet.compile forwardLimits none).result = .ok c ∧
      forwardSheet.settings forwardLimits none = .ok settings ∧
      c.ledger = some (forwardSheet.counted settings).ledger ∧
      c.css = ".x.y,\n.x \x7b\n  color: red;\n\x7d\n\n" ++
        ".x \x7b\n  top: 0;\n  right: 0;\n\x7d\n\n.x.y \x7b\n  left: 0;\n\x7d\n" := by
  have hok := isSome_forwardSheet
  cases hc : (forwardSheet.compile forwardLimits none).result with
  | error f => rw [hc] at hok; cases hok
  | ok c =>
    obtain ⟨-, -, hcounted, hquiet, -⟩ := Sheet.compile_eq_phases hc
    obtain ⟨settings, hs, hl, -, -⟩ := hcounted (by decide +kernel)
    have hcss := hquiet fun args hm => by
      simp [forwardSheet, Sheet.walk, walkAll, Statement.walk, reportMixin] at hm
    rw [lines_forwardSheet] at hcss
    exact ⟨c, settings, rfl, hs, hl, hcss.trans (by decide +kernel)⟩

end StyleBudget
