/-
  What a call that fails leaves behind.

  A call goes through its selectors, the inheritance, the repeats and the limit in this order,
  and changes the session in between.  So its fault tells how much has changed: nothing, if it
  has not come past the inheritance; the consumers and perhaps a warning, if it stops at a
  repeat; and all that it would have changed anyway, if it stops at the limit.

  * `Inheritance.Gains` is what an extension changes;
  * `Session.FailsWith` is when a call fails and why, `Session.Leaves` what it leaves behind;
  * `Session.call_of_made` is a call past the inheritance: it stops in `Sound.call_of_repeat` or
    `Sound.call_of_overrun`, else it gives a list, as in `Sound.call_of_clear`;
  * `Session.call_leniently` is the same call if nothing stops it;
  * `Session.left_by_fault` puts these together.
-/
import StyleBudget.Proofs.Additions
import StyleBudget.Proofs.Extensions

namespace StyleBudget

/-! ## Gains -/

/-- The selectors have become consumers of a placeholder, if that is declared: they stand behind
    those that it had, each once.  Nothing else has changed. -/
structure Inheritance.Gains (inh inh' : Inheritance) (placeholder : String)
    (selectors : List String) : Prop where
  declared : inh'.declared = inh.declared
  gained : placeholder ∈ inh.declared → inh'.consumers placeholder =
    inh.consumers placeholder ++ distinct (selectors.filter fun s => s ∉ inh.consumers placeholder)
  others : ∀ other, other ≠ placeholder ∨ placeholder ∉ inh.declared →
    inh'.consumers other = inh.consumers other

theorem Inheritance.gains_of_extend {inh inh' : Inheritance} {placeholder flag : String}
    {selectors : List String} (h : inh.extend placeholder selectors flag = .ok inh') :
    inh.Gains inh' placeholder selectors where
  declared := declared_extend h
  gained hd := by rw [consumers_extend h, if_pos ⟨rfl, hd⟩, foldl_addNew_eq]
  others other ho := by
    rw [consumers_extend h, if_neg]
    rintro ⟨hp, hd⟩
    exact ho.elim (fun hne => hne hp) fun hn => hn hd

/-! ## Settings that stop nothing -/

def Settings.leniently (settings : Settings) : Settings :=
  { settings with options := { settings.options with strict := false } }

def Ledger.leniently (ledger : Ledger) : Ledger :=
  { ledger with settings := ledger.settings.leniently }

def Session.leniently (s : Session) : Session := { s with ledger := s.ledger.leniently }

/-! ## Faults -/

namespace Session

/-- A call of a session with an inheritance fails with a fault: it names no selector; or its
    flag or its placeholder is refused; or the run is strict and a new selector is a repeat, or
    none is but the list is longer than the limit of the budget. -/
def FailsWith (settings : Settings) (s : Session) (inh : Inheritance) (c : Call) :
    SessionFault → Prop
  | .outsideSelector => c.named = []
  | .inheritance f => c.named ≠ [] ∧
      ((f = .unknownFlag (trimText c.flag) ∧ trimText c.flag ≠ "" ∧
          trimText c.flag ≠ optionalFlag) ∨
        (f = .undeclared c.placeholder ∧ trimText c.flag = "" ∧ c.placeholder ∉ inh.declared))
  | .ledger (.repeated f) => c.named ≠ [] ∧ c.extension.Allowed inh.declared ∧
      settings.options.strict = true ∧ ∃ selector rest,
        repeatedIn (s.held c) c.named = selector :: rest ∧
        f = repeatFinding .error c.placeholder selector
  | .ledger (.overrun f) => c.named ≠ [] ∧ c.extension.Allowed inh.declared ∧
      settings.options.strict = true ∧ repeatedIn (s.held c) c.named = [] ∧ ∃ limit,
        settings.limit? c.budget = some limit ∧ limit < (s.extended c).length ∧
        f = overrunFinding .error c.placeholder c.budget limit (s.extended c).length c.named

/-- What a call that fails with a fault makes of a session with an inheritance. -/
def Leaves (settings : Settings) (s : Session) (inh : Inheritance) (c : Call) (s' : Session) :
    SessionFault → Prop
  | .outsideSelector => s' = s
  | .inheritance _ => s' = s
  | .ledger (.repeated _) => s'.ledger.usage = s.ledger.usage ∧
      s'.ledger.findings = s.ledger.findings ++
        (if c.budget ∈ settings.budgets.keys then []
          else [unknownBudgetFinding c.placeholder c.budget]) ∧
      ∃ inh', s'.inheritance = some inh' ∧ inh.Gains inh' c.placeholder c.named
  | .ledger (.overrun _) => s'.ledger.usage = (s.leniently.call c).2.ledger.usage ∧
      s'.inheritance = (s.leniently.call c).2.inheritance ∧
      s'.ledger.findings = s.ledger.findings

variable {s : Session} {settings : Settings} {inh inh' : Inheritance} {c : Call}

/-! ## Calls that fail -/

theorem inherit_eq_map (hi : s.inheritance = some inh) (c : Call) :
    inherit s.inheritance c.placeholder c.named c.flag = (inh.make c.extension).map some := by
  rw [hi]
  rfl

/-- A call that comes past the inheritance is recorded. -/
theorem call_of_made (hi : s.inheritance = some inh) (hn : c.named ≠ [])
    (hm : inh.make c.extension = .ok inh') :
    s.call c = ((s.ledger.record c.placeholder c.budget c.named).1.mapError SessionFault.ledger,
      ⟨(s.ledger.record c.placeholder c.budget c.named).2, some inh'⟩) := by
  refine call_of_inherited hn ((inherit_eq_map hi c).trans ?_)
  rw [hm]
  rfl

theorem Sound.call_of_repeat (h : s.Sound settings) (hi : s.inheritance = some inh)
    (hn : c.named ≠ []) (hm : inh.make c.extension = .ok inh')
    (hs : settings.options.strict = true) {selector : String} {rest : List String}
    (hr : repeatedIn (s.held c) c.named = selector :: rest) :
    s.call c = (.error (.ledger (.repeated (repeatFinding .error c.placeholder selector))),
      ⟨s.ledger.note (s.ledger.foundBudget c.placeholder c.budget), some inh'⟩) := by
  rw [call_of_made hi hn hm, Ledger.record_of_repeat (h.kept ▸ hs) (h.repeats_offered c ▸ hr)]
  rfl

theorem Sound.call_of_overrun (h : s.Sound settings) (hi : s.inheritance = some inh)
    (hn : c.named ≠ []) (hm : inh.make c.extension = .ok inh')
    (hs : settings.options.strict = true) (hr : repeatedIn (s.held c) c.named = [])
    {limit : ℕ} (hl : settings.limit? c.budget = some limit)
    (hlt : limit < (s.extended c).length) :
    s.call c = (.error (.ledger (.overrun (overrunFinding .error c.placeholder c.budget limit
        (s.extended c).length c.named))),
      ⟨s.ledger.recorded c.placeholder c.budget c.named [], some inh'⟩) := by
  have hexceeded : s.ledger.exceededLimit? c.budget
      (distinct (s.ledger.offered c.placeholder c.budget c.named)).length = some limit := by
    rw [h.distinct_offered, Ledger.exceededLimit?, h.kept, hl, Option.filter_some]
    exact if_pos (by simpa using hlt)
  -- a budget with a limit has been set up
  have hbudget : c.budget ∈ settings.budgets.keys :=
    Table.mem_keys_iff.2 (Option.isSome_iff_exists.2 ⟨limit, hl⟩)
  rw [call_of_made hi hn hm,
    Ledger.record_of_overrun (h.kept ▸ hs) (h.repeats_offered c ▸ hr) hexceeded, h.foundBudget,
    if_pos hbudget, h.distinct_offered]
  rfl

/-- If nothing stops it, the same call stores the distinct consumers. -/
theorem call_leniently (hi : s.inheritance = some inh) (hn : c.named ≠ [])
    (hm : inh.make c.extension = .ok inh') :
    ∃ told, s.leniently.call c = (.ok (distinct (s.ledger.offered c.placeholder c.budget c.named)),
      ⟨s.ledger.leniently.recorded c.placeholder c.budget c.named told, some inh'⟩) := by
  have hlax : s.leniently.ledger.settings.options.strict = false := rfl
  rw [call_of_made (s := s.leniently) hi hn hm, Ledger.record_of_lax hlax]
  exact ⟨_, rfl⟩

/-- A call of a strict run that comes past the inheritance and finds neither a repeat nor a list
    longer than the limit gives the list. -/
theorem Sound.call_of_clear (h : s.Sound settings) (hi : s.inheritance = some inh)
    (hn : c.named ≠ []) (hm : inh.make c.extension = .ok inh')
    (hs : settings.options.strict = true) (hr : repeatedIn (s.held c) c.named = [])
    (hw : ∀ limit, settings.limit? c.budget = some limit → (s.extended c).length ≤ limit) :
    ∃ listed, (s.call c).1 = .ok listed := by
  have hrepeats : s.ledger.foundRepeats c.placeholder c.budget c.named = [] := by
    rw [Ledger.foundRepeats, h.repeats_offered, hr]
    rfl
  have hoverrun : s.ledger.foundOverrun c.placeholder c.budget c.named = [] := by
    rw [h.foundOverrun, overruns]
    split
    · rename_i limit hl
      exact if_neg (Nat.not_lt.2 (hw limit hl))
    · rfl
  have hnone : (s.ledger.found c.placeholder c.budget c.named).find? Finding.stops = none := by
    rw [Ledger.find?_stops_found, hrepeats, hoverrun]
    rfl
  rw [call_of_made hi hn hm, Ledger.record_of_strict (h.kept ▸ hs) hnone]
  exact ⟨_, rfl⟩

/-- A call that neither is refused nor stops at what it finds gives a list. -/
theorem Sound.failsWith_or_ok (h : s.Sound settings) (hi : s.inheritance = some inh) (c : Call) :
    (∃ f, s.FailsWith settings inh c f) ∨ ∃ listed, (s.call c).1 = .ok listed := by
  by_cases hn : c.named = []
  · exact .inl ⟨.outsideSelector, hn⟩
  rcases Inheritance.make_cases inh c.extension with ⟨ha, inh', hm⟩ | ⟨-, f, hf⟩
  · cases hs : settings.options.strict with
    | false =>
      rw [call_of_made hi hn hm, Ledger.record_of_lax (h.kept ▸ hs)]
      exact .inr ⟨_, rfl⟩
    | true =>
      cases hr : repeatedIn (s.held c) c.named with
      | cons selector rest =>
        exact .inl ⟨.ledger (.repeated _), hn, ha, hs, selector, rest, hr, rfl⟩
      | nil =>
        by_cases hover : ∃ limit, settings.limit? c.budget = some limit ∧
            limit < (s.extended c).length
        · obtain ⟨limit, hl, hlt⟩ := hover
          exact .inl ⟨.ledger (.overrun _), hn, ha, hs, hr, limit, hl, hlt, rfl⟩
        · refine .inr (h.call_of_clear hi hn hm hs hr fun limit hl => ?_)
          exact Nat.not_lt.1 fun hlt => hover ⟨limit, hl, hlt⟩
  · exact .inl ⟨.inheritance f, hn, Inheritance.extend_eq_error_iff.1 hf⟩

/-- Each fault comes with what it leaves behind. -/
theorem Sound.call_of_failsWith (h : s.Sound settings) (hi : s.inheritance = some inh)
    {f : SessionFault} (hf : s.FailsWith settings inh c f) :
    (s.call c).1 = .error f ∧ s.Leaves settings inh c (s.call c).2 f := by
  -- past the inheritance the placeholder has gained the selectors
  have hmade : c.extension.Allowed inh.declared → ∃ inh', inh.make c.extension = .ok inh' ∧
      inh.Gains inh' c.placeholder c.named := by
    intro ha
    rcases Inheritance.make_cases inh c.extension with ⟨-, inh', hm⟩ | ⟨hn, -⟩
    · exact ⟨inh', hm, Inheritance.gains_of_extend hm⟩
    · exact absurd ha hn
  match f, hf with
  | .outsideSelector, hn =>
    rw [call_of_empty hn]
    exact ⟨rfl, rfl⟩
  | .inheritance f, ⟨hn, hf⟩ =>
    have hrefused : inherit s.inheritance c.placeholder c.named c.flag = .error f :=
      (inherit_eq_map hi c).trans
        (congrArg (Except.map some) (Inheritance.extend_eq_error_iff.2 hf))
    rw [call_of_refused hn hrefused]
    exact ⟨rfl, rfl⟩
  | .ledger (.repeated f), ⟨hn, ha, hs, selector, rest, hr, hf⟩ =>
    obtain ⟨inh', hm, hgains⟩ := hmade ha
    rw [h.call_of_repeat hi hn hm hs hr, hf]
    exact ⟨rfl, rfl, congrArg _ (h.foundBudget c), inh', rfl, hgains⟩
  | .ledger (.overrun f), ⟨hn, ha, hs, hr, limit, hl, hlt, hf⟩ =>
    obtain ⟨inh', hm, -⟩ := hmade ha
    obtain ⟨told, hlenient⟩ := call_leniently hi hn hm
    rw [h.call_of_overrun hi hn hm hs hr hl hlt, hf]
    refine ⟨rfl, ?_, ?_, List.append_nil _⟩
    · rw [hlenient]
      rfl
    · rw [hlenient]

/-- **What a call that fails leaves behind.**  Take a session with an inheritance that calls have
    led to, and any call.  It fails exactly in these ways, and with no other fault.  If it names
    no selector, or if its flag or its placeholder is refused, nothing has changed.  If it stops
    at a repeat, nothing has been counted; if there is no such budget, and only then, there is
    one more warning, about this; and the placeholder has gained the new selectors, if it is
    declared, and no other has changed.  If it stops at the limit, the same has been counted and
    the same inherits as if the run were not strict, and nothing has been told. -/
theorem left_by_fault (hs : Reachable settings s) (hi : s.inheritance = some inh) (c : Call)
    (f : SessionFault) :
    ((s.call c).1 = .error f ↔ s.FailsWith settings inh c f) ∧
      ((s.call c).1 = .error f → s.Leaves settings inh c (s.call c).2 f ∧
        (s.call c).2.ledger.settings = settings) := by
  have h := hs.sound
  have hfails : (s.call c).1 = .error f → s.FailsWith settings inh c f := by
    intro hf
    rcases h.failsWith_or_ok hi c with ⟨g, hg⟩ | ⟨listed, hok⟩
    · obtain rfl := Except.error.inj (hf.symm.trans (h.call_of_failsWith hi hg).1)
      exact hg
    · cases hf.symm.trans hok
  refine ⟨⟨hfails, fun hf => (h.call_of_failsWith hi hf).1⟩, fun hf => ⟨?_, ?_⟩⟩
  · exact (h.call_of_failsWith hi (hfails hf)).2
  · exact (s.settings_call c).trans h.kept

end Session

def strictConsumer : Settings := ⟨.ofList [("total", 1)], { strict := true }⟩

/-- A session of a strict run in which one selector is held. -/
def fullSession : Session :=
  ((Session.start strictConsumer (some (.declare ["p"]))).call ⟨"p", "total", "", [".x"]⟩).2

/-- A call under a budget that there is not, with a new selector twice. -/
def strayCall : Call := ⟨"p", "card", "", [".y", ".y"]⟩

/-- A call with one selector more than the budget allows. -/
def excessCall : Call := ⟨"p", "total", "", [".y"]⟩

theorem left_fullSession :
    ∃ inh, Session.Reachable strictConsumer fullSession ∧ fullSession.inheritance = some inh ∧
      (fullSession.call strayCall).1 =
        .error (.ledger (.repeated (repeatFinding .error "p" ".y"))) ∧
      (fullSession.call strayCall).2.ledger.usage = fullSession.ledger.usage ∧
      (fullSession.call strayCall).2.ledger.findings = [unknownBudgetFinding "p" "card"] ∧
      (∃ inh', (fullSession.call strayCall).2.inheritance = some inh' ∧
        inh'.consumers "p" = [".x", ".y"]) ∧
      (fullSession.call excessCall).1 =
        .error (.ledger (.overrun (overrunFinding .error "p" "total" 1 2 [".y"]))) ∧
      (fullSession.call excessCall).2.ledger.usage =
        (fullSession.leniently.call excessCall).2.ledger.usage ∧
      (fullSession.call excessCall).2.ledger.usage.consumers "total" "p" = [".x", ".y"] ∧
      (fullSession.call excessCall).2.ledger.findings = [] := by
  have hs : Session.Reachable strictConsumer fullSession := .call (.start _) _
  obtain ⟨inh, hi⟩ : ∃ inh, fullSession.inheritance = some inh := ⟨_, rfl⟩
  have hstray : (fullSession.call strayCall).1 =
      .error (.ledger (.repeated (repeatFinding .error "p" ".y"))) := by decide +kernel
  have hexcess : (fullSession.call excessCall).1 =
      .error (.ledger (.overrun (overrunFinding .error "p" "total" 1 2 [".y"]))) := by
    decide +kernel
  have hnone : fullSession.ledger.findings = [] := by decide +kernel
  have hheld : inh.declared = ["p"] ∧ inh.consumers "p" = [".x"] := by
    obtain rfl := Option.some.inj hi
    decide +kernel
  obtain ⟨⟨hsame, htold, inh', hi', hgains⟩, -⟩ :=
    (Session.left_by_fault hs hi strayCall _).2 hstray
  obtain ⟨⟨hcounted, -, hquiet⟩, -⟩ := (Session.left_by_fault hs hi excessCall _).2 hexcess
  refine ⟨inh, hs, hi, hstray, hsame, ?_, ⟨inh', hi', ?_⟩, hexcess, hcounted, ?_,
    hquiet.trans hnone⟩
  · rw [htold, hnone]
    decide +kernel
  · have hgained := hgains.gained (by simp [strayCall, hheld.1])
    rw [show strayCall.placeholder = "p" from rfl, hheld.2] at hgained
    exact hgained.trans (by decide +kernel)
  · rw [hcounted]
    decide +kernel

end StyleBudget
