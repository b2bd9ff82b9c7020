/-
  What a recording finds.

  A recording finds the same things under all flags: a budget that has not been set
  up, then the repeats, then an overrun.  The flags say which of them are told, and
  a strict run stops at the first repeat or overrun.

  * `repeats` are the selectors that stand in a list again;
  * `Ledger.found` is all that a recording finds, in order;
  * `Ledger.record_of_lax` and `Ledger.record_of_strict` are the whole outcome of a
    recording in the two kinds of runs.
-/
import StyleBudget.Proofs.Recording

namespace StyleBudget

/-! ## Repeats -/

/-- The selectors that stand in a list again, or in `seen` before it. -/
def repeatsAfter (seen : List String) : List String → List String
  | [] => []
  | s :: rest => if s ∈ seen then s :: repeatsAfter seen rest else repeatsAfter (s :: seen) rest

def repeats (selectors : List String) : List String := repeatsAfter [] selectors

section

variable {placeholder : String} {options : Options}

theorem findings_of_lax (h : options.strict = false) (placeholder : String)
    (selectors seen : List String) :
    (dropRepeatsAfter seen placeholder options selectors).map Prod.snd =
      .ok (if options.warnDuplicates then
        (repeatsAfter seen selectors).map (repeatFinding .warning placeholder) else []) := by
  induction selectors generalizing seen with
  | nil => simp [dropRepeatsAfter, repeatsAfter, Except.map]
  | cons s rest ih =>
    have ih' := ih (if s ∈ seen then seen else s :: seen)
    by_cases hs : s ∈ seen
    · rw [if_pos hs] at ih'
      rw [dropRepeatsAfter, repeatsAfter, if_pos hs, if_pos hs, h]
      cases hd : dropRepeatsAfter seen placeholder options rest with
      | error f => rw [hd] at ih'; cases ih'
      | ok r =>
        rw [hd] at ih'
        have hr := Except.ok.inj ih'
        simp only [Bool.false_eq_true, if_false, Except.map, hr]
        split <;> rfl
    · rw [if_neg hs] at ih'
      rw [dropRepeatsAfter, repeatsAfter, if_neg hs, if_neg hs, ← ih']
      cases dropRepeatsAfter (s :: seen) placeholder options rest <;> rfl

theorem findings_of_strict (h : options.strict = true) (placeholder : String)
    (selectors seen : List String) :
    (dropRepeatsAfter seen placeholder options selectors).map Prod.snd =
      match repeatsAfter seen selectors with
      | [] => .ok []
      | s :: _ => .error (repeatFinding .error placeholder s) := by
  induction selectors generalizing seen with
  | nil => rfl
  | cons s rest ih =>
    by_cases hs : s ∈ seen
    · rw [dropRepeatsAfter, repeatsAfter, if_pos hs, if_pos hs, h]
      rfl
    · rw [dropRepeatsAfter, repeatsAfter, if_neg hs, if_neg hs, ← ih]
      cases dropRepeatsAfter (s :: seen) placeholder options rest <;> rfl

theorem dropRepeats_of_findings {selectors : List String} {findings : List Finding}
    (h : (dropRepeats placeholder options selectors).map Prod.snd = .ok findings) :
    dropRepeats placeholder options selectors = .ok (distinct selectors, findings) := by
  cases hd : dropRepeats placeholder options selectors with
  | error f => rw [hd] at h; cases h
  | ok r =>
    obtain ⟨kept, found⟩ := r
    rw [hd] at h
    cases h
    rw [eq_distinct_of_dropRepeats hd]

theorem dropRepeats_of_lax (h : options.strict = false) (placeholder : String)
    (selectors : List String) :
    dropRepeats placeholder options selectors = .ok (distinct selectors,
      if options.warnDuplicates then (repeats selectors).map (repeatFinding .warning placeholder)
      else []) :=
  dropRepeats_of_findings (findings_of_lax h placeholder selectors [])

theorem dropRepeats_of_strict (h : options.strict = true) (placeholder : String)
    {selectors : List String} (hr : repeats selectors = []) :
    dropRepeats placeholder options selectors = .ok (distinct selectors, []) := by
  refine dropRepeats_of_findings ?_
  rw [dropRepeats, findings_of_strict h]
  rw [repeats] at hr
  rw [hr]

theorem dropRepeats_of_repeat (h : options.strict = true) (placeholder : String)
    {selectors more : List String} {s : String} (hr : repeats selectors = s :: more) :
    dropRepeats placeholder options selectors = .error (repeatFinding .error placeholder s) := by
  have hf := findings_of_strict h placeholder selectors []
  rw [repeats] at hr
  rw [hr] at hf
  rw [dropRepeats]
  cases hd : dropRepeatsAfter [] placeholder options selectors with
  | error f => rw [hd] at hf; exact congrArg Except.error (Except.error.inj hf)
  | ok r => rw [hd] at hf; cases hf

end

/-! ## Findings by their kind -/

namespace Finding

/-- The finding is a repeat or an overrun: it stops a strict run. -/
def stops (f : Finding) : Bool := f.kind != .configuration

/-- The fault with which a strict run stops at a finding. -/
def fault (f : Finding) : LedgerFault :=
  if f.kind = .duplicate then .repeated { f with severity := .error }
  else .overrun { f with severity := .error }

end Finding

/-- The flags let a finding be told. -/
def Options.tells (options : Options) (f : Finding) : Bool :=
  match f.kind with
  | .configuration => true
  | .duplicate => options.warnDuplicates
  | .overBudget => options.warnOver

/-! ## Recordings -/

namespace Ledger

section

variable (ledger : Ledger) (placeholder budget : String) (consumers : List String)

/-- The consumers of a placeholder with the given ones after them. -/
def offered : List String := ledger.usage.consumers budget placeholder ++ consumers

/-- The finding about a budget that has not been set up. -/
def foundBudget : List Finding :=
  if ledger.usage.contains budget then [] else [unknownBudgetFinding placeholder budget]

def foundRepeats : List Finding :=
  (repeats (ledger.offered placeholder budget consumers)).map (repeatFinding .warning placeholder)

/-- The finding about a limit that the distinct consumers exceed. -/
def foundOverrun : List Finding :=
  let used := (distinct (ledger.offered placeholder budget consumers)).length
  (ledger.exceededLimit? budget used).toList.map fun limit =>
    overrunFinding .warning placeholder budget limit used consumers

/-- All that a recording finds, in order. -/
def found : List Finding :=
  ledger.foundBudget placeholder budget ++ ledger.foundRepeats placeholder budget consumers ++
    ledger.foundOverrun placeholder budget consumers

/-- The ledger after a recording that gives a list and tells some findings. -/
def recorded (told : List Finding) : Ledger where
  settings := ledger.settings
  usage := storedUsage ledger.usage budget placeholder
    (distinct (ledger.offered placeholder budget consumers))
  findings := ledger.findings ++ told

end

variable {ledger : Ledger} {placeholder budget : String} {consumers : List String}

theorem noteBudget_eq : ledger.noteBudget placeholder budget =
    ledger.note (ledger.foundBudget placeholder budget) := by
  rw [noteBudget, foundBudget]
  split
  · rw [note, List.append_nil]
  · rfl

/-- What is stored after some findings have been told. -/
theorem store_note (told more : List Finding) :
    (((ledger.note told).note more).store budget placeholder
        (distinct (ledger.offered placeholder budget consumers))) =
      ledger.recorded placeholder budget consumers (told ++ more) := by
  rw [recorded, store, note, note, List.append_assoc]

theorem note_recorded (told more : List Finding) :
    (ledger.recorded placeholder budget consumers told).note more =
      ledger.recorded placeholder budget consumers (told ++ more) := by
  rw [recorded, recorded, note, List.append_assoc]

@[simp] theorem settings_recorded (told : List Finding) :
    (ledger.recorded placeholder budget consumers told).settings = ledger.settings := rfl

@[simp] theorem exceededLimit?_recorded (told : List Finding) (budget' : String) (used : Nat) :
    (ledger.recorded placeholder budget consumers told).exceededLimit? budget' used =
      ledger.exceededLimit? budget' used := rfl

theorem kind_of_mem_foundBudget {f : Finding} (hf : f ∈ ledger.foundBudget placeholder budget) :
    f.kind = .configuration := by
  rw [foundBudget] at hf
  split at hf
  · cases hf
  · rw [List.mem_singleton.1 hf]; rfl

theorem kind_of_mem_foundRepeats {f : Finding}
    (hf : f ∈ ledger.foundRepeats placeholder budget consumers) : f.kind = .duplicate := by
  obtain ⟨s, -, rfl⟩ := List.mem_map.1 hf
  rfl

theorem kind_of_mem_foundOverrun {f : Finding}
    (hf : f ∈ ledger.foundOverrun placeholder budget consumers) : f.kind = .overBudget := by
  obtain ⟨limit, -, rfl⟩ := List.mem_map.1 hf
  rfl

/-- A recording that stops nothing only warns. -/
theorem severity_of_mem_found {f : Finding} (hf : f ∈ ledger.found placeholder budget consumers) :
    f.severity = .warning := by
  rcases List.mem_append.1 hf with hf | hf
  · rcases List.mem_append.1 hf with hf | hf
    · rw [foundBudget] at hf
      split at hf
      · cases hf
      · rw [List.mem_singleton.1 hf]; rfl
    · obtain ⟨s, -, rfl⟩ := List.mem_map.1 hf
      rfl
  · obtain ⟨limit, -, rfl⟩ := List.mem_map.1 hf
    rfl

/-- The flags tell findings of one kind all or not at all. -/
theorem filter_tells (options : Options) (told : Bool) {findings : List Finding}
    (h : ∀ f ∈ findings, options.tells f = told) :
    findings.filter options.tells = if told then findings else [] := by
  cases told
  · exact List.filter_eq_nil_iff.2 fun f hf => by rw [h f hf]; exact Bool.false_ne_true
  · exact List.filter_eq_self.2 h

theorem filter_tells_found (options : Options) :
    (ledger.found placeholder budget consumers).filter options.tells =
      ledger.foundBudget placeholder budget ++
        (if options.warnDuplicates then ledger.foundRepeats placeholder budget consumers else []) ++
        (if options.warnOver then ledger.foundOverrun placeholder budget consumers else []) := by
  have hbudget := filter_tells options true
    fun f (hf : f ∈ ledger.foundBudget placeholder budget) => by
      rw [Options.tells, kind_of_mem_foundBudget hf]
  have hrepeats := filter_tells options options.warnDuplicates
    fun f (hf : f ∈ ledger.foundRepeats placeholder budget consumers) => by
      rw [Options.tells, kind_of_mem_foundRepeats hf]
  have hoverrun := filter_tells options options.warnOver
    fun f (hf : f ∈ ledger.foundOverrun placeholder budget consumers) => by
      rw [Options.tells, kind_of_mem_foundOverrun hf]
  rw [found, List.filter_append, List.filter_append, hbudget, hrepeats, hoverrun, if_pos rfl]

/-- In a run that is not strict a limit stops nothing. -/
theorem checkLimit_of_lax (h : ledger.settings.options.strict = false) (recorded : List String) :
    ledger.checkLimit placeholder budget recorded consumers =
      (.ok recorded, ledger.note (if ledger.settings.options.warnOver then
        (ledger.exceededLimit? budget recorded.length).toList.map fun limit =>
          overrunFinding .warning placeholder budget limit recorded.length consumers else [])) := by
  have hnote : ledger.note [] = ledger := by rw [note, List.append_nil]
  rw [checkLimit, h]
  cases ledger.exceededLimit? budget recorded.length with
  | none => simp [hnote]
  | some limit => cases ledger.settings.options.warnOver <;> simp [hnote]

/-- **A run that is not strict** stores the distinct consumers and tells what the
    flags let it. -/
theorem record_of_lax (h : ledger.settings.options.strict = false) (placeholder budget : String)
    (consumers : List String) :
    ledger.record placeholder budget consumers =
      (.ok (distinct (ledger.offered placeholder budget consumers)),
        ledger.recorded placeholder budget consumers
          ((ledger.found placeholder budget consumers).filter ledger.settings.options.tells)) := by
  have hd := dropRepeats_of_lax h placeholder
    (ledger.offered placeholder budget consumers)
  rw [offered] at hd
  rw [record]
  simp only [hd]
  rw [← offered, noteBudget_eq, store_note, checkLimit_of_lax (by exact h), note_recorded,
    settings_recorded, filter_tells_found]
  rfl

/-- What stops a strict run is the first repeat, or else the overrun. -/
theorem find?_stops_found :
    (ledger.found placeholder budget consumers).find? Finding.stops =
      (ledger.foundRepeats placeholder budget consumers).head?.or
        (ledger.foundOverrun placeholder budget consumers).head? := by
  have hall : ∀ findings : List Finding, (∀ f ∈ findings, f.kind ≠ .configuration) →
      findings.find? Finding.stops = findings.head? := by
    intro findings h
    cases findings with
    | nil => rfl
    | cons f rest =>
      exact List.find?_cons_of_pos (by simpa [Finding.stops] using h f (List.mem_cons_self ..))
  have hbudget : (ledger.foundBudget placeholder budget).find? Finding.stops = none :=
    List.find?_eq_none.2 fun f hf => by simp [Finding.stops, kind_of_mem_foundBudget hf]
  rw [found, List.find?_append, List.find?_append, hbudget, Option.none_or,
    hall _ fun f hf => by simp [kind_of_mem_foundRepeats hf],
    hall _ fun f hf => by simp [kind_of_mem_foundOverrun hf]]

/-- **A strict run** that finds no repeat and no overrun does the same. -/
theorem record_of_strict (h : ledger.settings.options.strict = true)
    (hn : (ledger.found placeholder budget consumers).find? Finding.stops = none) :
    ledger.record placeholder budget consumers =
      (.ok (distinct (ledger.offered placeholder budget consumers)),
        ledger.recorded placeholder budget consumers
          (ledger.found placeholder budget consumers)) := by
  rw [find?_stops_found, Option.or_eq_none_iff, List.head?_eq_none_iff,
    List.head?_eq_none_iff] at hn
  obtain ⟨hrepeats, hoverrun⟩ := hn
  have hd := dropRepeats_of_strict h placeholder (List.map_eq_nil_iff.1 hrepeats)
  have hl : ledger.exceededLimit? budget
      (distinct (ledger.offered placeholder budget consumers)).length = none := by
    simpa [foundOverrun] using hoverrun
  rw [offered] at hd
  rw [record]
  simp only [hd]
  rw [← offered, noteBudget_eq, store_note, found, hrepeats, hoverrun, List.append_nil,
    List.append_nil, checkLimit, exceededLimit?_recorded, hl]

/-- A strict run that finds a repeat stops at the first, before it stores anything. -/
theorem record_of_repeat (h : ledger.settings.options.strict = true) {s : String}
    {more : List String} (hr : repeats (ledger.offered placeholder budget consumers) = s :: more) :
    ledger.record placeholder budget consumers =
      (.error (.repeated (repeatFinding .error placeholder s)),
        ledger.note (ledger.foundBudget placeholder budget)) := by
  have hd := dropRepeats_of_repeat h placeholder hr
  rw [offered] at hd
  rw [record, hd, noteBudget_eq]

/-- A strict run that finds no repeat but an overrun stops at it, after it has stored the
    distinct consumers. -/
theorem record_of_overrun (h : ledger.settings.options.strict = true)
    (hr : repeats (ledger.offered placeholder budget consumers) = []) {limit : Nat}
    (hl : ledger.exceededLimit? budget
      (distinct (ledger.offered placeholder budget consumers)).length = some limit) :
    ledger.record placeholder budget consumers =
      (.error (.overrun (overrunFinding .error placeholder budget limit
          (distinct (ledger.offered placeholder budget consumers)).length consumers)),
        ledger.recorded placeholder budget consumers (ledger.foundBudget placeholder budget)) := by
  have hd := dropRepeats_of_strict h placeholder hr
  rw [offered] at hd
  rw [record]
  simp only [hd]
  rw [← offered, noteBudget_eq, store_note, checkLimit, exceededLimit?_recorded, hl,
    settings_recorded, h, List.append_nil]
  rfl

/-- A strict run that finds a repeat or an overrun stops at the first. -/
theorem record_of_stops (h : ledger.settings.options.strict = true) {f : Finding}
    (hf : (ledger.found placeholder budget consumers).find? Finding.stops = some f) :
    (ledger.record placeholder budget consumers).1 = .error f.fault := by
  rw [find?_stops_found] at hf
  cases hr : repeats (ledger.offered placeholder budget consumers) with
  | cons s more =>
    rw [foundRepeats, hr, List.map_cons, List.head?_cons, Option.some_or] at hf
    cases hf
    rw [record_of_repeat h hr]
    rfl
  | nil =>
    rw [foundRepeats, hr, List.map_nil, List.head?_nil, Option.none_or, foundOverrun] at hf
    cases hl : ledger.exceededLimit? budget
        (distinct (ledger.offered placeholder budget consumers)).length with
    | none => simp [hl] at hf
    | some limit =>
      simp only [hl, Option.toList_some, List.map_cons, List.head?_cons] at hf
      cases hf
      rw [record_of_overrun h hr hl]
      rfl

end Ledger

/-! ## Calls -/

/-- What a call does before it counts anything is the same for every ledger. -/
theorem Session.call_uniform (inh : Option Inheritance) (c : Call) :
    (∃ f, (∀ g, f ≠ .ledger g) ∧
      ∀ ledger, Session.call ⟨ledger, inh⟩ c = (.error f, ⟨ledger, inh⟩)) ∨
    (∃ inh', ∀ ledger : Ledger, Session.call ⟨ledger, inh⟩ c =
      ((ledger.record c.placeholder c.budget c.named).1.mapError SessionFault.ledger,
        ⟨(ledger.record c.placeholder c.budget c.named).2, inh'⟩)) := by
  by_cases hn : c.named = []
  · exact .inl ⟨.outsideSelector, fun _ hg => (by cases hg), fun _ => call_of_empty hn⟩
  · cases hi : inherit inh c.placeholder c.named c.flag with
    | error f =>
      exact .inl ⟨.inheritance f, fun _ hg => (by cases hg), fun _ => call_of_refused hn hi⟩
    | ok inh' => exact .inr ⟨inh', fun _ => call_of_inherited hn hi⟩

end StyleBudget
