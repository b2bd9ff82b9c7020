/-
  What one counted extension does.

  A call can stop in front of the count: without a selector, at the inheritance,
  or in a strict run at a repeat.  From then on it stores one list under its
  budget and under the total budget, whatever the limit says about it
  afterwards.

  * `dropRepeatsAfter_cons_ok` is one selector of a list that goes through, and
    `eq_distinct_of_dropRepeats` all of them: what is kept are the first occurrences;
  * `Session.call_of_empty`, `call_of_refused` and `call_of_inherited` are the
    stages of a call;
  * `Ledger.record_cases` and `Session.call_cases` are all the ways in which a
    recording and a call can go;
  * `Usage.recorded?_storedUsage` is what storing a list changes;
  * `Session.usage_call` puts these together: `Counted` tells from the outcome
    whether the usage has changed; `Session.consumers_call` is the same for one list.
-/
import StyleBudget.Session

namespace StyleBudget

/-! ## Outcomes -/

section

variable {ε α β : Type} {outcome : Except ε α} {f : α → β}

theorem map_eq_ok_iff {b : β} : outcome.map f = .ok b ↔ ∃ a, outcome = .ok a ∧ f a = b := by
  cases outcome with
  | error e => exact iff_of_false nofun nofun
  | ok a =>
    constructor
    · intro h
      exact ⟨a, rfl, Except.ok.inj h⟩
    · rintro ⟨a', ha, rfl⟩
      rw [Except.ok.inj ha]
      rfl

theorem map_eq_error_iff {e : ε} : outcome.map f = .error e ↔ outcome = .error e := by
  cases outcome with
  | error e' => exact ⟨fun h => congrArg Except.error (Except.error.inj h), fun h => h ▸ rfl⟩
  | ok a => exact iff_of_false nofun nofun

end

/-! ## Repeats -/

section

variable {placeholder s : String} {options : Options} {selectors rest seen start kept : List String}
  {findings : List Finding}

/-- **The first selector** of a list that goes through: it is new and is kept, or a repeat that is
    dropped. -/
theorem dropRepeatsAfter_cons_ok
    (h : dropRepeatsAfter seen placeholder options (s :: rest) = .ok (kept, findings)) :
    (s ∉ seen ∧ ∃ more, dropRepeatsAfter (s :: seen) placeholder options rest =
      .ok (more, findings) ∧ kept = s :: more) ∨
    (s ∈ seen ∧ options.strict = false ∧ ∃ found,
      dropRepeatsAfter seen placeholder options rest = .ok (kept, found) ∧ findings =
        (if options.warnDuplicates then [repeatFinding .warning placeholder s] else []) ++ found) := by
  rw [dropRepeatsAfter] at h
  by_cases hs : s ∈ seen
  · rw [if_pos hs] at h
    cases hstrict : options.strict with
    | true =>
      rw [hstrict] at h
      cases h
    | false =>
      rw [if_neg (by rw [hstrict]; exact Bool.false_ne_true)] at h
      obtain ⟨⟨more, found⟩, hrest, heq⟩ := map_eq_ok_iff.1 h
      obtain ⟨rfl, rfl⟩ := Prod.mk.inj heq
      refine .inr ⟨hs, rfl, found, hrest, ?_⟩
      cases options.warnDuplicates <;> rfl
  · rw [if_neg hs] at h
    obtain ⟨⟨more, found⟩, hrest, heq⟩ := map_eq_ok_iff.1 h
    obtain ⟨rfl, rfl⟩ := Prod.mk.inj heq
    exact .inl ⟨hs, more, hrest, rfl⟩

/-- The selectors that are kept are those that would be added to the ones before
    them. -/
theorem foldl_addNew_of_dropRepeatsAfter (hseen : ∀ s, s ∈ start ↔ s ∈ seen)
    (h : dropRepeatsAfter seen placeholder options selectors = .ok (kept, findings)) :
    selectors.foldl addNew start = start ++ kept := by
  induction selectors generalizing seen start kept findings with
  | nil =>
    cases h
    exact (List.append_nil start).symm
  | cons s rest ih =>
    rw [List.foldl_cons]
    rcases dropRepeatsAfter_cons_ok h with ⟨hs, more, hrest, rfl⟩ | ⟨hs, -, found, hrest, -⟩
    · have hnext : ∀ t, t ∈ start ++ [s] ↔ t ∈ s :: seen := fun t => by
        rw [List.mem_append, List.mem_singleton, List.mem_cons, hseen t, or_comm]
      rw [addNew_of_notMem fun h => hs ((hseen s).1 h), ih hnext hrest, List.append_assoc]
      rfl
    · rw [addNew_of_mem ((hseen s).2 hs)]
      exact ih hseen hrest

end

theorem eq_distinct_of_dropRepeats {placeholder : String} {options : Options}
    {selectors kept : List String} {findings : List Finding}
    (h : dropRepeats placeholder options selectors = .ok (kept, findings)) :
    kept = distinct selectors := by
  have hk : selectors.foldl addNew [] = [] ++ kept :=
    foldl_addNew_of_dropRepeatsAfter (fun _ => Iff.rfl) h
  exact hk.symm

/-! ## Stored lists -/

namespace Usage

def recorded? (u : Usage) (budget placeholder : String) : Option (List String) :=
  (u.consumerMap? budget).bind fun m => m.get? placeholder

theorem consumers_eq (u : Usage) (budget placeholder : String) :
    u.consumers budget placeholder = (u.recorded? budget placeholder).getD [] := rfl

theorem recorded?_eq_none {u : Usage} {budget : String} (h : budget ∉ u.budgetNames)
    (placeholder : String) : u.recorded? budget placeholder = none := by
  have hn : u.budgets.get? budget = none := by
    rw [← Option.not_isSome_iff_eq_none]
    exact fun hs => h (Table.mem_keys_iff.2 hs)
  rw [recorded?, consumerMap?, hn]; rfl

theorem setUp_start {names : List String} (h : names.Nodup) :
    (({} : Usage).setUp names).budgetNames = names ∧
      ∀ budget placeholder, (({} : Usage).setUp names).recorded? budget placeholder = none := by
  have he : ({} : Usage).setUp names =
      ⟨.ofList (names.map fun name => (name, Table.empty))⟩ := rfl
  rw [he]
  constructor
  · have hk : (names.map fun name => (name, (Table.empty : ConsumerMap))).map Prod.fst = names := by
      rw [List.map_map]; exact List.map_id _
    rw [budgetNames, Table.keys_ofList, hk, distinct_of_nodup h]
  · intro budget placeholder
    unfold recorded? consumerMap?
    cases hg : (Table.ofList (names.map fun name =>
        (name, (Table.empty : ConsumerMap)))).get? budget with
    | none => rfl
    | some m =>
      obtain ⟨name, -, hm⟩ := List.mem_map.1 (Table.mem_of_get?_ofList hg)
      obtain ⟨-, rfl⟩ := Prod.mk.inj hm
      rfl

/-! ## Storing -/

section

variable (u : Usage) (budget placeholder : String) (stored : List String)

theorem budgetNames_record :
    ((u.record? budget placeholder stored).getD u).budgetNames = u.budgetNames := by
  unfold record? consumerMap?
  cases hg : u.budgets.get? budget with
  | none => rfl
  | some m =>
    have hk : budget ∈ u.budgets.keys := Table.mem_keys_iff.2 (by rw [hg]; rfl)
    exact (Table.keys_insert ..).trans (if_pos hk)

theorem recorded?_record (budget' placeholder' : String) :
    ((u.record? budget placeholder stored).getD u).recorded? budget' placeholder' =
      if budget' = budget ∧ budget' ∈ u.budgetNames ∧ placeholder' = placeholder then some stored
      else u.recorded? budget' placeholder' := by
  have hk : budget ∈ u.budgetNames ↔ (u.budgets.get? budget).isSome := Table.mem_keys_iff
  unfold record? recorded? consumerMap?
  cases hg : u.budgets.get? budget with
  | none =>
    rw [hg] at hk
    refine (if_neg ?_).symm
    rintro ⟨rfl, hb, -⟩
    cases hk.1 hb
  | some m =>
    rw [hg] at hk
    simp only [Option.map_some, Option.getD_some, Table.get?_insert]
    by_cases hb : budget' = budget
    · subst hb
      simp only [if_true, Option.bind_some, Table.get?_insert, hk.2 rfl, true_and, hg]
    · simp only [hb, false_and, if_false]

theorem budgetNames_storedUsage :
    (Ledger.storedUsage u budget placeholder stored).budgetNames = u.budgetNames := by
  unfold Ledger.storedUsage
  split
  · exact budgetNames_record u budget placeholder stored
  · exact (budgetNames_record ..).trans (budgetNames_record u budget placeholder stored)

/-- A list is stored under its budget and under the total budget, as far as these
    have been set up, and nothing else changes. -/
theorem recorded?_storedUsage (budget' placeholder' : String) :
    (Ledger.storedUsage u budget placeholder stored).recorded? budget' placeholder' =
      if (budget' = budget ∨ budget' = totalBudget) ∧ budget' ∈ u.budgetNames ∧
        placeholder' = placeholder then some stored
      else u.recorded? budget' placeholder' := by
  unfold Ledger.storedUsage
  by_cases hb : budget = totalBudget
  · simp only [hb, if_true, recorded?_record, or_self]
  · simp only [hb, if_false, recorded?_record, budgetNames_record]
    by_cases hs : budget' ∈ u.budgetNames ∧ placeholder' = placeholder
    · by_cases ht : budget' = totalBudget
      · simp only [ht, or_true, true_and]
        rw [if_pos (ht ▸ hs), if_pos (ht ▸ hs)]
      · simp only [ht, or_false, false_and, if_false]
    · simp only [hs, and_false, if_false]

end

end Usage

/-! ## Recordings -/

namespace Ledger

theorem usage_noteBudget (ledger : Ledger) (placeholder budget : String) :
    (ledger.noteBudget placeholder budget).usage = ledger.usage := by
  unfold noteBudget
  split <;> rfl

/-- A limit stops a strict run, and may add a finding to any other. -/
theorem checkLimit_cases (ledger : Ledger) (placeholder budget : String)
    (recorded consumers : List String) :
    (∃ more, ledger.checkLimit placeholder budget recorded consumers =
      (.ok recorded, ledger.note more)) ∨
    (∃ limit, ledger.settings.options.strict = true ∧
      ledger.exceededLimit? budget recorded.length = some limit ∧
      ledger.checkLimit placeholder budget recorded consumers =
        (.error (.overrun (overrunFinding .error placeholder budget limit recorded.length
          consumers)), ledger)) := by
  have hnote : ledger = ledger.note [] := by
    rw [note, List.append_nil]
  unfold checkLimit
  cases hl : ledger.exceededLimit? budget recorded.length with
  | none => exact .inl ⟨[], congrArg (Prod.mk _) hnote⟩
  | some limit =>
    by_cases hs : ledger.settings.options.strict = true
    · exact .inr ⟨limit, hs, rfl, if_pos hs⟩
    · simp only [hs, Bool.false_eq_true, if_false]
      split
      · exact .inl ⟨_, rfl⟩
      · exact .inl ⟨[], congrArg (Prod.mk _) hnote⟩

/-- A recording stops at a repeat, or else stores the first occurrences and is
    only then measured against the limit. -/
theorem record_cases (ledger : Ledger) (placeholder budget : String) (consumers : List String) :
    (∃ f, dropRepeats placeholder ledger.settings.options
        (ledger.usage.consumers budget placeholder ++ consumers) = .error f ∧
      ledger.record placeholder budget consumers =
        (.error (.repeated f), ledger.noteBudget placeholder budget)) ∨
    (∃ recorded findings, dropRepeats placeholder ledger.settings.options
        (ledger.usage.consumers budget placeholder ++ consumers) = .ok (recorded, findings) ∧
      recorded = distinct (ledger.usage.consumers budget placeholder ++ consumers) ∧
      ledger.record placeholder budget consumers =
        (((ledger.noteBudget placeholder budget).note findings).store budget placeholder
          recorded).checkLimit placeholder budget recorded consumers) := by
  cases hd : dropRepeats placeholder ledger.settings.options
      (ledger.usage.consumers budget placeholder ++ consumers) with
  | error f =>
    refine .inl ⟨f, rfl, ?_⟩
    rw [record, hd]
  | ok r =>
    obtain ⟨recorded, findings⟩ := r
    refine .inr ⟨recorded, findings, rfl, eq_distinct_of_dropRepeats hd, ?_⟩
    rw [record, hd]

end Ledger

/-! ## Calls -/

/-- What an extension with counting is given. -/
structure Call where
  placeholder : String
  budget : String := totalBudget
  flag : String := ""
  selectors : List String

/-- The selectors of a call that count. -/
def Call.named (c : Call) : List String := c.selectors.filter fun s => s ≠ ""

/-- The outcome of a call that has been counted: it gives the list, or is stopped
    by the limit alone. -/
inductive Counted : Except SessionFault (List String) → Prop
  | listed (consumers : List String) : Counted (.ok consumers)
  | overrun (f : Finding) : Counted (.error (.ledger (.overrun f)))

instance : DecidablePred Counted
  | .ok consumers => .isTrue (.listed consumers)
  | .error (.ledger (.overrun f)) => .isTrue (.overrun f)
  | .error .outsideSelector => .isFalse nofun
  | .error (.inheritance _) => .isFalse nofun
  | .error (.ledger (.repeated _)) => .isFalse nofun

namespace Session

def call (s : Session) (c : Call) : Except SessionFault (List String) × Session :=
  s.ext c.placeholder c.budget c.flag c.selectors

/-! ### The stages of a call -/

section

variable {s : Session} {c : Call}

theorem call_of_empty (hn : c.named = []) : s.call c = (.error .outsideSelector, s) :=
  if_pos (List.isEmpty_iff.2 hn)

/-- A call with selectors goes on as the inheritance has it. -/
theorem call_of_ne_nil (hn : c.named ≠ []) :
    s.call c =
      match inherit s.inheritance c.placeholder c.named c.flag with
      | .error f => (.error (.inheritance f), s)
      | .ok inh =>
        ((s.ledger.record c.placeholder c.budget c.named).1.mapError SessionFault.ledger,
          ⟨(s.ledger.record c.placeholder c.budget c.named).2, inh⟩) :=
  if_neg (mt List.isEmpty_iff.1 hn)

theorem call_of_refused (hn : c.named ≠ []) {f : InheritanceFault}
    (hf : inherit s.inheritance c.placeholder c.named c.flag = .error f) :
    s.call c = (.error (.inheritance f), s) := by
  rw [call_of_ne_nil hn, hf]

theorem call_of_inherited (hn : c.named ≠ []) {inh : Option Inheritance}
    (hi : inherit s.inheritance c.placeholder c.named c.flag = .ok inh) :
    s.call c =
      ((s.ledger.record c.placeholder c.budget c.named).1.mapError SessionFault.ledger,
        ⟨(s.ledger.record c.placeholder c.budget c.named).2, inh⟩) := by
  rw [call_of_ne_nil hn, hi]

end

/-- A call stops without a selector or at the inheritance, and else is recorded. -/
theorem call_cases (s : Session) (c : Call) :
    (c.named = [] ∧ s.call c = (.error .outsideSelector, s)) ∨
    (c.named ≠ [] ∧ ∃ f, inherit s.inheritance c.placeholder c.named c.flag = .error f ∧
      s.call c = (.error (.inheritance f), s)) ∨
    (c.named ≠ [] ∧ ∃ inh, inherit s.inheritance c.placeholder c.named c.flag = .ok inh ∧
      s.call c =
        ((s.ledger.record c.placeholder c.budget c.named).1.mapError SessionFault.ledger,
          ⟨(s.ledger.record c.placeholder c.budget c.named).2, inh⟩)) := by
  by_cases hn : c.named = []
  · exact .inl ⟨hn, call_of_empty hn⟩
  · cases hi : inherit s.inheritance c.placeholder c.named c.flag with
    | error f => exact .inr (.inl ⟨hn, f, rfl, call_of_refused hn hi⟩)
    | ok inh => exact .inr (.inr ⟨hn, inh, rfl, call_of_inherited hn hi⟩)

theorem exists_extend_of_inherit {inh : Inheritance} {placeholder flag : String}
    {selectors : List String} {inherited : Option Inheritance}
    (h : inherit (some inh) placeholder selectors flag = .ok inherited) :
    ∃ inh', inh.extend placeholder selectors flag = .ok inh' ∧ inherited = some inh' := by
  obtain ⟨inh', he, hsome⟩ := map_eq_ok_iff.1 h
  exact ⟨inh', he, hsome.symm⟩

/-- A call of a session with an inheritance leaves all as it is, or extends the
    placeholder before anything is counted. -/
theorem extend_of_call (ledger : Ledger) (inh : Inheritance) (c : Call) :
    (call ⟨ledger, some inh⟩ c).2 = ⟨ledger, some inh⟩ ∨
      ∃ inh', inh.extend c.placeholder c.named c.flag = .ok inh' ∧
        (call ⟨ledger, some inh⟩ c).2.inheritance = some inh' := by
  rcases call_cases ⟨ledger, some inh⟩ c with ⟨-, h⟩ | ⟨-, f, -, h⟩ | ⟨-, inherited, hi, h⟩
  · rw [h]
    exact .inl rfl
  · rw [h]
    exact .inl rfl
  · obtain ⟨inh', he, rfl⟩ := exists_extend_of_inherit hi
    rw [h]
    exact .inr ⟨inh', he, rfl⟩

/-- **What a call leaves in the usage.**  If it has been counted, the list that
    was there with the new selectors is stored, and this is the list that the call
    gives, if it gives one; if not, nothing has changed. -/
theorem usage_call (s : Session) (c : Call) :
    (Counted (s.call c).1 ∧
      (s.call c).2.ledger.usage = Ledger.storedUsage s.ledger.usage c.budget c.placeholder
        (distinct (s.ledger.usage.consumers c.budget c.placeholder ++ c.named)) ∧
      ∀ consumers, (s.call c).1 = .ok consumers →
        consumers = distinct (s.ledger.usage.consumers c.budget c.placeholder ++ c.named)) ∨
    (¬ Counted (s.call c).1 ∧ (s.call c).2.ledger.usage = s.ledger.usage) := by
  rcases s.call_cases c with ⟨-, h⟩ | ⟨-, f, -, h⟩ | ⟨-, inh, -, h⟩
  · rw [h]; exact .inr ⟨nofun, rfl⟩
  · rw [h]; exact .inr ⟨nofun, rfl⟩
  · rcases s.ledger.record_cases c.placeholder c.budget c.named with
      ⟨f, -, hr⟩ | ⟨recorded, findings, -, hd, hr⟩
    · rw [h, hr]
      exact .inr ⟨nofun, Ledger.usage_noteBudget ..⟩
    · have hu : Ledger.storedUsage (s.ledger.noteBudget c.placeholder c.budget).usage c.budget
          c.placeholder recorded =
            Ledger.storedUsage s.ledger.usage c.budget c.placeholder recorded := by
        rw [Ledger.usage_noteBudget]
      rcases Ledger.checkLimit_cases
          (((s.ledger.noteBudget c.placeholder c.budget).note findings).store c.budget c.placeholder
            recorded) c.placeholder c.budget recorded c.named with
        ⟨more, hc⟩ | ⟨limit, -, -, hc⟩
      · rw [h, hr, hc, ← hd]
        exact .inl ⟨.listed recorded, hu, fun consumers ho => (Except.ok.inj ho).symm⟩
      · rw [h, hr, hc, ← hd]
        exact .inl ⟨.overrun _, hu, nofun⟩

/-- A list after a call is the one that the call has stored for its placeholder, or the one that
    was there. -/
theorem consumers_call (s : Session) (c : Call) (budget placeholder : String) :
    (placeholder = c.placeholder ∧
      (s.call c).2.ledger.usage.consumers budget placeholder =
        distinct (s.ledger.usage.consumers c.budget c.placeholder ++ c.named)) ∨
    (s.call c).2.ledger.usage.consumers budget placeholder =
      s.ledger.usage.consumers budget placeholder := by
  rcases s.usage_call c with ⟨-, hu, -⟩ | ⟨-, hu⟩
  · rw [hu, Usage.consumers_eq, Usage.recorded?_storedUsage]
    split
    · rename_i hstored
      exact .inl ⟨hstored.2.2, rfl⟩
    · exact .inr rfl
  · rw [hu]
    exact .inr rfl

end Session

end StyleBudget
