/-
  What one call adds.

  Every call looks again at the list that is stored for its placeholder, with its own selectors
  behind it.  No stored list holds a selector twice, so all repeats that are found there are
  those of the new selectors, each in its turn.

  * `Session.Reachable` are the sessions that calls lead to, `Session.Sound` is the invariant
    about what they store: `Sound.call` is the step, `Reachable.sound` the run;
  * `Session.call_of_reachable` is all that a call does in such a session.
-/
import StyleBudget.Proofs.Occurrences
import StyleBudget.Proofs.Strict

namespace StyleBudget

/-! ## Sessions that calls lead to -/

namespace Session

/-- The sessions that calls lead to, whatever comes of them.  The consumers of placeholders are
    shared, so that others may extend one in between. -/
inductive Reachable (settings : Settings) : Session → Prop
  | start (inh : Option Inheritance) : Reachable settings (.start settings inh)
  | call {s : Session} (h : Reachable settings s) (c : Call) : Reachable settings (s.call c).2
  | shared {s : Session} (h : Reachable settings s) (inh : Option Inheritance) :
    Reachable settings { s with inheritance := inh }

/-- What is stored in a session: lists without repeats and without empty selectors, under the
    budgets of the settings. -/
structure Sound (s : Session) (settings : Settings) : Prop where
  kept : s.ledger.settings = settings
  names : s.ledger.usage.budgetNames = settings.budgets.keys
  nodup : ∀ budget placeholder, (s.ledger.usage.consumers budget placeholder).Nodup
  named : ∀ budget placeholder, "" ∉ s.ledger.usage.consumers budget placeholder

end Session

theorem Ledger.settings_record (ledger : Ledger) (placeholder budget : String)
    (consumers : List String) :
    (ledger.record placeholder budget consumers).2.settings = ledger.settings := by
  have hnoted : (ledger.noteBudget placeholder budget).settings = ledger.settings := by
    rw [noteBudget]
    split <;> rfl
  rcases ledger.record_cases placeholder budget consumers with
    ⟨f, -, h⟩ | ⟨recorded, findings, -, -, h⟩
  · rw [h]
    exact hnoted
  · rcases checkLimit_cases (((ledger.noteBudget placeholder budget).note findings).store budget
        placeholder recorded) placeholder budget recorded consumers with
      ⟨more, hc⟩ | ⟨limit, -, -, hc⟩
    · rw [h, hc]
      exact hnoted
    · rw [h, hc]
      exact hnoted

namespace Session

variable {s : Session} {settings : Settings}

theorem settings_call (s : Session) (c : Call) :
    (s.call c).2.ledger.settings = s.ledger.settings := by
  rcases s.call_cases c with ⟨-, h⟩ | ⟨-, f, -, h⟩ | ⟨-, inh, -, h⟩
  · rw [h]
  · rw [h]
  · rw [h]
    exact s.ledger.settings_record ..

theorem Sound.start (settings : Settings) (inh : Option Inheritance) :
    (Session.start settings inh).Sound settings := by
  refine ⟨rfl, (Usage.setUp_start settings.budgets.nodup).1, fun budget placeholder => ?_,
    fun budget placeholder => ?_⟩
  · rw [consumers_start]
    exact List.nodup_nil
  · rw [consumers_start]
    exact List.not_mem_nil

/-- No empty selector is offered, as none is held and a call does not count any. -/
theorem Sound.empty_notMem_offered (h : s.Sound settings) (c : Call) :
    "" ∉ distinct (s.ledger.offered c.placeholder c.budget c.named) := by
  rw [mem_distinct, Ledger.offered, List.mem_append, not_or]
  exact ⟨h.named c.budget c.placeholder, fun hm => by simp [Call.named] at hm⟩

/-- **One call**: what it stores has no repeats and no empty selector. -/
theorem Sound.call (h : s.Sound settings) (c : Call) : (s.call c).2.Sound settings := by
  refine ⟨(s.settings_call c).trans h.kept, ?_, fun budget placeholder => ?_,
    fun budget placeholder => ?_⟩
  · rcases s.usage_call c with ⟨-, hu, -⟩ | ⟨-, hu⟩
    · rw [hu, Usage.budgetNames_storedUsage, h.names]
    · rw [hu, h.names]
  · rcases s.consumers_call c budget placeholder with ⟨-, hl⟩ | hl
    · rw [hl]
      exact nodup_distinct _
    · rw [hl]
      exact h.nodup budget placeholder
  · rcases s.consumers_call c budget placeholder with ⟨-, hl⟩ | hl
    · rw [hl]
      exact h.empty_notMem_offered c
    · rw [hl]
      exact h.named budget placeholder

/-- **Calls one after the other.** -/
theorem Reachable.sound (h : Reachable settings s) : s.Sound settings := by
  induction h with
  | start inh => exact .start settings inh
  | call _ c ih => exact ih.call c
  | shared _ inh ih => exact ⟨ih.kept, ih.names, ih.nodup, ih.named⟩

/-! ## One call -/

/-- The list that is stored for the placeholder and the budget of a call; empty if there is
    none. -/
def held (s : Session) (c : Call) : List String :=
  s.ledger.usage.consumers c.budget c.placeholder

/-- The list with the new selectors of a call behind it, each once. -/
def extended (s : Session) (c : Call) : List String :=
  s.held c ++ distinct (c.named.filter fun selector => selector ∉ s.held c)

/-- The warning about the limit of a budget, if the list is longer than that. -/
def overruns (settings : Settings) (c : Call) (listed : List String) : List Finding :=
  match settings.limit? c.budget with
  | some limit =>
    if limit < listed.length then
      [overrunFinding .warning c.placeholder c.budget limit listed.length c.named]
    else []
  | none => []

theorem Sound.contains (h : s.Sound settings) (budget : String) :
    s.ledger.usage.contains budget = true ↔ budget ∈ settings.budgets.keys := by
  rw [← h.names]
  exact Table.mem_keys_iff.symm

theorem Sound.foundBudget (h : s.Sound settings) (c : Call) :
    s.ledger.foundBudget c.placeholder c.budget =
      if c.budget ∈ settings.budgets.keys then []
      else [unknownBudgetFinding c.placeholder c.budget] := by
  rw [Ledger.foundBudget]
  simp only [h.contains]

theorem Sound.distinct_offered (h : s.Sound settings) (c : Call) :
    distinct (s.ledger.offered c.placeholder c.budget c.named) = s.extended c :=
  distinct_append (h.nodup c.budget c.placeholder) c.named

theorem Sound.repeats_offered (h : s.Sound settings) (c : Call) :
    repeats (s.ledger.offered c.placeholder c.budget c.named) = repeatedIn (s.held c) c.named :=
  repeats_append (h.nodup c.budget c.placeholder) c.named

theorem Sound.foundOverrun (h : s.Sound settings) (c : Call) :
    s.ledger.foundOverrun c.placeholder c.budget c.named = overruns settings c (s.extended c) := by
  rw [Ledger.foundOverrun, h.distinct_offered, Ledger.exceededLimit?, h.kept, overruns]
  cases settings.limit? c.budget with
  | none => rfl
  | some limit =>
    simp only [Option.filter_some, decide_eq_true_eq]
    split <;> rfl

/-- **One call flags the new repeats and no others.**  Take a session that calls have led to
    and that warns of everything but is not strict, and a call with a selector whose placeholder
    may be extended.  It gives the list that is stored for it with the new selectors behind it,
    each once, and stores that under its budget if there is such a budget.  It adds these
    warnings, in this order: one if there is no such budget; one for every position among its
    selectors at which one stands that is in the list or earlier among them; and one if the
    budget has a limit below the length of the list, about the difference.  So the repeats make
    up for what the list does not grow. -/
theorem call_of_reachable (hs : Reachable settings s) (hl : settings.Lax) {c : Call}
    (hn : c.named ≠ []) {inh : Option Inheritance}
    (hi : inherit s.inheritance c.placeholder c.named c.flag = .ok inh) :
    (s.call c).1 = .ok (s.extended c) ∧
    (c.budget ∉ settings.budgets.keys → s.held c = []) ∧
    (c.budget ∈ settings.budgets.keys →
      (s.call c).2.ledger.usage.recorded? c.budget c.placeholder = some (s.extended c)) ∧
    (s.call c).2.ledger.findings = s.ledger.findings ++
      (if c.budget ∈ settings.budgets.keys then []
        else [unknownBudgetFinding c.placeholder c.budget]) ++
      (repeatedIn (s.held c) c.named).map (repeatFinding .warning c.placeholder) ++
      overruns settings c (s.extended c) ∧
    (repeatedIn (s.held c) c.named).length + (s.extended c).length =
      c.named.length + (s.held c).length ∧
    (s.extended c).Nodup ∧ "" ∉ s.extended c := by
  have h := hs.sound
  have hlax : s.ledger.settings.Lax := h.kept ▸ hl
  have hcall : s.call c = (.ok (s.extended c),
      ⟨s.ledger.recorded c.placeholder c.budget c.named
        (s.ledger.found c.placeholder c.budget c.named), inh⟩) := by
    rcases s.call_cases c with ⟨he, -⟩ | ⟨-, f, hf, -⟩ | ⟨-, inh', hi', hc⟩
    · exact absurd he hn
    · cases hf.symm.trans hi
    · rw [hc, hlax.record, h.distinct_offered, Except.ok.inj (hi'.symm.trans hi)]
      rfl
  refine ⟨by rw [hcall], fun hb => ?_, fun hb => ?_, ?_, ?_, ?_, ?_⟩
  · rw [held, Usage.consumers_eq, Usage.recorded?_eq_none (h.names ▸ hb)]
    rfl
  · rw [hcall, Ledger.recorded, Usage.recorded?_storedUsage, h.names, if_pos ⟨.inl rfl, hb, rfl⟩,
      h.distinct_offered]
  · rw [hcall, Ledger.recorded, Ledger.found, h.foundBudget, Ledger.foundRepeats,
      h.repeats_offered, h.foundOverrun, ← List.append_assoc, ← List.append_assoc]
  · have hlength := length_repeats (s.ledger.offered c.placeholder c.budget c.named)
    rw [h.repeats_offered, h.distinct_offered, Ledger.offered, List.length_append] at hlength
    rw [hlength, Nat.add_comm, held]
  · rw [← h.distinct_offered]
    exact nodup_distinct _
  · rw [← h.distinct_offered]
    exact h.empty_notMem_offered c

end Session

def oneConsumer : Settings := ⟨.ofList [("total", 1)], {}⟩

/-- A session in which one selector is held. -/
def heldSession : Session :=
  ((Session.start oneConsumer (some (.declare ["p"]))).call ⟨"p", "total", "", [".x"]⟩).2

/-- A call with that selector, and a new one twice. -/
def repeatedCall : Call := ⟨"p", "total", "", [".y", ".x", "", ".y"]⟩

theorem call_repeatedCall :
    Session.Reachable oneConsumer heldSession ∧ oneConsumer.Lax ∧ repeatedCall.named ≠ [] ∧
      (∃ inh, Session.inherit heldSession.inheritance "p" repeatedCall.named "" = .ok inh) ∧
      (heldSession.call repeatedCall).1 = .ok [".x", ".y"] ∧
      (heldSession.call repeatedCall).2.ledger.findings =
        [repeatFinding .warning "p" ".x", repeatFinding .warning "p" ".y",
          overrunFinding .warning "p" "total" 1 2 [".y", ".x", ".y"]] := by
  have hs : Session.Reachable oneConsumer heldSession := .call (.start _) _
  have hl : oneConsumer.Lax := ⟨rfl, rfl, rfl⟩
  have hn : repeatedCall.named ≠ [] := by decide
  obtain ⟨inh, hi⟩ : ∃ inh,
      Session.inherit heldSession.inheritance "p" repeatedCall.named "" = .ok inh := ⟨_, rfl⟩
  obtain ⟨hout, -, -, hfindings, -⟩ := Session.call_of_reachable hs hl hn hi
  have hextended : heldSession.extended repeatedCall = [".x", ".y"] := by decide +kernel
  refine ⟨hs, hl, hn, ⟨inh, hi⟩, hextended ▸ hout, hfindings.trans ?_⟩
  decide +kernel

end StyleBudget
