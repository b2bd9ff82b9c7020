/-
  The usage of a session as a function of its history.

  A session may go on after a call that failed.  Its history are the calls that
  have been counted: those that gave a list, and those that only the limit has
  stopped.

  * `Session.run` makes calls one after the other, `Session.history` are those
    of them that have been counted;
  * `countedUnder?` is what a history counts for a placeholder under a budget,
    `lastListed?` the list that the latest call for a placeholder has led to;
  * `Usage.Keeps`: the usage is the one of a history;
  * `Usage.Keeps.call` is the step, `Usage.Keeps.run` the run, and
    `Session.usage_eq_history` the law for all runs.
-/
import StyleBudget.Proofs.Recording

namespace StyleBudget

/-! ## Runs and histories -/

namespace Session

/-- A session in which nothing has been counted. -/
def start (settings : Settings) (inh : Option Inheritance) : Session := ⟨.start settings, inh⟩

theorem consumers_start (settings : Settings) (inh : Option Inheritance)
    (budget placeholder : String) :
    (start settings inh).ledger.usage.consumers budget placeholder = [] :=
  congrArg (Option.getD · []) ((Usage.setUp_start settings.budgets.nodup).2 budget placeholder)

/-- The session after calls, each of them made whatever came of those before it. -/
def run (s : Session) : List Call → Session
  | [] => s
  | c :: rest => (s.call c).2.run rest

/-- The calls that have been counted, in order. -/
def history (s : Session) : List Call → List Call
  | [] => []
  | c :: rest =>
    if Counted (s.call c).1 then c :: (s.call c).2.history rest else (s.call c).2.history rest

end Session

def callsUnder (history : List Call) (budget placeholder : String) : List Call :=
  history.filter fun c => c.budget = budget ∧ c.placeholder = placeholder

/-- The distinct selectors of the calls for a placeholder under a budget, if there
    is such a call. -/
def countedUnder? (history : List Call) (budget placeholder : String) : Option (List String) :=
  if callsUnder history budget placeholder = [] then none
  else some (distinct ((callsUnder history budget placeholder).flatMap Call.named))

/-- The list that the latest call for a placeholder has led to, the latest call
    first.  Under the total budget it is added to the list before it; under any
    other budget that is set up it is all that this budget has counted, and under
    one that is not it is the call alone. -/
def lastListed? (budgets : List String) (placeholder : String) : List Call → Option (List String)
  | [] => none
  | c :: before =>
    if c.placeholder = placeholder then
      if c.budget = totalBudget then
        let held := (lastListed? budgets placeholder before).getD []
        some (held ++ distinct (c.named.filter fun s => s ∉ held))
      else if c.budget ∈ budgets then countedUnder? (c :: before).reverse c.budget placeholder
      else some (distinct c.named)
    else lastListed? budgets placeholder before

/-! ## One more call -/

theorem countedUnder?_append_of_ne {history : List Call} {c : Call} {budget placeholder : String}
    (h : ¬ (c.budget = budget ∧ c.placeholder = placeholder)) :
    countedUnder? (history ++ [c]) budget placeholder =
      countedUnder? history budget placeholder := by
  have hc : callsUnder (history ++ [c]) budget placeholder =
      callsUnder history budget placeholder := by
    rw [callsUnder, List.filter_append, List.filter_cons_of_neg (by simpa using h),
      List.filter_nil, List.append_nil, callsUnder]
  rw [countedUnder?, countedUnder?, hc]

theorem getD_countedUnder? (history : List Call) (budget placeholder : String) :
    (countedUnder? history budget placeholder).getD [] =
      distinct ((callsUnder history budget placeholder).flatMap Call.named) := by
  unfold countedUnder?
  split
  · rename_i h; rw [h]; rfl
  · rfl

theorem countedUnder?_append (history : List Call) (c : Call) :
    countedUnder? (history ++ [c]) c.budget c.placeholder =
      some (distinct ((countedUnder? history c.budget c.placeholder).getD [] ++ c.named)) := by
  have hc : callsUnder (history ++ [c]) c.budget c.placeholder =
      callsUnder history c.budget c.placeholder ++ [c] := by
    rw [callsUnder, List.filter_append, List.filter_cons_of_pos (by simp), List.filter_nil,
      callsUnder]
  rw [getD_countedUnder?, distinct_distinct_append, countedUnder?, hc, if_neg (by simp),
    List.flatMap_append, List.flatMap_singleton]

theorem nodup_lastListed? (budgets : List String) (placeholder : String) :
    ∀ calls : List Call, ((lastListed? budgets placeholder calls).getD []).Nodup
  | [] => List.nodup_nil
  | c :: before => by
    have ih := nodup_lastListed? budgets placeholder before
    rw [lastListed?]
    split
    · split
      · rw [Option.getD_some, ← distinct_append ih]
        exact nodup_distinct _
      · split
        · rw [getD_countedUnder?]
          exact nodup_distinct _
        · exact nodup_distinct _
    · exact ih

/-! ## The invariant -/

/-- The usage is the one of a history. -/
structure Usage.Keeps (u : Usage) (budgets : List String) (history : List Call) : Prop where
  names : u.budgetNames = budgets
  counted : ∀ budget ∈ budgets, budget ≠ totalBudget → ∀ placeholder,
    u.recorded? budget placeholder = countedUnder? history budget placeholder
  mirrored : totalBudget ∈ budgets → ∀ placeholder,
    u.recorded? totalBudget placeholder = lastListed? budgets placeholder history.reverse

namespace Usage.Keeps

variable {u : Usage} {s : Session} {budgets : List String} {history : List Call}

theorem start (settings : Settings) :
    (Ledger.start settings).usage.Keeps settings.budgets.keys [] := by
  obtain ⟨hk, hn⟩ := Usage.setUp_start settings.budgets.nodup
  exact ⟨hk, fun budget _ _ placeholder => hn budget placeholder,
    fun _ placeholder => hn totalBudget placeholder⟩

theorem listed_of_mem (h : u.Keeps budgets history) {c : Call} (hb : c.budget ∈ budgets)
    (ht : c.budget ≠ totalBudget) :
    some (distinct (u.consumers c.budget c.placeholder ++ c.named)) =
      countedUnder? (history ++ [c]) c.budget c.placeholder := by
  rw [Usage.consumers_eq, h.counted _ hb ht, countedUnder?_append]

theorem listed (h : u.Keeps budgets history) (hm : totalBudget ∈ budgets) (c : Call) :
    some (distinct (u.consumers c.budget c.placeholder ++ c.named)) =
      lastListed? budgets c.placeholder (history ++ [c]).reverse := by
  rw [List.reverse_append, List.reverse_cons, List.reverse_nil, List.nil_append,
    List.singleton_append, lastListed?, if_pos rfl]
  by_cases ht : c.budget = totalBudget
  · rw [if_pos ht, ht, Usage.consumers_eq, h.mirrored hm,
      distinct_append (nodup_lastListed? budgets c.placeholder history.reverse)]
  · rw [if_neg ht]
    by_cases hb : c.budget ∈ budgets
    · rw [if_pos hb, List.reverse_cons, List.reverse_reverse, h.listed_of_mem hb ht]
    · rw [if_neg hb, Usage.consumers_eq, Usage.recorded?_eq_none (h.names ▸ hb)]; rfl

/-- Storing what a counted call lists adds the call to the history. -/
theorem store (h : u.Keeps budgets history) (c : Call) :
    (Ledger.storedUsage u c.budget c.placeholder
      (distinct (u.consumers c.budget c.placeholder ++ c.named))).Keeps budgets
        (history ++ [c]) := by
  refine ⟨(Usage.budgetNames_storedUsage ..).trans h.names, ?_, ?_⟩
  · intro budget hb ht placeholder
    rw [Usage.recorded?_storedUsage, h.names]
    by_cases hc : c.budget = budget ∧ c.placeholder = placeholder
    · obtain ⟨rfl, rfl⟩ := hc
      rw [if_pos ⟨.inl rfl, hb, rfl⟩]
      exact h.listed_of_mem hb ht
    · rw [if_neg, countedUnder?_append_of_ne hc, h.counted budget hb ht]
      rintro ⟨rfl | rfl, -, rfl⟩
      · exact hc ⟨rfl, rfl⟩
      · exact ht rfl
  · intro hm placeholder
    rw [Usage.recorded?_storedUsage, h.names]
    by_cases hc : placeholder = c.placeholder
    · subst hc
      rw [if_pos ⟨.inr rfl, hm, rfl⟩]
      exact h.listed hm c
    · rw [if_neg fun hp => hc hp.2.2, h.mirrored hm, List.reverse_append, List.reverse_cons,
        List.reverse_nil, List.nil_append, List.singleton_append, lastListed?,
        if_neg fun hp => hc hp.symm]

theorem call (h : s.ledger.usage.Keeps budgets history) (c : Call) :
    (s.call c).2.ledger.usage.Keeps budgets
      (history ++ if Counted (s.call c).1 then [c] else []) := by
  rcases s.usage_call c with ⟨hc, hu, -⟩ | ⟨hc, hu⟩
  · rw [if_pos hc, hu]
    exact h.store c
  · rw [if_neg hc, hu, List.append_nil]
    exact h

theorem run (h : s.ledger.usage.Keeps budgets history) (calls : List Call) :
    (s.run calls).ledger.usage.Keeps budgets (history ++ s.history calls) := by
  induction calls generalizing s history with
  | nil => rw [Session.history, List.append_nil]; exact h
  | cons c rest ih =>
    have hrest := ih (h.call c)
    have hh : (history ++ if Counted (s.call c).1 then [c] else []) ++ (s.call c).2.history rest =
        history ++ s.history (c :: rest) := by
      rw [List.append_assoc, Session.history]
      split <;> rfl
    rw [hh] at hrest
    exact hrest

end Usage.Keeps

/-- **The history law.**  After any calls, made on whether or not those before
    them failed, the budgets are those of the settings, in their order; a budget
    other than the total one holds for each placeholder what the calls that have
    been counted count for it; and the total budget holds the list that the last
    of them for the placeholder has led to, which a call that gives a list gives
    as well. -/
theorem Session.usage_eq_history (settings : Settings) (inh : Option Inheritance)
    (calls : List Call) :
    ((start settings inh).run calls).ledger.usage.budgetNames = settings.budgets.keys ∧
    (∀ budget ∈ settings.budgets.keys, budget ≠ totalBudget → ∀ placeholder,
      ((start settings inh).run calls).ledger.usage.recorded? budget placeholder =
        countedUnder? ((start settings inh).history calls) budget placeholder) ∧
    (totalBudget ∈ settings.budgets.keys → ∀ placeholder,
      ((start settings inh).run calls).ledger.usage.recorded? totalBudget placeholder =
        lastListed? settings.budgets.keys placeholder
          ((start settings inh).history calls).reverse) ∧
    (totalBudget ∈ settings.budgets.keys → ∀ c consumers,
      (((start settings inh).run calls).call c).1 = .ok consumers →
      (((start settings inh).run calls).call c).2.ledger.usage.recorded? totalBudget c.placeholder =
        some consumers) := by
  have hs : (start settings inh).ledger.usage.Keeps settings.budgets.keys [] := .start settings
  have h := hs.run calls
  rw [List.nil_append] at h
  refine ⟨h.names, h.counted, h.mirrored, fun hm c consumers hc => ?_⟩
  rcases ((start settings inh).run calls).usage_call c with ⟨-, hu, hl⟩ | ⟨hn, -⟩
  · rw [hu, Usage.recorded?_storedUsage, h.names, if_pos ⟨.inr rfl, hm, rfl⟩, hl consumers hc]
  · rw [hc] at hn
    exact absurd (.listed consumers) hn

def twoLimits : Settings := ⟨.ofList [("total", 2), ("card", 2)], {}⟩

def mirroringCalls : List Call :=
  [⟨"p", "total", "", [".x"]⟩, ⟨"p", "card", "", [".y"]⟩]

/-- A budget that is not set up, and the total one again. -/
def laterCalls : List Call :=
  [⟨"p", "spare", "", [".z", ".v"]⟩, ⟨"p", "total", "", [".w", ".z"]⟩]

/-- A call under another budget replaces what the total budget holds, whether or not that budget
    is set up; one under the total budget adds to it. -/
theorem usage_eq_history_twoLimits :
    ((Session.start twoLimits none).run mirroringCalls).ledger.usage.recorded? totalBudget "p" =
        some [".y"] ∧
      ∃ s : Session, (Session.start twoLimits none).run (mirroringCalls ++ laterCalls) = s ∧
        s.ledger.usage.budgetNames = ["total", "card"] ∧
        s.ledger.usage.recorded? "card" "p" = some [".y"] ∧
        s.ledger.usage.recorded? totalBudget "p" = some [".z", ".v", ".w"] := by
  obtain ⟨-, -, hmirrored, -⟩ := Session.usage_eq_history twoLimits none mirroringCalls
  obtain ⟨hnames, hcounted, htotal, -⟩ :=
    Session.usage_eq_history twoLimits none (mirroringCalls ++ laterCalls)
  have hlast : lastListed? ["total", "card"] "p"
      ((Session.start twoLimits none).history mirroringCalls).reverse = some [".y"] := by decide +kernel
  have hcard : countedUnder? ((Session.start twoLimits none).history
      (mirroringCalls ++ laterCalls)) "card" "p" = some [".y"] := by decide +kernel
  have hall : lastListed? ["total", "card"] "p" ((Session.start twoLimits none).history
      (mirroringCalls ++ laterCalls)).reverse = some [".z", ".v", ".w"] := by decide +kernel
  have hset : totalBudget ∈ twoLimits.budgets.keys := List.mem_cons_self ..
  exact ⟨(hmirrored hset "p").trans hlast, _, rfl, hnames,
    (hcounted "card" (by decide) (by decide) "p").trans hcard, (htotal hset "p").trans hall⟩

end StyleBudget
