/-
  The arithmetic of a report, and its two views.

  A report on a budget is made in one pass over the placeholders.  Its headline gives numbers
  that do not depend on what is listed below it; the view of the overruns leaves out lines of
  the full view, and nothing else.  There is no report if the greatest of these numbers has more
  digits than an integer may have.

  * `Tally` is what the pass keeps, `Tally.add` its step and `Tally.foldl_add` the run;
    `budgetText_eq_tally` makes the text from it;
  * `Headline` are the numbers of a headline; `Headline.text_append_inj` reads them off a text;
  * `ConsumerMap.exceeding` are the placeholders over a limit; `flatMap_placeholderLines` says
    which of all are listed;
  * `budgetReport_views` is the result.
-/
import Mathlib
import StyleBudget.Proofs.Gaps
import StyleBudget.Proofs.Overruns
import StyleBudget.Proofs.Writing

namespace StyleBudget

/-! ## One pass -/

/-- What a pass over placeholders keeps: how many of them are over the limit, the number of
    consumers of the latest, and the lines so far. -/
structure Tally where
  exceeded : Nat := 0
  used : Nat := 0
  lines : List String := []

/-- The step of the pass. -/
def Tally.add (options : Options) (limit : Nat) (t : Tally) (p : String × List String) : Tally where
  exceeded := if limit < p.2.length then t.exceeded + 1 else t.exceeded
  used := p.2.length
  lines := t.lines ++ placeholderLines options limit p.1 p.2

/-- The run: the pass counts the placeholders over the limit, forgets all numbers of consumers
    but the last, and puts the lines one after the other. -/
theorem Tally.foldl_add (options : Options) (limit : Nat) (entries : List (String × List String))
    (t : Tally) :
    entries.foldl (Tally.add options limit) t =
      { exceeded := t.exceeded + entries.countP fun p => limit < p.2.length
        used := (entries.getLast?.map fun p => p.2.length).getD t.used
        lines := t.lines ++ entries.flatMap fun p => placeholderLines options limit p.1 p.2 } := by
  induction entries generalizing t with
  | nil => simp
  | cons p rest ih =>
    rw [List.foldl_cons, ih, List.countP_cons, List.getLast?_cons, List.flatMap_cons,
      ← List.append_assoc]
    simp only [Tally.add, Tally.mk.injEq, decide_eq_true_eq, Option.map_some, Option.getD_some,
      and_true]
    constructor
    · split <;> omega
    · cases rest.getLast? <;> rfl

/-! ## Headlines -/

/-- What a headline tells about a budget. -/
structure Headline where
  good : Bool
  exceeded : Nat
  size : Nat
  limit : Nat
  last : Nat
  capacity : Nat
  deriving DecidableEq, Repr

namespace Headline

def text (budget : String) (h : Headline) : String :=
  (if h.good then "All good!" else "⚠ Check your extends") ++ " - " ++ h.exceeded.repr ++ " of "
    ++ h.size.repr ++ " " ++ budget ++ " (" ++ h.limit.repr ++ ", " ++ h.last.repr ++ "/"
    ++ h.capacity.repr ++ " ratio)"

/-- A number is read off a text if a separator follows that begins with no digit. -/
theorem repr_append_inj {n k : Nat} {sep s t : String}
    (hsep : sep.toList.head?.map Char.isDigit = some false)
    (h : n.repr ++ (sep ++ s) = k.repr ++ (sep ++ t)) : n = k ∧ s = t := by
  have hstops : ∀ u : String, Stops Char.isDigit (sep ++ u).toList := by
    intro u c hc
    rw [String.toList_append, List.head?_append] at hc
    cases hhead : sep.toList.head? with
    | none => rw [hhead] at hsep; cases hsep
    | some d =>
      rw [hhead] at hsep hc
      cases hc
      exact Option.some.inj hsep
  have hdigits : ∀ n : Nat, ∀ c ∈ n.repr.toList, c.isDigit = true := by
    intro n c hc
    rw [Nat.toList_repr] at hc
    exact isDigit_of_mem_toDigits hc
  have hl := congrArg String.toList h
  rw [String.toList_append, String.toList_append (s := k.repr)] at hl
  have hn := scan_append (hdigits n) (hstops s)
  have hk := scan_append (hdigits k) (hstops t)
  rw [hl] at hn
  refine ⟨Nat.repr_inj.1 (String.toList_inj.1 (hn.1.symm.trans hk.1)), ?_⟩
  have hrest := String.toList_inj.1 (hn.2.symm.trans hk.2)
  exact (String.append_right_inj sep).1 hrest

/-- **A headline** is read off a text in one way only. -/
theorem text_append_inj {budget : String} {h h' : Headline} {rest rest' : String}
    (heq : h.text budget ++ rest = h'.text budget ++ rest') : h = h' ∧ rest = rest' := by
  obtain ⟨good, exceeded, size, limit, last, capacity⟩ := h
  obtain ⟨good', exceeded', size', limit', last', capacity'⟩ := h'
  simp only [text, String.append_assoc] at heq
  have hstart : ∀ (good : Bool) (tail : String),
      ((if good then "All good!" else "⚠ Check your extends") ++ tail).toList.head? =
        some (if good then 'A' else '⚠') := by
    intro good tail
    rw [String.toList_append]
    cases good with
    | false => rfl
    | true => rfl
  have hfirst := congrArg (fun line : String => line.toList.head?) heq
  simp only [hstart, Option.some.injEq] at hfirst
  have hgood : good = good' := by
    revert hfirst
    cases good <;> cases good' <;> decide
  subst hgood
  rw [String.append_right_inj, String.append_right_inj] at heq
  obtain ⟨hexceeded, hsize⟩ := repr_append_inj (by decide) heq
  obtain ⟨hsize, hbudget⟩ := repr_append_inj (by decide) hsize
  rw [String.append_right_inj, String.append_right_inj] at hbudget
  obtain ⟨hlimit, hlast⟩ := repr_append_inj (by decide) hbudget
  obtain ⟨hlast, hcapacity⟩ := repr_append_inj (by decide) hlast
  obtain ⟨hcapacity, hrest⟩ := repr_append_inj (by decide) hcapacity
  exact ⟨by rw [hexceeded, hsize, hlimit, hlast, hcapacity], hrest⟩

end Headline

/-- The headline after a pass. -/
def Tally.headline (t : Tally) (options : Options) (limit size : Nat) : Headline where
  good := t.exceeded = 0 ∧ options.showAll
  exceeded := t.exceeded
  size := size
  limit := limit
  last := t.used
  capacity := limit * size

/-- The pass over all placeholders under a budget. -/
def tally (m : ConsumerMap) (budget : String) (settings : Settings) : Tally :=
  m.entries.foldl (Tally.add settings.options (settings.bound budget)) {}

/-- The headline of the report on a budget. -/
def headlineOf (m : ConsumerMap) (budget : String) (settings : Settings) : Headline :=
  (tally m budget settings).headline settings.options (settings.bound budget) m.size

theorem tally_eq (m : ConsumerMap) (budget : String) (settings : Settings) :
    tally m budget settings =
      ⟨overCount (settings.bound budget) m, lastUsed m, m.entries.flatMap fun p =>
        placeholderLines settings.options (settings.bound budget) p.1 p.2⟩ := by
  rw [tally, Tally.foldl_add, Nat.zero_add, List.nil_append, overCount, lastUsed]
  cases m.entries.getLast? <;> rfl

/-- **One pass** makes the text. -/
theorem budgetText_eq_tally {m : ConsumerMap} (hne : m.isEmpty = false) (budget : String)
    (settings : Settings) :
    budgetText m budget settings =
      "\n".intercalate
        ((headlineOf m budget settings).text budget :: (tally m budget settings).lines) ++
          "\n\n" := by
  rw [budgetText, hne, headlineOf, tally_eq]
  simp only [Bool.false_eq_true, if_false, Tally.headline, Headline.text, headline,
    decide_eq_true_eq]

/-! ## Placeholders and their lines -/

namespace ConsumerMap

/-- The consumers of a placeholder; none if it has not been used. -/
def consumers (m : ConsumerMap) (placeholder : String) : List String :=
  (m.get? placeholder).getD []

/-- The placeholders with more consumers than a limit, in the order of the map. -/
def exceeding (m : ConsumerMap) (limit : Nat) : List String :=
  m.keys.filter fun placeholder => limit < (m.consumers placeholder).length

variable (m : ConsumerMap)

theorem entries_eq : m.entries = m.keys.map fun k => (k, m.consumers k) :=
  m.entries_eq_map_keys []

theorem overCount_eq (limit : Nat) : overCount limit m = (m.exceeding limit).length := by
  rw [overCount, m.entries_eq, List.countP_map, exceeding, ← List.countP_eq_length_filter]
  rfl

theorem lastUsed_eq (hne : m.isEmpty = false) :
    m.keys.getLast?.map (fun k => (m.consumers k).length) = some (lastUsed m) := by
  have hlast : m.entries.getLast?.map (fun p => p.2.length) =
      m.keys.getLast?.map fun k => (m.consumers k).length := by
    rw [m.entries_eq, List.getLast?_map, Option.map_map]
    rfl
  rw [← hlast, lastUsed]
  cases hentries : m.entries.getLast? with
  | none =>
    rw [List.getLast?_eq_none_iff] at hentries
    rw [Table.isEmpty, hentries] at hne
    cases hne
  | some p => rfl

/-- The placeholders whose lines stand in a report. -/
theorem flatMap_placeholderLines (options : Options) (limit : Nat) :
    m.entries.flatMap (fun p => placeholderLines options limit p.1 p.2) =
      (m.keys.filter fun k => limit < (m.consumers k).length ∨ options.overOnly = false).flatMap
        fun k => twoLines limit k (m.consumers k) := by
  rw [m.entries_eq, List.flatMap_map]
  simp only [placeholderLines_eq]
  induction m.keys with
  | nil => rfl
  | cons k rest ih =>
    rw [List.flatMap_cons, ih, List.filter_cons]
    simp only [decide_eq_true_eq]
    split <;> rfl

end ConsumerMap

/-! ## Views -/

/-- The settings with the view of the overruns, or the full view. -/
def Settings.listing (settings : Settings) (overOnly : Bool) : Settings :=
  { settings with options := { settings.options with overOnly := overOnly } }

/-- What is listed does not change the headline. -/
theorem headlineOf_listing (m : ConsumerMap) (budget : String) (settings : Settings)
    (overOnly : Bool) :
    headlineOf m budget (settings.listing overOnly) = headlineOf m budget settings := by
  rw [headlineOf, headlineOf, tally_eq, tally_eq]
  rfl

section

variable {m : ConsumerMap}

/-- A text in either view: the same headline, and the lines of the placeholders that are
    listed. -/
theorem budgetText_listing (hne : m.isEmpty = false) (budget : String) (settings : Settings)
    (overOnly : Bool) :
    budgetText m budget (settings.listing overOnly) =
      "\n".intercalate ((headlineOf m budget settings).text budget ::
        (m.keys.filter fun k =>
            settings.bound budget < (m.consumers k).length ∨ overOnly = false).flatMap
          fun k => twoLines (settings.bound budget) k (m.consumers k)) ++ "\n\n" := by
  have hbound : (settings.listing overOnly).bound budget = settings.bound budget := rfl
  rw [budgetText_eq_tally hne, headlineOf_listing, tally_eq, hbound, m.flatMap_placeholderLines]
  rfl

/-- **The arithmetic of a report and its two views.**  Take a budget under which placeholders
    have been used.  In either view there is a report exactly if the limit times the number of
    placeholders has no more digits than an integer may have.  It begins with one headline, and no
    other one can be read off it.  The headline counts the placeholders with more consumers than
    the limit, and is the good one exactly if there are none and it may be shown; with the limit
    it gives the number of consumers of the last placeholder, against the limit times the number
    of placeholders.  Below it the full view has two lines for each placeholder in the order of
    the map, and the view of the overruns has the same lines without those of the placeholders
    within the limit.  The second line tells of an overrun exactly if there is one, by the
    number of consumers above the limit. -/
theorem budgetReport_views (hne : m.isEmpty = false) (budget : String) (settings : Settings) :
    ∃ head : Headline,
      head.exceeded = (m.exceeding (settings.bound budget)).length ∧
      (head.good = true ↔ head.exceeded = 0 ∧ settings.options.showAll = true) ∧
      head.size = m.keys.length ∧ head.limit = settings.bound budget ∧
      m.keys.getLast?.map (fun k => (m.consumers k).length) = some head.last ∧
      head.capacity = settings.bound budget * m.keys.length ∧
      (∀ overOnly other rest,
        budgetReport m budget (settings.listing overOnly) = .ok (other.text budget ++ rest) →
          other = head) ∧
      (∀ text, budgetReport m budget (settings.listing false) = .ok text ↔
        head.capacity.repr.length ≤ maxIntegerDigits ∧
        "\n".intercalate (head.text budget ::
          m.keys.flatMap fun k => twoLines (settings.bound budget) k (m.consumers k)) ++ "\n\n" =
            text) ∧
      (∀ text, budgetReport m budget (settings.listing true) = .ok text ↔
        head.capacity.repr.length ≤ maxIntegerDigits ∧
        "\n".intercalate (head.text budget ::
          (m.exceeding (settings.bound budget)).flatMap fun k =>
            twoLines (settings.bound budget) k (m.consumers k)) ++ "\n\n" = text) ∧
      ∀ k ∈ m.keys, ∀ excess,
        consumersLine (settings.bound budget) (m.consumers k) =
            overageLine excess (m.consumers k) ↔
          k ∈ m.exceeding (settings.bound budget) ∧ 1 ≤ excess ∧
            (m.consumers k).length = settings.bound budget + excess := by
  have hsize : m.size = m.keys.length := (List.length_map _).symm
  have hgiven : ∀ overOnly text, budgetReport m budget (settings.listing overOnly) = .ok text ↔
      (headlineOf m budget settings).capacity.repr.length ≤ maxIntegerDigits ∧
        budgetText m budget (settings.listing overOnly) = text := by
    intro overOnly text
    rw [budgetReport_eq_ok_iff, isWritable, decide_eq_true_eq]
    rfl
  refine ⟨headlineOf m budget settings, ?_, ?_, hsize, rfl, ?_, ?_, ?_, fun text => ?_,
    fun text => ?_, ?_⟩
  · rw [headlineOf, tally_eq]
    exact m.overCount_eq _
  · simp only [headlineOf, Tally.headline, decide_eq_true_eq]
  · rw [headlineOf, tally_eq]
    exact m.lastUsed_eq hne
  · rw [← hsize]
    rfl
  · intro overOnly other rest h
    have htext := ((hgiven overOnly _).1 h).2
    rw [budgetText_listing hne, intercalate_cons, String.append_assoc] at htext
    exact (Headline.text_append_inj htext).1.symm
  · rw [hgiven, budgetText_listing hne]
    simp only [or_true, decide_true, List.filter_true]
  · rw [hgiven, budgetText_listing hne]
    simp only [Bool.true_eq_false, or_false]
    rfl
  · intro k hk excess
    rw [consumersLine_eq_overageLine_iff, ConsumerMap.exceeding, List.mem_filter, decide_eq_true_eq]
    constructor
    · rintro ⟨hover, rfl⟩
      exact ⟨⟨hk, hover⟩, by omega, by omega⟩
    · rintro ⟨⟨-, hover⟩, -, hlength⟩
      exact ⟨hover, by omega⟩

end

/-- One placeholder over the limit, and one within it. -/
def mixedMap : ConsumerMap := .ofList [("card", [".a", ".b", ".c"]), ("box", [".x"])]

def headingLimit : Settings := ⟨.ofList [("heading", 2)], {}⟩

theorem budgetReport_mixedMap :
    mixedMap.isEmpty = false ∧
      budgetReport mixedMap "heading" (headingLimit.listing false) =
        .ok ("⚠ Check your extends - 1 of 2 heading (2, 1/4 ratio)\n3/2 - %card\n" ++
          "  !! over by 1: .a, .b, .c\n1/2 - %box\n    .x\n\n") ∧
      budgetReport mixedMap "heading" (headingLimit.listing true) =
        .ok ("⚠ Check your extends - 1 of 2 heading (2, 1/4 ratio)\n3/2 - %card\n" ++
          "  !! over by 1: .a, .b, .c\n\n") := by
  have hne : mixedMap.isEmpty = false := rfl
  obtain ⟨head, hexceeded, hgood, hsize, hlimit, hlast, hcapacity, -, hfull, honly, -⟩ :=
    budgetReport_views hne "heading" headingLimit
  have hhead : head = ⟨false, 1, 2, 2, 1, 4⟩ := by
    have hnone : mixedMap.exceeding (headingLimit.bound "heading") = ["card"] := by decide +kernel
    have hcount : head.exceeded = 1 := by rw [hexceeded, hnone]; rfl
    have hnot : head.good = false := by
      rw [Bool.eq_false_iff, Ne, hgood, hcount]
      omega
    have hbox : some 1 = some head.last := hlast
    obtain ⟨good, exceeded, size, limit, last, capacity⟩ := head
    cases hbox
    rw [Headline.mk.injEq]
    exact ⟨hnot, hcount, hsize, hlimit, rfl, hcapacity⟩
  subst hhead
  refine ⟨hne, (hfull _).2 ⟨by decide +kernel, ?_⟩, (honly _).2 ⟨by decide +kernel, ?_⟩⟩
  · decide +kernel
  · decide +kernel

/-- A limit with as many digits as an integer may have. -/
def longLimit : Settings := ⟨.ofList [("total", 10 ^ maxIntegerDigits - 1)], {}⟩

theorem resolve_longLimit :
    Settings.resolve (.map [(.text "total", .scalar (.int (10 ^ maxIntegerDigits - 1 : Nat)))])
      .null = .ok longLimit := by
  have hvalid : ¬ ((10 ^ maxIntegerDigits - 1 : Nat) : Int) < 1 := by decide +kernel
  simp only [Settings.resolve, limitsOfValue, setLimits, setLimit, if_neg hvalid,
    Int.toNat_natCast, Options.ofValue]
  rfl

/-- There is no report if a limit of that many digits stands against two placeholders. -/
theorem budgetReport_longLimit :
    Settings.resolve (.map [(.text "total", .scalar (.int (10 ^ maxIntegerDigits - 1 : Nat)))])
        .null = .ok longLimit ∧
      mixedMap.isEmpty = false ∧ budgetReport mixedMap "total" longLimit = .error .overlong ∧
      ∀ (head : Headline) (rest : String),
        budgetReport mixedMap "total" longLimit ≠ .ok (head.text "total" ++ rest) := by
  have hbound : longLimit.bound "total" = 10 ^ maxIntegerDigits - 1 := rfl
  have hsize : mixedMap.size = 2 := rfl
  have hlong : isWritable (longLimit.bound "total" * mixedMap.size) = false := by
    rw [Bool.eq_false_iff, Ne, isWritable_iff, hbound, hsize]
    decide +kernel
  have hreport : budgetReport mixedMap "total" longLimit = .error .overlong :=
    budgetReport_eq_error_iff.2 ⟨hlong, rfl⟩
  refine ⟨resolve_longLimit, rfl, hreport, fun head rest h => ?_⟩
  rw [hreport] at h
  cases h

end StyleBudget
