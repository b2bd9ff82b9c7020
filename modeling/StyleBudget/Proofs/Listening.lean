/-
  A filter of repeats that is listened to.

  The filter takes the selectors one after the other and tells of each repeat when it meets it.
  Whatever its listener makes of that, it keeps the same selectors, tells the same findings and
  stops at the same repeat as `dropRepeats`, which gives all findings at the end.

  * `RepeatFilter.Told` says what findings have come to, at a listener or in the log;
  * `RepeatFilter.take_of_new`, `take_of_strict` and `take_of_lax` are one selector,
    `RepeatFilter.takeAll_of_ok` and `RepeatFilter.takeAll_of_error` are the run;
  * `Ledger.record_eq_filterRepeats`: a recording is a ledger that listens to the filter;
  * `filterRepeats_partition`: the selectors that are kept and those that are told of are the two
    pieces of the list.
-/
import Mathlib.Data.List.Count
import StyleBudget.Proofs.Occurrences

namespace StyleBudget

variable {σ : Type} {listener : Option (σ → Finding → σ)} {placeholder : String}
  {options : Options}

namespace RepeatFilter

variable {w w' w'' : RepeatFilter σ}

/-! ## What is told -/

/-- Between two states of a filter these findings have been told, in order: to the listener, or
    to the log if nothing listens. -/
structure Told (listener : Option (σ → Finding → σ)) (w : RepeatFilter σ) (told : List Finding)
    (w' : RepeatFilter σ) : Prop where
  heard : ∀ hear, listener = some hear → w'.heard = told.foldl hear w.heard ∧ w'.log = w.log
  logged : listener = none → w'.heard = w.heard ∧ w'.log = w.log ++ told.map .unheard

theorem told_nil_iff : Told listener w [] w' ↔ w'.heard = w.heard ∧ w'.log = w.log := by
  constructor
  · intro h
    cases hl : listener with
    | some hear => exact h.heard hear hl
    | none =>
      obtain ⟨hheard, hlog⟩ := h.logged hl
      exact ⟨hheard, hlog.trans (List.append_nil _)⟩
  · intro h
    exact ⟨fun _ _ => h, fun _ => ⟨h.1, h.2.trans (List.append_nil _).symm⟩⟩

/-- Keeping a selector tells nothing. -/
theorem told_keep (w : RepeatFilter σ) (s : String) : Told listener w [] (w.keep s) :=
  told_nil_iff.2 ⟨rfl, rfl⟩

theorem told_tell (w : RepeatFilter σ) (f : Finding) :
    Told listener w [f] (w.tell listener f) := by
  refine ⟨fun hear h => ?_, fun h => ?_⟩
  · subst h
    exact ⟨rfl, rfl⟩
  · subst h
    exact ⟨rfl, rfl⟩

theorem Told.append {told more : List Finding} (h : Told listener w told w')
    (h' : Told listener w' more w'') : Told listener w (told ++ more) w'' := by
  refine ⟨fun hear hl => ?_, fun hl => ?_⟩
  · obtain ⟨hheard, hlog⟩ := h.heard hear hl
    obtain ⟨hheard', hlog'⟩ := h'.heard hear hl
    exact ⟨by rw [hheard', hheard, List.foldl_append], hlog'.trans hlog⟩
  · obtain ⟨hheard, hlog⟩ := h.logged hl
    obtain ⟨hheard', hlog'⟩ := h'.logged hl
    exact ⟨hheard'.trans hheard, by rw [hlog', hlog, List.map_append, List.append_assoc]⟩

/-- Telling of a repeat leaves the selectors as they are. -/
theorem selectors_tell (listener : Option (σ → Finding → σ)) (w : RepeatFilter σ) (f : Finding) :
    (w.tell listener f).seen = w.seen ∧ (w.tell listener f).kept = w.kept := by
  cases listener with
  | none => exact ⟨rfl, rfl⟩
  | some hear => exact ⟨rfl, rfl⟩

/-! ## One selector -/

theorem take_of_new {s : String} (hs : s ∉ w.seen) :
    w.take listener placeholder options s = (.ok (), w.keep s) := if_pos hs

/-- A repeat stops a strict run. -/
theorem take_of_strict {s : String} (hs : s ∈ w.seen) (h : options.strict = true) :
    w.take listener placeholder options s = (.error (repeatFinding .error placeholder s), w) := by
  rw [take, if_neg (not_not_intro hs), if_pos h]

/-- A repeat changes nothing in any other run, and is told if warnings are asked for. -/
theorem take_of_lax {s : String} (hs : s ∈ w.seen) (h : options.strict = false) :
    ∃ w', w.take listener placeholder options s = (.ok (), w') ∧ w'.seen = w.seen ∧
      w'.kept = w.kept ∧ Told listener w
        (if options.warnDuplicates then [repeatFinding .warning placeholder s] else []) w' := by
  rw [take, if_neg (not_not_intro hs), if_neg (by rw [h]; exact Bool.false_ne_true)]
  cases options.warnDuplicates with
  | true =>
    obtain ⟨hseen, hkept⟩ := selectors_tell listener w (repeatFinding .warning placeholder s)
    exact ⟨_, rfl, hseen, hkept, told_tell ..⟩
  | false => exact ⟨w, rfl, rfl, rfl, told_nil_iff.2 ⟨rfl, rfl⟩⟩

/-! ## Selectors one after the other -/

/-- **A run that nothing stops** keeps what `dropRepeats` keeps and tells what it finds. -/
theorem takeAll_of_ok {selectors kept : List String} {findings : List Finding}
    (h : dropRepeatsAfter w.seen placeholder options selectors = .ok (kept, findings)) :
    ∃ w', w.takeAll listener placeholder options selectors = (.ok (), w') ∧
      w'.kept = w.kept ++ kept ∧ Told listener w findings w' := by
  induction selectors generalizing w kept findings with
  | nil =>
    cases h
    exact ⟨w, rfl, (List.append_nil w.kept).symm, told_nil_iff.2 ⟨rfl, rfl⟩⟩
  | cons s rest ih =>
    rw [takeAll]
    rcases dropRepeatsAfter_cons_ok h with ⟨hs, more, hrest, rfl⟩ | ⟨hs, hlax, found, hrest, rfl⟩
    · obtain ⟨w', hw, hkept, htold⟩ := ih (w := w.keep s) hrest
      refine ⟨w', by rw [take_of_new hs]; exact hw, ?_, (told_keep w s).append htold⟩
      rw [hkept, keep, List.append_assoc]
      rfl
    · obtain ⟨w₁, ht, hseen, hkept, htold⟩ := take_of_lax hs hlax
      rw [← hseen] at hrest
      obtain ⟨w', hw, hkept', htold'⟩ := ih hrest
      exact ⟨w', by rw [ht]; exact hw, by rw [hkept', hkept], htold.append htold'⟩

/-- **A run that stops** is strict, and has told nothing. -/
theorem takeAll_of_error (hstrict : options.strict = true) {selectors : List String}
    {f : Finding} (h : dropRepeatsAfter w.seen placeholder options selectors = .error f) :
    ∃ w', w.takeAll listener placeholder options selectors = (.error f, w') ∧
      Told listener w [] w' := by
  induction selectors generalizing w with
  | nil => cases h
  | cons s rest ih =>
    rw [dropRepeatsAfter] at h
    rw [takeAll]
    by_cases hs : s ∈ w.seen
    · rw [if_pos hs, if_pos hstrict] at h
      cases h
      exact ⟨w, by rw [take_of_strict hs hstrict], told_nil_iff.2 ⟨rfl, rfl⟩⟩
    · rw [if_neg hs] at h
      obtain ⟨w', hw, htold⟩ := ih (w := w.keep s) (map_eq_error_iff.1 h)
      exact ⟨w', by rw [take_of_new hs]; exact hw, (told_keep w s).append htold⟩

end RepeatFilter

/-! ## Whole runs -/

theorem filterRepeats_of_ok (listener : Option (σ → Finding → σ)) {selectors kept : List String}
    {findings : List Finding}
    (h : dropRepeats placeholder options selectors = .ok (kept, findings)) (heard : σ) :
    ∃ w, filterRepeats listener placeholder options heard selectors = (.ok kept, w) ∧
      RepeatFilter.Told listener { heard := heard } findings w := by
  obtain ⟨w, hw, hkept, htold⟩ := RepeatFilter.takeAll_of_ok (w := ⟨[], [], heard, []⟩) h
  refine ⟨w, ?_, htold⟩
  simp only [filterRepeats, hw, hkept, List.nil_append]
  rfl

/-- Only a strict run stops. -/
theorem strict_of_dropRepeats_error {selectors : List String} {f : Finding}
    (h : dropRepeats placeholder options selectors = .error f) : options.strict = true := by
  cases hlax : options.strict with
  | true => rfl
  | false =>
    rw [dropRepeats_of_lax hlax] at h
    cases h

theorem filterRepeats_of_error (listener : Option (σ → Finding → σ)) {selectors : List String}
    {f : Finding} (h : dropRepeats placeholder options selectors = .error f) (heard : σ) :
    ∃ w, filterRepeats listener placeholder options heard selectors = (.error f, w) ∧
      RepeatFilter.Told listener { heard := heard } [] w := by
  obtain ⟨w, hw, htold⟩ :=
    RepeatFilter.takeAll_of_error (w := ⟨[], [], heard, []⟩) (strict_of_dropRepeats_error h) h
  refine ⟨w, ?_, htold⟩
  rw [filterRepeats, hw]
  rfl

/-- A run that is not strict keeps the new selectors, and tells of the others if warnings are
    asked for. -/
theorem filterRepeats_of_lax (listener : Option (σ → Finding → σ)) (placeholder : String)
    (h : options.strict = false) (heard : σ) (selectors : List String) :
    ∃ w, filterRepeats listener placeholder options heard selectors =
        (.ok (newIn [] selectors), w) ∧
      RepeatFilter.Told listener { heard := heard }
        (if options.warnDuplicates then
          (repeatedIn [] selectors).map (repeatFinding .warning placeholder) else []) w := by
  have hd := dropRepeats_of_lax h placeholder selectors
  rw [distinct_eq_newIn, repeats_eq_repeatedIn] at hd
  exact filterRepeats_of_ok listener hd heard

/-- A strict run gives all selectors or stops at the first repeat, and tells nothing. -/
theorem filterRepeats_of_strict (listener : Option (σ → Finding → σ)) (placeholder : String)
    (h : options.strict = true) (heard : σ) (selectors : List String) :
    ∃ w, filterRepeats listener placeholder options heard selectors =
        (match (repeats selectors).head? with
          | some s => .error (repeatFinding .error placeholder s)
          | none => .ok selectors, w) ∧
      w.heard = heard ∧ w.log = [] := by
  cases hr : repeats selectors with
  | nil =>
    have hd := dropRepeats_of_strict h placeholder hr
    rw [distinct_of_nodup (repeats_eq_nil_iff.1 hr)] at hd
    obtain ⟨w, hw, htold⟩ := filterRepeats_of_ok listener hd heard
    exact ⟨w, hw, RepeatFilter.told_nil_iff.1 htold⟩
  | cons s more =>
    have hd := dropRepeats_of_repeat h placeholder hr
    obtain ⟨w, hw, htold⟩ := filterRepeats_of_error listener hd heard
    exact ⟨w, hw, RepeatFilter.told_nil_iff.1 htold⟩

namespace Ledger

theorem foldl_note (ledger : Ledger) (findings : List Finding) :
    findings.foldl (fun ledger f => ledger.note [f]) ledger = ledger.note findings := by
  induction findings generalizing ledger with
  | nil => rw [List.foldl_nil, note, List.append_nil]
  | cons f rest ih =>
    rw [List.foldl_cons, ih, note, note, note, List.append_assoc]
    rfl

/-- **A recording listens to the filter**: the ledger notes each repeat when it is told of it,
    and goes on with the selectors that are kept. -/
theorem record_eq_filterRepeats (ledger : Ledger) (placeholder budget : String)
    (consumers : List String) :
    ledger.record placeholder budget consumers =
      match filterRepeats (some fun ledger f => ledger.note [f]) placeholder
        ledger.settings.options (ledger.noteBudget placeholder budget)
        (ledger.offered placeholder budget consumers) with
      | (.error f, w) => (.error (.repeated f), w.heard)
      | (.ok recorded, w) =>
        (w.heard.store budget placeholder recorded).checkLimit placeholder budget recorded
          consumers := by
  rcases ledger.record_cases placeholder budget consumers with
    ⟨f, hd, hr⟩ | ⟨recorded, findings, hd, -, hr⟩
  · obtain ⟨w, hw, htold⟩ := filterRepeats_of_error (some fun ledger f => note ledger [f]) hd
      (ledger.noteBudget placeholder budget)
    rw [hr, offered, hw]
    simp only [(htold.heard _ rfl).1, List.foldl_nil]
  · obtain ⟨w, hw, htold⟩ := filterRepeats_of_ok (some fun ledger f => note ledger [f]) hd
      (ledger.noteBudget placeholder budget)
    rw [hr, offered, hw]
    simp only [(htold.heard _ rfl).1, foldl_note]

end Ledger

/-! ## The two pieces -/

/-- **The filter cuts a list in two.**  A run that is not strict keeps the selectors at the
    positions where one stands for the first time.  If warnings are asked for, it tells of those
    at all other positions, in order; so both numbers add up to that of all, and every selector
    is kept or told of as often as it is given.  If they are not, it tells nothing.  A listener,
    whatever it does, hears one finding after the other and nothing is logged; without one the
    same findings are logged.  A strict run never tells anything: it stops exactly if a selector
    is repeated, at the first position that repeats one, and else it gives all selectors. -/
theorem filterRepeats_partition (placeholder : String) (options : Options)
    (selectors : List String) :
    (options.strict = false → ∃ told : List Finding,
      (∀ (σ : Type) (hear : σ → Finding → σ) (heard : σ), ∃ w,
        filterRepeats (some hear) placeholder options heard selectors =
            (.ok (newIn [] selectors), w) ∧
          w.heard = told.foldl hear heard ∧ w.log = []) ∧
      (∀ (σ : Type) (heard : σ), ∃ w,
        filterRepeats none placeholder options heard selectors =
            (.ok (newIn [] selectors), w) ∧
          w.heard = heard ∧ w.log = told.map .unheard) ∧
      (options.warnDuplicates = true →
        told = (repeatedIn [] selectors).map (repeatFinding .warning placeholder) ∧
        told.map Finding.selector = (repeatedIn [] selectors).map some ∧
        (newIn [] selectors).length + told.length = selectors.length ∧
        ∀ s, (newIn [] selectors).count s + (told.map Finding.selector).count (some s) =
          selectors.count s) ∧
      (options.warnDuplicates = false → told = [])) ∧
    (options.strict = true →
      ∀ (σ : Type) (listener : Option (σ → Finding → σ)) (heard : σ), ∃ outcome w,
        filterRepeats listener placeholder options heard selectors = (outcome, w) ∧
        w.heard = heard ∧ w.log = [] ∧
        ((∃ f, outcome = .error f) ↔ ¬ selectors.Nodup) ∧
        (∀ f, outcome = .error f ↔ ∃ before s after, selectors = before ++ s :: after ∧
          before.Nodup ∧ s ∈ before ∧ f = repeatFinding .error placeholder s) ∧
        (selectors.Nodup → outcome = .ok selectors)) := by
  constructor
  · intro hlax
    refine ⟨if options.warnDuplicates then
        (repeatedIn [] selectors).map (repeatFinding .warning placeholder) else [],
      fun σ hear heard => ?_, fun σ heard => ?_, fun hwarn => ?_, fun hwarn => ?_⟩
    · obtain ⟨w, hw, htold⟩ := filterRepeats_of_lax (some hear) placeholder hlax heard selectors
      exact ⟨w, hw, htold.heard hear rfl⟩
    · obtain ⟨w, hw, htold⟩ := filterRepeats_of_lax none placeholder hlax heard selectors
      exact ⟨w, hw, htold.logged rfl⟩
    · have hselectors : ((repeatedIn [] selectors).map (repeatFinding .warning placeholder)).map
          Finding.selector = (repeatedIn [] selectors).map some := List.map_map ..
      rw [if_pos hwarn, hselectors, List.length_map]
      refine ⟨rfl, rfl, length_newIn_add [] selectors, fun s => ?_⟩
      rw [List.count_map_of_injective _ some fun _ _ => Option.some.inj]
      exact count_newIn_add [] selectors s
    · rw [hwarn]
      exact if_neg Bool.false_ne_true
  · intro hstrict σ listener heard
    obtain ⟨w, hw, hheard, hlog⟩ :=
      filterRepeats_of_strict listener placeholder hstrict heard selectors
    refine ⟨_, w, hw, hheard, hlog, ?_, fun f => ?_, fun hn => ?_⟩
    · rw [← repeats_eq_nil_iff, ← List.head?_eq_none_iff]
      cases (repeats selectors).head? with
      | none => exact iff_of_false nofun (not_not_intro rfl)
      | some s => exact iff_of_true ⟨_, rfl⟩ nofun
    · rw [exists_first_repeat_iff]
      cases (repeats selectors).head? with
      | none => exact iff_of_false nofun nofun
      | some s =>
        refine ⟨fun hf => ⟨s, rfl, (Except.error.inj hf).symm⟩, ?_⟩
        rintro ⟨t, ht, rfl⟩
        rw [Option.some.inj ht]
    · rw [repeats_eq_nil_iff.2 hn]
      rfl

/-- Selectors of which two come back. -/
def returningSelectors : List String := [".b", ".a", ".b", ".c", ".a"]

theorem filterRepeats_returningSelectors :
    (∃ w, filterRepeats (some fun (told : List Finding) f => told ++ [f]) "card" {} []
          returningSelectors = (.ok [".b", ".a", ".c"], w) ∧
        w.heard = [repeatFinding .warning "card" ".b", repeatFinding .warning "card" ".a"] ∧
        w.log = []) ∧
      (∃ w, filterRepeats none "card" {} () returningSelectors = (.ok [".b", ".a", ".c"], w) ∧
        w.log = [.unheard (repeatFinding .warning "card" ".b"),
          .unheard (repeatFinding .warning "card" ".a")]) ∧
      ∃ w, filterRepeats none "card" { strict := true } () returningSelectors =
          (.error (repeatFinding .error "card" ".b"), w) ∧ w.log = [] := by
  obtain ⟨hlax, -⟩ := filterRepeats_partition "card" {} returningSelectors
  obtain ⟨told, hheard, hlogged, hwarn, -⟩ := hlax rfl
  obtain ⟨-, hstrict⟩ := filterRepeats_partition "card" { strict := true } returningSelectors
  obtain ⟨outcome, w, hw, -, hlog, -, herror, -⟩ := hstrict rfl Unit none ()
  have hnew : newIn [] returningSelectors = [".b", ".a", ".c"] := by decide +kernel
  have hrepeated : repeatedIn [] returningSelectors = [".b", ".a"] := by decide +kernel
  have htold := (hwarn rfl).1
  rw [hrepeated] at htold
  rw [hnew, htold] at hlogged
  refine ⟨?_, ?_, w, ?_, hlog⟩
  · have hcollected := hheard (List Finding) (fun told f => told ++ [f]) []
    rw [hnew, htold] at hcollected
    exact hcollected
  · obtain ⟨w', hw', -, hlog'⟩ := hlogged Unit ()
    exact ⟨w', hw', hlog'⟩
  · have hfirst : outcome = .error (repeatFinding .error "card" ".b") :=
      (herror _).2 ⟨[".b", ".a"], ".b", [".c", ".a"], rfl, by decide, by decide, rfl⟩
    rw [hw, hfirst]

end StyleBudget
