/-
  What is counted is inherited, and so it is rendered.

  A call extends its placeholder before it counts, so whatever stops it afterwards,
  the selectors that have been counted for a declared placeholder are among its
  consumers.  A consumer without placeholders stands wherever the placeholder itself
  is a selector of a rule.

  * `Session.Covered` ties the usage of a session to its inheritance:
    `Covered.call` and `Covered.follow` are the step for a call and for an extension
    of a sheet, `Covered.run` and `Covered.foldl` the runs;
  * `mem_expand_of_mem_consumers`: what a placeholder that is a selector expands to;
  * `counted_rendered` puts these together, for calls and for sheets.
-/
import Mathlib
import StyleBudget.Proofs.Expansion
import StyleBudget.Proofs.History
import StyleBudget.Proofs.Phases
import StyleBudget.Proofs.Placeholders

namespace StyleBudget

/-! ## Sessions -/

/-- What is counted for a declared placeholder, under any budget, has extended it. -/
structure Session.Covered (s : Session) (inh : Inheritance) : Prop where
  inheritance : s.inheritance = some inh
  counted : ∀ budget, ∀ placeholder ∈ inh.declared,
    ∀ consumer ∈ s.ledger.usage.consumers budget placeholder,
      consumer ∈ inh.consumers placeholder

namespace Session.Covered

variable {s : Session} {inh inh' : Inheritance}

theorem start (settings : Settings) (inh : Inheritance) :
    (Session.start settings (some inh)).Covered inh where
  inheritance := rfl
  counted budget placeholder _ consumer hc := by
    rw [consumers_start] at hc
    cases hc

/-- More consumers cover no less. -/
theorem extend {placeholder flag : String} {selectors : List String} (h : s.Covered inh)
    (hi : inh.extend placeholder selectors flag = .ok inh') :
    ({ s with inheritance := some inh' } : Session).Covered inh' where
  inheritance := rfl
  counted budget p hp consumer hc :=
    (Inheritance.mem_consumers_extend hi).2
      (.inl (h.counted budget p (Inheritance.declared_extend hi ▸ hp) consumer hc))

/-- **One call.** -/
theorem call (h : s.Covered inh) (c : Call) :
    ∃ inh', (s.call c).2.Covered inh' ∧ inh'.declared = inh.declared := by
  obtain ⟨ledger, inherited⟩ := s
  obtain rfl : inherited = some inh := h.inheritance
  rcases extend_of_call ledger inh c with hsame | ⟨inh', hi, hinh⟩
  · rw [hsame]
    exact ⟨inh, h, rfl⟩
  · have hdeclared := Inheritance.declared_extend hi
    have hgrows := fun budget p hp consumer hc => (h.extend hi).counted budget p hp consumer hc
    refine ⟨inh', ⟨hinh, fun budget p hp consumer hc => ?_⟩, hdeclared⟩
    rcases consumers_call ⟨ledger, some inh⟩ c budget p with ⟨rfl, hl⟩ | hl
    · -- what is stored was there before, or has just extended the placeholder
      rw [hl, mem_distinct, List.mem_append] at hc
      rcases hc with hc | hc
      · exact hgrows _ _ hp consumer hc
      · exact (Inheritance.mem_consumers_extend hi).2 (.inr ⟨rfl, hdeclared ▸ hp, hc⟩)
    · rw [hl] at hc
      exact hgrows budget p hp consumer hc

/-- **Calls one after the other.** -/
theorem run (h : s.Covered inh) (calls : List Call) :
    ∃ inh', (s.run calls).Covered inh' ∧ inh'.declared = inh.declared := by
  induction calls generalizing s inh with
  | nil => exact ⟨inh, h, rfl⟩
  | cons c rest ih =>
    obtain ⟨inh', h', hd⟩ := h.call c
    obtain ⟨inh'', h'', hd'⟩ := ih h'
    exact ⟨inh'', h'', hd'.trans hd⟩

/-- **One extension of a sheet**, counted or not. -/
theorem follow (h : s.Covered inh) (d : Directive) :
    ∃ inh', (s.follow d).Covered inh' ∧ inh'.declared = inh.declared := by
  cases d with
  | counted c => exact h.call c
  | plain placeholder flag selectors =>
    refine ⟨inh.follow (.plain placeholder flag selectors), ?_⟩
    rw [Session.follow, h.inheritance, Option.map_some, Inheritance.follow]
    cases hi : inh.extend placeholder selectors flag with
    | error f => exact ⟨⟨rfl, h.counted⟩, rfl⟩
    | ok inh' => exact ⟨h.extend hi, Inheritance.declared_extend hi⟩

/-- **The extensions of a sheet one after the other.** -/
theorem foldl (h : s.Covered inh) (directives : List Directive) :
    ∃ inh', (directives.foldl Session.follow s).Covered inh' ∧ inh'.declared = inh.declared := by
  induction directives generalizing s inh with
  | nil => exact ⟨inh, h, rfl⟩
  | cons d rest ih =>
    obtain ⟨inh', h', hd⟩ := h.follow d
    obtain ⟨inh'', h'', hd'⟩ := ih h'
    exact ⟨inh'', h'', hd'.trans hd⟩

end Session.Covered

/-! ## Declared placeholders -/

theorem isNameChar_of_mem_name {cs : List Char} {o : Occurrence}
    (h : firstPlaceholder? cs = some o) : ∀ c ∈ o.name, isNameChar c = true := by
  induction cs generalizing o with
  | nil => cases h
  | cons c cs ih =>
    by_cases hc : Opens c cs
    · rw [firstPlaceholder?_of_opens hc] at h
      cases h
      exact fun d hd => List.mem_takeWhile_imp hd
    · rw [firstPlaceholder?_of_not_opens hc] at h
      obtain ⟨o', ho', rfl⟩ := Option.map_eq_some_iff.1 h
      exact ih (o := o') ho'

/-- A percent sign and the name of a placeholder are that placeholder. -/
theorem firstPlaceholder?_name {cs : List Char} {o : Occurrence}
    (h : firstPlaceholder? cs = some o) :
    firstPlaceholder? ('%' :: o.name) = some ⟨[], o.name, []⟩ := by
  have hstart : startsName o.name = true := by
    rw [← startsName_append (bounded_after h)]
    exact startsName_name h
  have hall := isNameChar_of_mem_name h
  rw [firstPlaceholder?_of_opens ⟨rfl, hstart⟩, List.takeWhile_eq_self_iff.2 hall,
    List.dropWhile_eq_nil_iff.2 hall]

theorem exists_of_mem_placeholdersOf {name : String} {cs : List Char}
    (h : name ∈ placeholdersOf cs) :
    ∃ ds o, firstPlaceholder? ds = some o ∧ name = String.ofList o.name := by
  cases ho : firstPlaceholder? cs with
  | none => rw [placeholdersOf_of_none ho] at h; cases h
  | some o =>
    have := after_length_lt ho
    rw [placeholdersOf_of_some ho] at h
    rcases List.mem_cons.1 h with rfl | h
    · exact ⟨cs, o, ho, rfl⟩
    · exact exists_of_mem_placeholdersOf h
termination_by cs.length

mutual

theorem Statement.exists_of_mem_placeholders {name : String} {parents : List String} :
    ∀ s : Statement, name ∈ s.placeholders parents → ∃ t : String, name ∈ placeholdersOf t.toList
  | .rule selectors children, h => by
    rw [Statement.placeholders] at h
    rcases List.mem_append.1 h with h | h
    · obtain ⟨t, -, ht⟩ := List.mem_flatMap.1 h
      exact ⟨t, ht⟩
    · exact exists_of_mem_placeholdersAll children h
  | .declaration _, h => by cases h
  | .mixin _ _, h => by cases h
  | .extend _ _, h => by cases h
  | .assign _ _, h => by cases h

theorem exists_of_mem_placeholdersAll {name : String} {parents : List String} :
    ∀ l : List Statement, name ∈ placeholdersAll parents l →
      ∃ t : String, name ∈ placeholdersOf t.toList
  | [], h => by cases h
  | s :: rest, h => by
    rw [placeholdersAll] at h
    rcases List.mem_append.1 h with h | h
    · exact s.exists_of_mem_placeholders h
    · exact exists_of_mem_placeholdersAll rest h

end

/-- A placeholder that a sheet declares can be written as a selector. -/
theorem Sheet.firstPlaceholder?_of_mem {sheet : Sheet} {name : String}
    (h : name ∈ sheet.placeholders) :
    firstPlaceholder? ("%" ++ name).toList = some ⟨[], name.toList, []⟩ := by
  obtain ⟨t, ht⟩ := exists_of_mem_placeholdersAll sheet.statements (mem_distinct.1 h)
  obtain ⟨ds, o, ho, rfl⟩ := exists_of_mem_placeholdersOf ht
  have htext : ("%" ++ String.ofList o.name).toList = '%' :: o.name := by simp
  rw [htext, String.toList_ofList]
  exact firstPlaceholder?_name ho

/-! ## Rendering -/

/-- A consumer without placeholders is one of the selectors that a rule is written
    with, if the placeholder is one of those that the rule has. -/
theorem mem_expand_of_mem_consumers {inh : Inheritance} {selectors : List String}
    {name consumer : String}
    (hname : firstPlaceholder? ("%" ++ name).toList = some ⟨[], name.toList, []⟩)
    (hs : "%" ++ name ∈ selectors) (hc : consumer ∈ inh.consumers name)
    (hn : firstPlaceholder? consumer.toList = none) : consumer ∈ inh.expand selectors := by
  have hreplaced : (Occurrence.mk [] name.toList []).replaceWith consumer = consumer := by
    simp [Occurrence.replaceWith]
  have hstop : Rewriting inh [] ((Occurrence.mk [] name.toList []).replaceWith consumer)
      consumer := by
    rw [hreplaced]
    exact .stop consumer
  have hstep := Rewriting.step hname (by rwa [String.ofList_toList]) hstop
  rw [String.ofList_toList] at hstep
  exact mem_expand_iff.2 ⟨hn, "%" ++ name, hs, [name], List.nodup_singleton name, hstep⟩

namespace Sheet

variable {sheet : Sheet} {budgets options : Option (List (Scalar × Value))} {p : Progress}
  {ledger : Option Ledger}

/-- What a sheet has counted when all its statements have been taken is covered by
    what its placeholders inherit. -/
theorem covered_of_takeAll (hl : sheet.ledger budgets options = .ok ledger)
    (hp : (sheet.begin ledger).takeAll sheet.places = (.ok (), p)) {counted : Ledger}
    (hc : p.ledger = some counted) :
    (Session.mk counted (some p.inheritance)).Covered p.inheritance ∧
      p.inheritance.declared = sheet.placeholders := by
  have hs := (Progress.reaches_of_takeAll hp).session
  have hp' : p.session? = some ⟨counted, some p.inheritance⟩ := by rw [Progress.session?, hc]; rfl
  cases ht : sheet.tracks with
  | false =>
    rw [Sheet.ledger, ht] at hl
    cases hl
    rw [hp'] at hs
    cases hs
  | true =>
    obtain ⟨settings, -, rfl⟩ := ledger_of_tracks ht hl
    have hstart := Session.Covered.start settings (.declare sheet.placeholders)
    obtain ⟨inh, h, hd⟩ := hstart.foldl (sheet.places.filterMap Place.directive?)
    have hsession : Session.mk counted (some p.inheritance) =
        (sheet.places.filterMap Place.directive?).foldl Session.follow
          (Session.start settings (some (.declare sheet.placeholders))) :=
      Option.some.inj (hp'.symm.trans hs)
    rw [← hsession] at h
    obtain rfl : p.inheritance = inh := Option.some.inj h.inheritance
    exact ⟨h, hd.trans (Inheritance.declared_declare (nodup_distinct _))⟩

/-- The rule of a statement stands among the rules of the sheet after those of the
    statements before it. -/
theorem output_of_places (hp : (sheet.begin ledger).takeAll sheet.places = (.ok (), p))
    {before after : List Place} {place : Place} {b : Block}
    (hm : sheet.places = before ++ place :: after) (hb : place.output? p.inheritance = some b) :
    sheet.output = before.filterMap (Place.output? p.inheritance) ++
      b :: after.filterMap (Place.output? p.inheritance) := by
  have hi : p.inheritance = sheet.inherited := (Progress.reaches_of_takeAll hp).inheritance
  rw [output, ← hi, hm, List.filterMap_append, List.filterMap_cons, hb]

end Sheet

/-- **What is counted is rendered.**  Take any calls, made on whether or not those
    before them failed: what is counted for a declared placeholder, under any budget,
    is among its consumers.  Let a sheet compile: what it has counted for a declared
    placeholder is among the consumers of the placeholder when all statements have
    been taken; and if there is no placeholder in it, it is one of the selectors of
    each rule that is written for a rule with declarations of its own that has the
    placeholder as a selector.  The lines of this rule stand in the text behind those of
    the statements before it, and one of them is the selector. -/
theorem counted_rendered :
    (∀ (settings : Settings) (inh : Inheritance) (calls : List Call),
      ∃ inh', ((Session.start settings (some inh)).run calls).inheritance = some inh' ∧
        ∀ budget, ∀ placeholder ∈ inh.declared,
          ∀ consumer ∈ ((Session.start settings (some inh)).run calls).ledger.usage.consumers budget
            placeholder, consumer ∈ inh'.consumers placeholder) ∧
    ∀ (sheet : Sheet) (budgets options : Option (List (Scalar × Value))) (c : Compiled),
      (sheet.compile budgets options).result = .ok c →
      ∃ ledger p, sheet.ledger budgets options = .ok ledger ∧
        compileAll [] (sheet.begin ledger) sheet.statements = (.ok (), p) ∧ c.ledger = p.ledger ∧
        ∀ counted budget, p.ledger = some counted → ∀ placeholder ∈ sheet.placeholders,
          ∀ consumer ∈ counted.usage.consumers budget placeholder,
            consumer ∈ p.inheritance.consumers placeholder ∧
            (firstPlaceholder? consumer.toList = none →
              ∀ before parents selectors children after,
                sheet.places = before ++ ⟨parents, .rule selectors children⟩ :: after →
                declarationsOf children ≠ [] →
                "%" ++ placeholder ∈ nestSelectors parents selectors →
                ∃ b more, b.selectors = p.inheritance.expand (nestSelectors parents selectors) ∧
                  b.declarations = declarationsOf children ∧ consumer ∈ b.selectors ∧
                  c.css = linesText (sheetLines
                    (before.filterMap (Place.output? p.inheritance) ++ b :: more)) ∧
                  (consumer ++ "," ∈ b.lines ∨ consumer ++ " \x7b" ∈ b.lines)) := by
  constructor
  · intro settings inh calls
    obtain ⟨inh', h, hd⟩ := (Session.Covered.start settings inh).run calls
    exact ⟨inh', h.inheritance, fun budget placeholder hp => h.counted budget placeholder (hd ▸ hp)⟩
  · intro sheet budgets options c hc
    obtain ⟨ledger, p, overlay, hl, hp, ho, rfl⟩ := Sheet.run_of_compile hc
    have hrun : compileAll [] (sheet.begin ledger) sheet.statements = (.ok (), p) :=
      (compileAll_eq_takeAll [] _ sheet.statements).trans hp
    refine ⟨ledger, p, hl, hrun, rfl, fun counted budget hcounted placeholder hd consumer hm => ?_⟩
    obtain ⟨hcovered, hdeclared⟩ := Sheet.covered_of_takeAll hl hp hcounted
    have hconsumer := hcovered.counted budget placeholder (hdeclared ▸ hd) consumer hm
    refine ⟨hconsumer, fun hn before parents selectors children after hplaces hdecl hs => ?_⟩
    have hmem := mem_expand_of_mem_consumers (Sheet.firstPlaceholder?_of_mem hd) hs hconsumer hn
    have hrule : (Place.mk parents (.rule selectors children)).output? p.inheritance =
        some ⟨p.inheritance.expand (nestSelectors parents selectors), declarationsOf children⟩ :=
      if_pos ⟨hdecl, List.ne_nil_of_mem hmem⟩
    obtain ⟨shown, rfl, -⟩ := Progress.shows_of_overlay ho
    refine ⟨⟨p.inheritance.expand (nestSelectors parents selectors), declarationsOf children⟩,
      after.filterMap (Place.output? p.inheritance) ++ shown, rfl, rfl, hmem, ?_, ?_⟩
    · rw [(Progress.reaches_of_takeAll hp).text, Sheet.output_of_places hp hplaces hrule,
        List.append_assoc, List.cons_append]
    · exact (mem_selectorLines hmem).imp Block.mem_lines_of_mem Block.mem_lines_of_mem

/-- A placeholder that is extended under another budget than the total one, by a plain
    extension, and by another placeholder. -/
def mirroredSheet : Sheet where
  statements :=
    [.rule [".t", "%a"] [.declaration ⟨"color", "red"⟩], .rule ["%b"] [.mixin "ext" ["a"]],
      .rule [".x"] [.extend "a" "", .mixin "ext" ["b"]], .rule [".y"] [.mixin "ext" ["a", "card"]]]

def mirroredLimits : Option (List (Scalar × Value)) :=
  some [(.text "total", .scalar (.int 9)), (.text "card", .scalar (.int 9))]

theorem counted_rendered_mirroredSheet :
    ∃ c b more, (mirroredSheet.compile mirroredLimits none).result = .ok c ∧
      c.ledger.map (fun ledger => ledger.usage.consumers totalBudget "a") = some [".y"] ∧
      "a" ∈ mirroredSheet.placeholders ∧
      c.css = ".t,\n.x,\n.y \x7b\n  color: red;\n\x7d\n" ∧
      c.css = linesText (sheetLines (b :: more)) ∧ b.declarations = [⟨"color", "red"⟩] ∧
      ".y" ∈ b.selectors ∧ (".y" ++ "," ∈ b.lines ∨ ".y" ++ " \x7b" ∈ b.lines) := by
  have hcompiled : (mirroredSheet.compile mirroredLimits none).result.toOption.map
      (fun c => (c.ledger.map fun ledger => ledger.usage.consumers totalBudget "a", c.css)) =
        some (some [".y"], ".t,\n.x,\n.y \x7b\n  color: red;\n\x7d\n") := by cbv
  have hd : "a" ∈ mirroredSheet.placeholders := by decide +kernel
  cases hc : (mirroredSheet.compile mirroredLimits none).result with
  | error f => rw [hc] at hcompiled; cases hcompiled
  | ok c =>
    rw [hc] at hcompiled
    obtain ⟨hledger, htext⟩ := Prod.mk.inj (Option.some.inj hcompiled)
    obtain ⟨-, p, -, -, hp, hall⟩ := counted_rendered.2 mirroredSheet mirroredLimits none c hc
    obtain ⟨ledger, hl, husage⟩ := Option.map_eq_some_iff.1 hledger
    have hy : ".y" ∈ ledger.usage.consumers totalBudget "a" := by rw [husage]; decide
    obtain ⟨-, hrendered⟩ := hall ledger totalBudget (hp ▸ hl) "a" hd ".y" hy
    obtain ⟨b, more, -, hdeclarations, hmem, hcss, hline⟩ := hrendered (by decide) [] []
      [".t", "%a"] [.declaration ⟨"color", "red"⟩] _ rfl (by decide) (by decide)
    exact ⟨c, b, more, rfl, hledger, hd, htext, hcss, hdeclarations, hmem, hline⟩

end StyleBudget
