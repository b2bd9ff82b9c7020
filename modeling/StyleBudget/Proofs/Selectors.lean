/-
  Selectors in normal form, wherever they come.

  * `IsNormal` is the normal form: words with single spaces, and nothing that ends a selector or
    a list of selectors; `isNormal_iff` says that this is what can be written;
  * `Progress.SelectorsAre`: whatever has come into blocks, among the consumers of a placeholder
    or into the usage has a property; `SelectorsAre.take` is one statement, `SelectorsAre.takeAll`
    the run;
  * `selectorsOf_text`: the selectors of a written rule are read again;
  * `Sheet.isNormal_selectors` is the result about sheets.
-/
import StyleBudget.Proofs.Fixpoint
import StyleBudget.Proofs.Nesting

namespace StyleBudget

/-! ## Normal form -/

/-- A selector in normal form. -/
structure IsNormal (s : String) : Prop where
  ne_empty : s ≠ ""
  normalized : normalizeSelector s = s
  free : ∀ c ∈ s.toList, c ≠ ',' ∧ c ≠ ';' ∧ c ≠ '{' ∧ c ≠ '}'

theorem isNormal_iff {s : String} : IsNormal s ↔ isSelectorText s = true := by
  have hmark : ∀ c : Char, (c == ',' || isBlockMark c) = false ↔
      c ≠ ',' ∧ c ≠ ';' ∧ c ≠ '{' ∧ c ≠ '}' := by
    intro c
    simp only [isBlockMark, Bool.or_eq_false_iff, beq_eq_false_iff_ne, ne_eq, and_assoc]
  simp only [isSelectorText, Bool.and_eq_true, Bool.not_eq_true', beq_iff_eq, List.all_eq_true,
    hmark, String.isEmpty_eq_false_iff]
  constructor
  · intro h
    exact ⟨⟨h.ne_empty, h.normalized⟩, h.free⟩
  · rintro ⟨⟨hne, hnormal⟩, hfree⟩
    exact ⟨hne, hnormal, hfree⟩

/-! ## Selectors that have come into a progress -/

/-- All selectors in the blocks, among the consumers and in what is counted have a property. -/
structure Progress.SelectorsAre (P : String → Prop) (p : Progress) : Prop where
  blocks : ∀ b ∈ p.blocks, ∀ s ∈ b.selectors, P s
  consumers : ∀ placeholder, ∀ s ∈ p.inheritance.consumers placeholder, P s
  counted : ∀ ledger, p.ledger = some ledger →
    ∀ budget placeholder, ∀ s ∈ ledger.usage.consumers budget placeholder, P s

/-- The selectors that a statement brings have a property: those around it, and of a rule those
    that its nesting resolves to. -/
structure Place.SelectorsAre (P : String → Prop) (place : Place) : Prop where
  parents : ∀ s ∈ place.parents, P s
  block : ∀ b ∈ place.block?, ∀ s ∈ b.selectors, P s

namespace Progress

variable {P : String → Prop} {p : Progress} {place : Place}

/-- A statement changes what is counted as a call with the selectors around it does, or not at
    all. -/
theorem ledger_take (p : Progress) (place : Place) :
    (p.take place).2.ledger = p.ledger ∨
      ∃ (ledger : Ledger) (c : Call), p.ledger = some ledger ∧ c.selectors = place.parents ∧
        (p.take place).2.ledger =
          some (Session.call ⟨ledger, some p.inheritance⟩ c).2.ledger := by
  cases place.acts with
  | idle _ _ _ h => rw [h]; exact .inl rfl
  | block _ _ _ h => rw [h]; exact .inl rfl
  | request _ _ _ h => rw [h]; exact .inl rfl
  | fails _ _ _ h => rw [h]; exact .inl rfl
  | @plain placeholder flag _ _ _ h =>
    rw [h]
    rcases p.extend_state placeholder flag place.parents with hs | hs <;> exact .inl (by rw [hs])
  | @counted c _ _ hd h =>
    rw [h]
    rcases p.extCall_state c with hs | ⟨ledger, hl, hs⟩
    · exact .inl (by rw [hs])
    · exact .inr ⟨ledger, c, hl, selectors_of_directive? hd, by rw [hs]⟩

namespace SelectorsAre

theorem start {sheet : Sheet} {budgets options : Option (List (Scalar × Value))}
    {ledger : Option Ledger} (hl : sheet.ledger budgets options = .ok ledger) :
    (sheet.begin ledger).SelectorsAre P where
  blocks b hb := by cases hb
  consumers placeholder s hs := by
    rw [Sheet.begin, Inheritance.consumers_declare] at hs
    cases hs
  counted started hs := by
    obtain rfl : ledger = some started := hs
    cases ht : sheet.tracks with
    | false => rw [Sheet.ledger, ht] at hl; cases hl
    | true =>
      obtain ⟨settings, -, hstart⟩ := Sheet.ledger_of_tracks ht hl
      cases hstart
      exact Session.CountsOnly.start settings none

/-- **One statement**, whether or not it succeeds. -/
theorem take (h : p.SelectorsAre P) (hplace : place.SelectorsAre P) :
    (p.take place).2.SelectorsAre P where
  blocks b hb := by
    rw [blocks_take, List.mem_append, Option.mem_toList] at hb
    exact hb.elim (h.blocks b) (hplace.block b)
  consumers placeholder s hs := by
    rcases inheritance_take p place with hi | ⟨d, hd, hi⟩
    · exact h.consumers placeholder s (hi ▸ hs)
    · rcases of_mem_consumers_follow (hi ▸ hs) with hold | ⟨-, hnew⟩
      · exact h.consumers placeholder s hold
      · exact hplace.parents s (selectors_of_directive? hd ▸ hnew)
  counted ledger hl := by
    rcases ledger_take p place with hsame | ⟨before, c, hb, hc, hcall⟩
    · exact h.counted ledger (hsame ▸ hl)
    · obtain rfl := Option.some.inj (hl.symm.trans hcall)
      have hcounts : (Session.mk before (some p.inheritance)).CountsOnly P := h.counted before hb
      exact hcounts.call fun s hs => hplace.parents s (hc ▸ hs)

/-- **Statements one after the other**, up to the first that fails. -/
theorem takeAll (h : p.SelectorsAre P) {places : List Place}
    (hplaces : ∀ place ∈ places, place.SelectorsAre P) : (p.takeAll places).2.SelectorsAre P := by
  induction places generalizing p with
  | nil => exact h
  | cons place rest ih =>
    obtain ⟨hplace, hrest⟩ := List.forall_mem_cons.1 hplaces
    have hstep := h.take hplace
    rw [Progress.takeAll]
    rcases hp : p.take place with ⟨f | u, q⟩
    · rw [hp] at hstep
      exact hstep
    · rw [hp] at hstep
      exact ih hstep hrest

end SelectorsAre

end Progress

/-- The selectors that the statements of a sheet in some text bring are in normal form. -/
theorem Sheet.isNormal_of_mem_places {source : List Char} {sheet : Sheet}
    (h : Sheet.read source = .ok sheet) :
    ∀ place ∈ sheet.places, place.SelectorsAre IsNormal := by
  intro place hm
  have hrules := normalRules_of_read h
  have hparents := isSelectorText_parents hrules place hm
  refine ⟨fun s hs => isNormal_iff.2 (hparents s hs), ?_⟩
  obtain ⟨parents, s⟩ := place
  cases s with
  | rule selectors children =>
    rintro _ ⟨⟩ s hs
    exact isNormal_iff.2
      (isSelectorText_nestSelectors hparents (hrules _ _ (statement_mem_walk hm)) s hs)
  | _ => exact nofun

/-! ## Written rules -/

theorem toList_text (b : Block) :
    ∃ rest, b.text.toList = selectorsSource b.selectors ++ '{' :: rest := by
  simp [Block.text, ruleText, selectorsSource, String.toList_intercalate]

/-- What stands before the brace of a written rule is split into its selectors again. -/
theorem selectorsOf_text {b : Block} (hne : b.selectors ≠ []) (h : ∀ s ∈ b.selectors, IsNormal s) :
    selectorsOf (b.text.toList.takeWhile (· != '{')) = b.selectors := by
  have hs : ∀ s ∈ b.selectors, isSelectorText s = true := fun s hs => isNormal_iff.1 (h s hs)
  have hfree : ∀ c ∈ selectorsSource b.selectors, (c != '{') = true := by
    intro c hc
    refine bne_iff_ne.2 ?_
    rintro rfl
    cases isBlockMark_of_mem_selectorsSource hs _ hc
  obtain ⟨rest, htext⟩ := toList_text b
  rw [htext, (scan_append hfree (.cons (c := '{') rfl rest)).1]
  exact selectorsOf_selectorsSource hne hs

theorem isNormal_overlayBlock (report : String) :
    ∀ s ∈ (overlayBlock report).selectors, IsNormal s := by
  intro s hs
  obtain rfl := List.mem_singleton.1 hs
  exact isNormal_iff.2 (by cbv)

/-! ## Sheets -/

namespace Sheet

variable {source : List Char} {sheet : Sheet} {budgets options : Option (List (Scalar × Value))}
  {c : Compiled}

/-- The text of a sheet that compiles consists of the rules that the sheet gives, and of an
    overlay if reports are asked for. -/
theorem css_eq_blocks (h : (sheet.compile budgets options).result = .ok c) :
    ∃ overlay : List Block, (overlay = [] ∨ ∃ report, overlay = [overlayBlock report]) ∧
      c.css = sheetText ((sheet.output ++ overlay).map Block.text) := by
  obtain ⟨ledger, p, shown, -, -, hshown, rfl⟩ := reaches_of_compile h
  refine ⟨shown, ?_, linesText_sheetLines _⟩
  cases hshown with
  | nothing => exact .inl rfl
  | overlay => exact .inr ⟨_, rfl⟩

/-- **Selectors are in normal form.**  Let a sheet be read from some text and compile.  The
    selectors around every directive are in normal form, so that no call drops one of them as
    empty.  After any number of statements, those in the blocks, those among the consumers of a
    placeholder and those that are counted are in normal form.  So are those of every rule that is
    written, and what stands before its brace is split into them again. -/
theorem isNormal_selectors (hread : Sheet.read source = .ok sheet)
    (hc : (sheet.compile budgets options).result = .ok c) :
    (∀ d ∈ sheet.directives, ∀ s ∈ d.selectors, IsNormal s) ∧
    (∀ call, .counted call ∈ sheet.directives → call.named = call.selectors) ∧
    (∃ ledger p, sheet.ledger budgets options = .ok ledger ∧
      compileAll [] (sheet.begin ledger) sheet.statements = (.ok (), p) ∧ c.ledger = p.ledger ∧
      p.SelectorsAre IsNormal ∧
      ∀ before rest, sheet.places = before ++ rest →
        ((sheet.begin ledger).takeAll before).2.SelectorsAre IsNormal) ∧
    ∃ overlay : List Block, (overlay = [] ∨ ∃ report, overlay = [overlayBlock report]) ∧
      c.css = sheetText ((sheet.output ++ overlay).map Block.text) ∧
      ∀ b ∈ sheet.output ++ overlay, (∀ s ∈ b.selectors, IsNormal s) ∧
        selectorsOf (b.text.toList.takeWhile (· != '{')) = b.selectors := by
  have hplaces := isNormal_of_mem_places hread
  have hdirectives : ∀ d ∈ sheet.directives, ∀ s ∈ d.selectors, IsNormal s :=
    forall_selectors_directives fun place hm => (hplaces place hm).parents
  refine ⟨hdirectives, ?_, ?_, ?_⟩
  · intro call hcall
    refine List.filter_eq_self.2 fun s hs => ?_
    simpa using (hdirectives _ hcall s hs).ne_empty
  · obtain ⟨ledger, p, overlay, hl, hp, -, rfl⟩ := run_of_compile hc
    have hstart := Progress.SelectorsAre.start (P := IsNormal) hl
    have hrun : ∀ before rest, sheet.places = before ++ rest →
        ((sheet.begin ledger).takeAll before).2.SelectorsAre IsNormal := fun before rest hsplit =>
      hstart.takeAll fun place hm => hplaces place (hsplit ▸ List.mem_append_left rest hm)
    have hall := hrun sheet.places [] (List.append_nil _).symm
    rw [hp] at hall
    exact ⟨ledger, p, hl, (compileAll_eq_takeAll [] _ sheet.statements).trans hp, rfl, hall, hrun⟩
  · obtain ⟨overlay, hoverlay, hcss⟩ := css_eq_blocks hc
    refine ⟨overlay, hoverlay, hcss, fun b hb => ?_⟩
    have hb : b.selectors ≠ [] ∧ ∀ s ∈ b.selectors, IsNormal s := by
      rcases List.mem_append.1 hb with hb | hb
      · have hsettled := settled_of_mem_output hread b hb
        exact ⟨hsettled.selectors, fun s hs => isNormal_iff.2 (hsettled.normal s hs)⟩
      · rcases hoverlay with rfl | ⟨report, rfl⟩
        · cases hb
        · obtain rfl := List.mem_singleton.1 hb
          exact ⟨List.cons_ne_nil _ _, isNormal_overlayBlock report⟩
    exact ⟨hb.2, selectorsOf_text hb.1 hb.2⟩

theorem isNormal_selectors_tangledSheet :
    Sheet.read tangledSource.toList = .ok tangledSheet ∧
      (∃ c, (tangledSheet.compile none none).result = .ok c) ∧
      ∃ b ∈ tangledSheet.output, (∀ s ∈ b.selectors, IsNormal s) ∧
        selectorsOf (b.text.toList.takeWhile (· != '{')) =
          [".x > b", ".y .z > b", ".x.u > b", ".y .z.u > b"] := by
  have hread : Sheet.read tangledSource.toList = .ok tangledSheet := by cbv
  have hok : (tangledSheet.compile none none).result.toOption.isSome = true := by cbv
  cases hc : (tangledSheet.compile none none).result with
  | error f => rw [hc] at hok; cases hok
  | ok c =>
    obtain ⟨overlay, -, -, hrules⟩ := (isNormal_selectors hread hc).2.2.2
    have hfirst : ⟨[".x > b", ".y .z > b", ".x.u > b", ".y .z.u > b"], [⟨"color", "red"⟩]⟩ ∈
        tangledSheet.output := by
      rw [output_tangledSheet]
      exact List.mem_cons_self ..
    obtain ⟨hnormal, hsplit⟩ := hrules _ (List.mem_append_left overlay hfirst)
    exact ⟨hread, ⟨c, rfl⟩, _, hfirst, hnormal, hsplit⟩

end Sheet

end StyleBudget
