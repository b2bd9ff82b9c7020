/-
  The text of a compiled sheet compiles to itself.

  * `Block.Settled` is what makes a rule stay as it is: everything in it has the normal form,
    and there is no placeholder to replace and no selector to drop;
    `settled_of_mem_output` says that the rules of the text are settled;
  * `flatSheet` is the sheet of some rules; `source_flatSheet` says how it is written,
    `read_flatSheet` that it is read back and `result_flatSheet` what it compiles to;
  * `Sheet.compile_css` puts these together.
-/
import StyleBudget.Proofs.NormalForm
import StyleBudget.Proofs.Plain
import StyleBudget.Proofs.RoundTrip

namespace StyleBudget

/-! ## Settled rules -/

/-- A rule in normal form, with selectors that expand to themselves. -/
structure Block.Settled (b : Block) : Prop where
  selectors : b.selectors ≠ []
  declarations : b.declarations ≠ []
  nodup : b.selectors.Nodup
  plain : ∀ s ∈ b.selectors, firstPlaceholder? s.toList = none
  normal : ∀ s ∈ b.selectors, isSelectorText s = true
  canonical : ∀ d ∈ b.declarations, d.canonical = true

mutual

/-- What stands in a rule is walked wherever the rule is. -/
theorem Statement.mem_walk_of_mem_children : ∀ (t : Statement) {s : Statement}
    {selectors : List String} {children : List Statement}, .rule selectors children ∈ t.walk →
      s ∈ children → s ∈ t.walk
  | .rule selectors' children', s, selectors, children, hm, hs => by
    rw [Statement.walk] at hm ⊢
    refine List.mem_cons_of_mem _ ?_
    rcases List.mem_cons.1 hm with he | hm
    · obtain ⟨-, rfl⟩ := Statement.rule.inj he
      exact mem_walkAll.2 ⟨s, hs, s.mem_walk_self⟩
    · exact mem_walkAll_of_mem_children children' hm hs
  | .declaration _, _, _, _, hm, _ => by simp [Statement.walk] at hm
  | .mixin _ _, _, _, _, hm, _ => by simp [Statement.walk] at hm
  | .extend _ _, _, _, _, hm, _ => by simp [Statement.walk] at hm
  | .assign _ _, _, _, _, hm, _ => by simp [Statement.walk] at hm

theorem mem_walkAll_of_mem_children : ∀ (l : List Statement) {s : Statement}
    {selectors : List String} {children : List Statement}, .rule selectors children ∈ walkAll l →
      s ∈ children → s ∈ walkAll l
  | [], _, _, _, hm, _ => by cases hm
  | t :: rest, _, _, _, hm, hs => by
    rw [walkAll] at hm ⊢
    rcases List.mem_append.1 hm with hm | hm
    · exact List.mem_append_left _ (t.mem_walk_of_mem_children hm hs)
    · exact List.mem_append_right _ (mem_walkAll_of_mem_children rest hm hs)

end

section

variable {source : List Char} {sheet : Sheet}

theorem normalRules_of_read (h : Sheet.read source = .ok sheet) : NormalRules sheet.walk :=
  fun _ _ hm => isSelectorText_of_isSelectorList (isSelectorList_of_read h hm)

theorem canonical_of_mem_declarationsOf (h : Sheet.read source = .ok sheet)
    {selectors : List String} {children : List Statement}
    (hm : .rule selectors children ∈ sheet.walk) :
    ∀ d ∈ declarationsOf children, d.canonical = true := by
  intro d hd
  obtain ⟨s, hs, hd⟩ := List.mem_filterMap.1 hd
  have hspelled : s.Spelled := spelled_of_read h (mem_walkAll_of_mem_children _ hm hs)
  cases s with
  | declaration d' =>
    cases hd
    exact canonical_of_isDeclaration hspelled
  | _ => cases hd

/-- The rules to which a sheet in some text leads are settled: nesting, the extensions and
    the expansion keep the normal form, and the expansion leaves no placeholder and no
    selector twice. -/
theorem settled_of_mem_output (h : Sheet.read source = .ok sheet) :
    ∀ b ∈ sheet.output, b.Settled := by
  intro b hb
  obtain ⟨⟨parents, s⟩, hm, ho⟩ := List.mem_filterMap.1 hb
  have hwalk : s ∈ sheet.walk := Sheet.statement_mem_walk hm
  cases s with
  | rule selectors children =>
    simp only [Place.output?] at ho
    split at ho
    · rename_i hne
      cases ho
      have hrules := normalRules_of_read h
      have hnest := isSelectorText_nestSelectors (Sheet.isSelectorText_parents hrules _ hm)
        (hrules selectors children hwalk)
      constructor
      · exact hne.2
      · exact hne.1
      · rw [expand_eq]
        exact nodup_distinct _
      · exact fun s hs => (mem_expand_iff.1 hs).1
      · exact isSelectorText_expand (Sheet.isSelectorText_consumers hrules) hnest
      · exact canonical_of_mem_declarationsOf h hwalk
    · cases ho
  | _ => cases ho

end

namespace Block.Settled

variable {b : Block}

/-- Without placeholders and repeats there is nothing to expand. -/
theorem expand_eq_self (h : b.Settled) (inh : Inheritance) :
    inh.expand b.selectors = b.selectors := by
  have hleaves : ∀ s ∈ b.selectors, inh.leaves [] s = [s] :=
    fun s hs => leaves_of_none (h.plain s hs)
  rw [expand_eq, List.flatMap_congr hleaves, List.flatMap_singleton', distinct_of_nodup h.nodup]

theorem rule?_eq_text (h : b.Settled) (inh : Inheritance) : b.rule? inh = some b.text := by
  have hs : b.selectors.isEmpty = false := by simpa using h.selectors
  have hd : b.declarations.isEmpty = false := by simpa using h.declarations
  rw [Block.rule?, h.expand_eq_self, hs, hd]
  rfl

end Block.Settled

/-! ## Flat sheets -/

def Block.statement (b : Block) : Statement :=
  .rule b.selectors (b.declarations.map Statement.declaration)

/-- The sheet with the given rules and nothing else. -/
def flatSheet (blocks : List Block) : Sheet := ⟨blocks.map Block.statement⟩

/-- The first selector starts with no character that opens another statement or a comment. -/
def Block.Opens (b : Block) : Prop := ∀ first ∈ b.selectors.head?, opensRule first = true

theorem sourceAll_declarations (full : Bool) (ds : List Declaration) :
    sourceAll full (ds.map Statement.declaration) = String.join (ds.map declarationText) := by
  induction ds with
  | nil => rfl
  | cons d ds ih => rw [List.map_cons, sourceAll, ih, Statement.source, List.map_cons,
      String.join_cons]

theorem Block.source_statement (full : Bool) (b : Block) : b.statement.source full = b.text := by
  rw [Block.statement, Statement.source, sourceAll_declarations]
  rfl

/-- A flat sheet is written as its rules are in the output. -/
theorem source_flatSheet (full : Nat → Bool) (blocks : List Block) :
    (flatSheet blocks).source full = sheetText (blocks.map Block.text) := by
  refine congrArg sheetText (List.ext_getElem (by simp [flatSheet]) fun i _ _ => ?_)
  simp [flatSheet, Block.source_statement]

theorem canonicalAll_declarations {ds : List Declaration} (h : ∀ d ∈ ds, d.canonical = true) :
    canonicalAll (ds.map Statement.declaration) = true := by
  induction ds with
  | nil => rfl
  | cons d ds ih =>
    obtain ⟨hd, hds⟩ := List.forall_mem_cons.1 h
    rw [List.map_cons, canonicalAll, Statement.canonical, hd, ih hds]
    rfl

theorem canonical_flatSheet {blocks : List Block} (hs : ∀ b ∈ blocks, b.Settled)
    (ho : ∀ b ∈ blocks, b.Opens) : (flatSheet blocks).canonical = true := by
  refine List.all_eq_true.2 fun s hm => ?_
  obtain ⟨b, hb, rfl⟩ := List.mem_map.1 hm
  have hsettled := hs b hb
  have hselectors : canonicalSelectors b.selectors = true := by
    have hfirst := ho b hb
    have hnormal := hsettled.normal
    unfold Block.Opens at hfirst
    cases hl : b.selectors with
    | nil => exact absurd hl hsettled.selectors
    | cons first rest =>
      rw [hl] at hfirst hnormal
      rw [canonicalSelectors, hfirst first rfl, List.all_eq_true.2 hnormal]
      rfl
  rw [Block.statement, Statement.canonical, hselectors,
    canonicalAll_declarations hsettled.canonical]
  rfl

/-- A flat sheet of settled rules is read back from its text. -/
theorem read_flatSheet {blocks : List Block} (hs : ∀ b ∈ blocks, b.Settled)
    (ho : ∀ b ∈ blocks, b.Opens) :
    Sheet.read (sheetText (blocks.map Block.text)).toList = .ok (flatSheet blocks) := by
  have hstatements := List.all_eq_true.1 (canonical_flatSheet hs ho)
  rw [← source_flatSheet fun _ => false]
  exact read_statements hstatements fun _ => false

theorem compileAll_declarations (parents : List String) (p : Progress) (ds : List Declaration) :
    compileAll parents p (ds.map Statement.declaration) = (.ok (), p) := by
  induction ds with
  | nil => rfl
  | cons d ds ih => rw [List.map_cons, compileAll, Statement.compile]; exact ih

/-- Rules without anything nested in them become blocks. -/
theorem compileAll_flat (p : Progress) (blocks : List Block) :
    compileAll [] p (blocks.map Block.statement) =
      (.ok (), { p with blocks := p.blocks ++ blocks }) := by
  induction blocks generalizing p with
  | nil => rw [List.append_nil]; rfl
  | cons b rest ih =>
    have hnest : nestSelectors [] b.selectors = b.selectors := rfl
    rw [List.map_cons, compileAll, Block.statement, Statement.compile, hnest,
      compileAll_declarations]
    simp only [ih, Progress.addBlock, declarationsOf_declarations, List.append_assoc,
      List.singleton_append]

theorem tracks_flatSheet (blocks : List Block) : (flatSheet blocks).tracks = false := by
  rw [Sheet.tracks, List.any_eq_false]
  intro t hm
  obtain ⟨s, hs, hm⟩ := mem_walkAll.1 hm
  obtain ⟨b, -, rfl⟩ := List.mem_map.1 hs
  rw [Block.statement, Statement.walk] at hm
  rcases List.mem_cons.1 hm with rfl | hm
  · simp [Statement.tracks]
  · obtain ⟨s, hs, hm⟩ := mem_walkAll.1 hm
    obtain ⟨d, -, rfl⟩ := List.mem_map.1 hs
    rw [Statement.walk] at hm
    rw [List.mem_singleton.1 hm]
    simp [Statement.tracks]

/-- A flat sheet of settled rules compiles to them, and nothing is counted. -/
theorem result_flatSheet {blocks : List Block} (hs : ∀ b ∈ blocks, b.Settled)
    (budgets options : Option (List (Scalar × Value))) :
    ((flatSheet blocks).compile budgets options).result =
      .ok ⟨sheetText (blocks.map Block.text), [], none⟩ := by
  have hl : (flatSheet blocks).ledger budgets options = .ok none := by
    rw [Sheet.ledger, tracks_flatSheet]
    rfl
  have hrules : ∀ inh : Inheritance, blocks.filterMap (Block.rule? inh) = blocks.map Block.text := by
    intro inh
    rw [List.filterMap_congr fun b hb => (hs b hb).rule?_eq_text inh]
    exact congrFun List.filterMap_eq_map blocks
  rw [Sheet.compile, hl]
  simp only [flatSheet, compileAll_flat, Progress.result_outcome, List.nil_append]
  simp only [Progress.overlay, Progress.rules, hrules]
  simp [Except.map, Progress.findings]

/-! ## Sheets -/

/-- A sheet that asks for no report gives its rules and nothing else. -/
theorem Sheet.css_eq_output {sheet : Sheet} {budgets options : Option (List (Scalar × Value))}
    {c : Compiled} (hq : sheet.Quiet) (hc : (sheet.compile budgets options).result = .ok c) :
    c.css = sheetText (sheet.output.map Block.text) := by
  obtain ⟨ledger, p, shown, -, hp, hshown, rfl⟩ := reaches_of_compile hc
  have hreq : p.requests = [] := hp.requests.trans (requests_eq_nil_iff.2 hq)
  cases hshown with
  | nothing => rw [List.append_nil, linesText_sheetLines]
  | overlay hn => exact absurd hreq hn

/-- **Compiled text is a fixpoint.**  Let a sheet that asks for no report be read from some
    text and compile, and let no rule of its output open with a mark of another statement.
    Then the output is read, it compiles without settings of any kind to the very same
    text, nothing is counted and nothing is found. -/
theorem Sheet.compile_css {source : List Char} {sheet : Sheet}
    {budgets options : Option (List (Scalar × Value))} {c : Compiled}
    (hread : Sheet.read source = .ok sheet) (hquiet : sheet.Quiet)
    (hc : (sheet.compile budgets options).result = .ok c) (hopen : ∀ b ∈ sheet.output, b.Opens) :
    c.css = sheetText (sheet.output.map Block.text) ∧
      ∃ again, Sheet.read c.css.toList = .ok again ∧
        (again.compile none none).result = .ok ⟨c.css, [], none⟩ := by
  have hcss := css_eq_output hquiet hc
  have hsettled := settled_of_mem_output hread
  refine ⟨hcss, flatSheet sheet.output, ?_, ?_⟩
  · rw [hcss]
    exact read_flatSheet hsettled hopen
  · rw [hcss]
    exact result_flatSheet hsettled none none

/-- A budget that does not suffice, a counted extension, and a plain one in a nested rule. -/
def tangledSource : String :=
  "$ext-budget: (total: 1); %a > b \x7b color : red \x7d\n"
    ++ ".x,\n\t.y  .z \x7b @include ext(a); &.u \x7b @extend %a; top:0; \x7d \x7d"

def tangledSheet : Sheet where
  statements :=
    [.assign "ext-budget" (.map [(.text "total", .scalar (.int 1))]),
      .rule ["%a > b"] [.declaration ⟨"color", "red"⟩],
      .rule [".x", ".y .z"]
        [.mixin "ext" ["a"], .rule ["&.u"] [.extend "a" "", .declaration ⟨"top", "0"⟩]]]

theorem output_tangledSheet :
    tangledSheet.output =
      [⟨[".x > b", ".y .z > b", ".x.u > b", ".y .z.u > b"], [⟨"color", "red"⟩]⟩,
        ⟨[".x.u", ".y .z.u"], [⟨"top", "0"⟩]⟩] := by cbv

theorem compile_css_tangledSheet :
    Sheet.read tangledSource.toList = .ok tangledSheet ∧ tangledSheet.Quiet ∧
      (∀ b ∈ tangledSheet.output, b.Opens) ∧
      ∃ c, (tangledSheet.compile none none).result = .ok c ∧
        ∃ again, Sheet.read c.css.toList = .ok again ∧
          (again.compile none none).result = .ok ⟨c.css, [], none⟩ := by
  have hread : Sheet.read tangledSource.toList = .ok tangledSheet := by cbv
  have hquiet : tangledSheet.Quiet := by
    intro args h
    simp [tangledSheet, Sheet.walk, walkAll, Statement.walk, reportMixin] at h
  have hopen : ∀ b ∈ tangledSheet.output, b.Opens := by
    rw [output_tangledSheet]
    unfold Block.Opens
    decide
  have hok : (tangledSheet.compile none none).result.toOption.isSome = true := by cbv
  cases hc : (tangledSheet.compile none none).result with
  | error f => rw [hc] at hok; cases hok
  | ok c => exact ⟨hread, hquiet, hopen, c, rfl, (Sheet.compile_css hread hquiet hc hopen).2⟩

end StyleBudget
