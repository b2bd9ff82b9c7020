/-
  Rules in rules.

  A rule stands under the selectors of the rule around it: each of its own selectors
  is combined with each of them, and has it as a piece.  Only where the rule around
  it has no selector, because its list is made of commas and white space, is there
  nothing to combine with.

  * `infix_nestSelector` and `within_nestSelectors_iff` are about selectors;
  * `mem_places_iff`: a statement is at top level or stands in a rule at its place;
  * `Progress.extend_state` and `Progress.extCall_state` are what extensions change, whether or
    not they succeed, `blocks_take` and `inheritance_take` what any statement changes;
  * `Progress.ComesFrom` says where blocks and consumers come from:
    `ComesFrom.take` is the step, `ComesFrom.takeAll` the run;
  * `Sheet.nested_within_iff` is the result about sheets.
-/
import Mathlib
import StyleBudget.Proofs.NormalForm

namespace StyleBudget

/-! ## Selectors in selectors -/

/-- Each of the selectors has one of the outer ones as a piece. -/
def Within (outer selectors : List String) : Prop :=
  ∀ s ∈ selectors, ∃ t ∈ outer, t.toList <:+: s.toList

instance (outer selectors : List String) : Decidable (Within outer selectors) :=
  inferInstanceAs (Decidable (∀ s ∈ selectors, ∃ t ∈ outer, t.toList <:+: s.toList))

/-- The parent stands for an ampersand or in front of the selector. -/
theorem infix_nestSelector (parent child : String) :
    parent.toList <:+: (nestSelector parent child).toList := by
  rw [nestSelector]
  split
  · rename_i ha
    have hm : '&' ∈ child.toList := List.contains_iff_mem.1 ha
    rw [String.toList_ofList]
    exact List.infix_flatMap_of_mem hm fun c => if c == '&' then parent.toList else [c]
  · rw [String.toList_append, String.toList_append, List.append_assoc]
    exact (List.prefix_append ..).isInfix

section

variable {parents children : List String}

theorem nestSelectors_nil_left : nestSelectors [] children = children := rfl

theorem nestSelectors_eq_nil_iff : nestSelectors parents children = [] ↔ children = [] := by
  rw [nestSelectors]
  split
  · rfl
  · rename_i hne
    obtain ⟨parent, rest, rfl⟩ := List.exists_cons_of_ne_nil (mt List.isEmpty_iff.2 hne)
    constructor
    · intro h
      have hfirst := List.flatMap_eq_nil_iff.1 h parent (List.mem_cons_self ..)
      exact List.map_eq_nil_iff.1 hfirst
    · rintro rfl
      exact List.flatMap_eq_nil_iff.2 fun _ _ => rfl

/-- Nested selectors have their parents as pieces as soon as there are parents. -/
theorem within_nestSelectors_iff :
    Within parents (nestSelectors parents children) ↔ parents ≠ [] ∨ children = [] := by
  constructor
  · intro h
    refine or_iff_not_imp_left.2 fun hp => ?_
    obtain rfl := not_not.1 hp
    refine List.eq_nil_iff_forall_not_mem.2 fun s hs => ?_
    obtain ⟨t, ht, -⟩ := h s hs
    cases ht
  · rintro (hp | rfl)
    · intro s hs
      rw [nestSelectors, if_neg (mt List.isEmpty_iff.1 hp)] at hs
      obtain ⟨parent, hm, hs⟩ := List.mem_flatMap.1 hs
      obtain ⟨child, -, rfl⟩ := List.mem_map.1 hs
      exact ⟨parent, hm, infix_nestSelector parent child⟩
    · rw [nestSelectors_eq_nil_iff.2 rfl]
      exact fun s hs => by cases hs

end

/-- A list has no selector exactly if it is made of commas and white space. -/
theorem selectorsOf_eq_nil_iff {l : List Char} :
    selectorsOf l = [] ↔ ∀ c ∈ l, c = ',' ∨ isBlank c = true := by
  have hparts : selectorsOf l = [] ↔ ∀ part ∈ l.splitOn ',', trim part = [] := by
    simp [selectorsOf, List.filter_eq_nil_iff]
  rw [hparts]
  constructor
  · intro h c hc
    by_cases hcomma : c = ','
    · exact .inl hcomma
    · obtain ⟨part, hm, hpart⟩ := exists_mem_splitOnP (p := (· == ',')) hc (by simpa using hcomma)
      refine .inr (Decidable.byContradiction fun hb => ?_)
      exact trim_ne_nil hpart (Bool.not_eq_true _ ▸ hb) (h part hm)
  · intro h part hm
    refine trim_of_blank fun c hc => ?_
    obtain ⟨hl, hcomma⟩ := of_mem_splitOnP hm c hc
    exact (h c hl).resolve_left (by simpa using hcomma)

/-! ## Statements in rules -/

/-- A place stands directly in the rule of another one. -/
def Place.Encloses (outer place : Place) : Prop :=
  ∃ selectors children, outer.statement = .rule selectors children ∧
    place.statement ∈ children ∧ place.parents = nestSelectors outer.parents selectors

theorem Place.Encloses.ne_of_isRule_eq_false {outer place : Place} {parents : List String} {s : Statement}
    (h : outer.Encloses place) (hs : s.isRule = false) : outer ≠ ⟨parents, s⟩ := by
  rintro rfl
  obtain ⟨_, _, rfl, -⟩ := h
  cases hs

theorem mem_placesAll {parents : List String} {place : Place} {l : List Statement} :
    place ∈ placesAll parents l ↔ ∃ s ∈ l, place ∈ s.places parents := by
  induction l with
  | nil => simp [placesAll]
  | cons s rest ih =>
    rw [placesAll, List.mem_append, ih]
    simp only [List.mem_cons, exists_eq_or_imp]

theorem Statement.mem_places_self (parents : List String) (s : Statement) :
    ⟨parents, s⟩ ∈ s.places parents := by
  cases s <;> simp [Statement.places]

theorem mem_placesAll_of_mem {parents : List String} {place : Place} {l : List Statement}
    (hp : place.parents = parents) (hs : place.statement ∈ l) : place ∈ placesAll parents l := by
  obtain ⟨_, t⟩ := place
  cases hp
  exact mem_placesAll.2 ⟨t, hs, t.mem_places_self _⟩

mutual

theorem Statement.mem_places_of_encloses {outer place : Place} {parents : List String}
    (h : outer.Encloses place) :
    ∀ s : Statement, outer ∈ s.places parents → place ∈ s.places parents
  | .rule selectors children, hm => by
    rw [Statement.places] at hm ⊢
    refine List.mem_cons_of_mem _ ?_
    rcases List.mem_cons.1 hm with rfl | hm
    · obtain ⟨_, _, ho, hs, hp⟩ := h
      cases ho
      exact mem_placesAll_of_mem hp hs
    · exact mem_placesAll_of_encloses h children hm
  | .declaration _, hm => absurd (List.mem_singleton.1 hm) (h.ne_of_isRule_eq_false rfl)
  | .mixin _ _, hm => absurd (List.mem_singleton.1 hm) (h.ne_of_isRule_eq_false rfl)
  | .extend _ _, hm => absurd (List.mem_singleton.1 hm) (h.ne_of_isRule_eq_false rfl)
  | .assign _ _, hm => absurd (List.mem_singleton.1 hm) (h.ne_of_isRule_eq_false rfl)

theorem mem_placesAll_of_encloses {outer place : Place} {parents : List String}
    (h : outer.Encloses place) :
    ∀ l : List Statement, outer ∈ placesAll parents l → place ∈ placesAll parents l
  | [], hm => by cases hm
  | s :: rest, hm => by
    rw [placesAll] at hm ⊢
    rcases List.mem_append.1 hm with hm | hm
    · exact List.mem_append_left _ (s.mem_places_of_encloses h hm)
    · exact List.mem_append_right _ (mem_placesAll_of_encloses h rest hm)

end

mutual

theorem Statement.enclosed_of_mem_places {place : Place} {parents : List String} :
    ∀ s : Statement, place ∈ s.places parents →
      place = ⟨parents, s⟩ ∨ ∃ outer ∈ s.places parents, outer.Encloses place
  | .rule selectors children, hm => by
    rw [Statement.places] at hm ⊢
    rcases List.mem_cons.1 hm with rfl | hm
    · exact .inl rfl
    · rcases enclosed_of_mem_placesAll children hm with ⟨hp, hs⟩ | ⟨outer, ho, he⟩
      · exact .inr ⟨_, List.mem_cons_self .., selectors, children, rfl, hs, hp⟩
      · exact .inr ⟨outer, List.mem_cons_of_mem _ ho, he⟩
  | .declaration _, hm => .inl (List.mem_singleton.1 hm)
  | .mixin _ _, hm => .inl (List.mem_singleton.1 hm)
  | .extend _ _, hm => .inl (List.mem_singleton.1 hm)
  | .assign _ _, hm => .inl (List.mem_singleton.1 hm)

theorem enclosed_of_mem_placesAll {place : Place} {parents : List String} :
    ∀ l : List Statement, place ∈ placesAll parents l →
      (place.parents = parents ∧ place.statement ∈ l) ∨
        ∃ outer ∈ placesAll parents l, outer.Encloses place
  | [], hm => by cases hm
  | s :: rest, hm => by
    rw [placesAll] at hm ⊢
    rcases List.mem_append.1 hm with hm | hm
    · rcases s.enclosed_of_mem_places hm with rfl | ⟨outer, ho, he⟩
      · exact .inl ⟨rfl, List.mem_cons_self ..⟩
      · exact .inr ⟨outer, List.mem_append_left _ ho, he⟩
    · rcases enclosed_of_mem_placesAll rest hm with ⟨hp, hs⟩ | ⟨outer, ho, he⟩
      · exact .inl ⟨hp, List.mem_cons_of_mem s hs⟩
      · exact .inr ⟨outer, List.mem_append_right _ ho, he⟩

end

/-- A statement is at top level or stands directly in a rule at its place. -/
theorem Sheet.mem_places_iff {sheet : Sheet} {place : Place} :
    place ∈ sheet.places ↔ (place.parents = [] ∧ place.statement ∈ sheet.statements) ∨
      ∃ outer ∈ sheet.places, outer.Encloses place := by
  constructor
  · exact enclosed_of_mem_placesAll sheet.statements
  · rintro (⟨hp, hs⟩ | ⟨outer, ho, he⟩)
    · exact mem_placesAll_of_mem hp hs
    · exact mem_placesAll_of_encloses he sheet.statements ho

/-! ## Where selectors come from -/

/-- The blocks are those of rules that have been taken, in order, and the consumers of
    a placeholder stand around extensions of it that have been taken. -/
structure Progress.ComesFrom (p : Progress) (taken : List Place) : Prop where
  blocks : p.blocks = taken.filterMap Place.block?
  consumers : ∀ placeholder, ∀ s ∈ p.inheritance.consumers placeholder,
    ∃ place ∈ taken, ∃ d, place.directive? = some d ∧ d.placeholder = placeholder ∧
      s ∈ place.parents

namespace Progress

variable {p : Progress} {taken : List Place}

/-- A plain extension changes nothing but what is inherited, if it changes anything. -/
theorem extend_state (p : Progress) (placeholder flag : String) (parents : List String) :
    (p.extend placeholder flag parents).2 = p ∨
      (p.extend placeholder flag parents).2 =
        { p with inheritance := p.inheritance.follow (.plain placeholder flag parents) } := by
  rw [extend]
  split
  · exact .inl rfl
  · rw [Inheritance.follow]
    cases p.inheritance.extend placeholder parents flag with
    | error f => exact .inl rfl
    | ok inh => exact .inr rfl

/-- A counted extension changes nothing, or the inheritance as it does by itself and the ledger
    as its call does; the call may fail all the same. -/
theorem extCall_state (p : Progress) (c : Call) :
    (p.extCall c).2 = p ∨ ∃ ledger, p.ledger = some ledger ∧
      (p.extCall c).2 = { p with
        ledger := some (Session.call ⟨ledger, some p.inheritance⟩ c).2.ledger
        inheritance := p.inheritance.follow (.counted c) } := by
  cases hl : p.ledger with
  | none =>
    rw [extCall, ext, hl]
    exact .inl rfl
  | some ledger =>
    rw [extCall_of_ledger hl]
    rcases Session.extend_of_call ledger p.inheritance c with hs | ⟨inh, hi, hs⟩
    · rw [hs]
      refine .inl ?_
      rw [← hl]
      rfl
    · refine .inr ⟨ledger, rfl, ?_⟩
      rw [hs, Inheritance.follow, hi]
      rfl

theorem blocks_take (p : Progress) (place : Place) :
    (p.take place).2.blocks = p.blocks ++ place.block?.toList := by
  cases place.acts with
  | idle hb _ _ h => rw [h, hb]; exact (List.append_nil _).symm
  | block hb _ _ h => rw [h, hb]; rfl
  | request hb _ _ h => rw [h, hb]; exact (List.append_nil _).symm
  | fails hb _ _ h => rw [h, hb]; exact (List.append_nil _).symm
  | @plain placeholder flag hb _ _ h =>
    rw [h, hb, Option.toList_none, List.append_nil]
    rcases p.extend_state placeholder flag place.parents with hs | hs <;> rw [hs]
  | @counted c hb _ _ h =>
    rw [h, hb, Option.toList_none, List.append_nil]
    rcases p.extCall_state c with hs | ⟨ledger, -, hs⟩ <;> rw [hs]

/-- A statement changes what is inherited as its directive does, or not at all. -/
theorem inheritance_take (p : Progress) (place : Place) :
    (p.take place).2.inheritance = p.inheritance ∨
      ∃ d, place.directive? = some d ∧
        (p.take place).2.inheritance = p.inheritance.follow d := by
  cases place.acts with
  | idle _ _ _ h => rw [h]; exact .inl rfl
  | block _ _ _ h => rw [h]; exact .inl rfl
  | request _ _ _ h => rw [h]; exact .inl rfl
  | fails _ _ _ h => rw [h]; exact .inl rfl
  | @plain placeholder flag _ _ hd h =>
    rw [h]
    rcases p.extend_state placeholder flag place.parents with hs | hs
    · exact .inl (by rw [hs])
    · exact .inr ⟨_, hd, by rw [hs]⟩
  | @counted c _ _ hd h =>
    rw [h]
    rcases p.extCall_state c with hs | ⟨ledger, -, hs⟩
    · exact .inl (by rw [hs])
    · exact .inr ⟨_, hd, by rw [hs]⟩

namespace ComesFrom

/-- **One statement**, whether or not it succeeds. -/
theorem take (h : p.ComesFrom taken) (place : Place) :
    (p.take place).2.ComesFrom (taken ++ [place]) where
  blocks := by
    rw [blocks_take, h.blocks, List.filterMap_append]
    cases hb : place.block? <;> simp [hb]
  consumers placeholder s hs := by
    have hsource : s ∈ p.inheritance.consumers placeholder ∨
        ∃ d, place.directive? = some d ∧ placeholder = d.placeholder ∧ s ∈ d.selectors := by
      rcases inheritance_take p place with hi | ⟨d, hd, hi⟩
      · exact .inl (hi ▸ hs)
      · exact (of_mem_consumers_follow (hi ▸ hs)).imp_right fun hnew => ⟨d, hd, hnew⟩
    rcases hsource with hold | ⟨d, hd, hq, hnew⟩
    · obtain ⟨before, hm, hrest⟩ := h.consumers placeholder s hold
      exact ⟨before, List.mem_append_left _ hm, hrest⟩
    · exact ⟨place, List.mem_append_right _ (List.mem_singleton_self _), d, hd, hq.symm,
        selectors_of_directive? hd ▸ hnew⟩

/-- **Statements one after the other**, up to the first that fails. -/
theorem takeAll (h : p.ComesFrom taken) (places : List Place) :
    ∃ more rest, places = more ++ rest ∧ ((p.takeAll places).1 = .ok () → rest = []) ∧
      (p.takeAll places).2.ComesFrom (taken ++ more) := by
  induction places generalizing p taken with
  | nil => exact ⟨[], [], rfl, fun _ => rfl, by rw [List.append_nil]; exact h⟩
  | cons place rest ih =>
    have hstep := h.take place
    rw [Progress.takeAll]
    rcases hp : p.take place with ⟨f | u, q⟩
    · rw [hp] at hstep
      exact ⟨[place], rest, rfl, (fun hf => by cases hf), hstep⟩
    · rw [hp] at hstep
      obtain ⟨more, left, hsplit, hall, hrun⟩ := ih hstep
      refine ⟨place :: more, left, by rw [hsplit, List.cons_append], hall, ?_⟩
      rwa [List.append_assoc, List.singleton_append] at hrun

theorem start (sheet : Sheet) (ledger : Option Ledger) : (sheet.begin ledger).ComesFrom [] where
  blocks := rfl
  consumers placeholder s hs := by
    rw [Sheet.begin, Inheritance.consumers_declare] at hs
    cases hs

end ComesFrom

end Progress

/-! ## Sheets -/

/-- **Rules in rules.**  Let a sheet be read and its statements be taken.  The blocks are
    those of the rules that have been taken, and whatever has been made a consumer stands
    around an extension that has been taken; and a statement stands at top level or
    directly in a rule.  In a rule with selectors, a nested rule and all that stands in it
    have only selectors with one of those as a piece.  If the list of the outer rule is
    made of commas and white space, and only then, it has no selector, and the nested rule
    has the selectors that it would have at top level. -/
theorem Sheet.nested_within_iff {source : List Char} {sheet : Sheet}
    (h : Sheet.read source = .ok sheet) :
    (∀ ledger result p,
      compileAll [] (sheet.begin ledger) sheet.statements = (result, p) →
      ∃ taken rest, sheet.places = taken ++ rest ∧ (result = .ok () → rest = []) ∧
        p.blocks = taken.filterMap Place.block? ∧
        ∀ placeholder, ∀ s ∈ p.inheritance.consumers placeholder, ∃ place ∈ taken, ∃ d,
          place.directive? = some d ∧ d.placeholder = placeholder ∧ s ∈ place.parents) ∧
    (∀ place ∈ sheet.places, (place.parents = [] ∧ place.statement ∈ sheet.statements) ∨
      ∃ outer ∈ sheet.places, outer.Encloses place) ∧
    ∀ parents own children, ⟨parents, .rule own children⟩ ∈ sheet.places →
      (∃ cs l, selectorLexeme? cs = some l ∧ own = selectorsOf l ∧
        (own = [] ↔ ∀ c ∈ l, c = ',' ∨ isBlank c = true)) ∧
      ∀ selectors inner, .rule selectors inner ∈ children →
        ∃ outer nested, outer = nestSelectors parents own ∧
          nested = nestSelectors outer selectors ∧
          ⟨outer, .rule selectors inner⟩ ∈ sheet.places ∧
          (Place.mk outer (.rule selectors inner)).block? =
            some ⟨nested, declarationsOf inner⟩ ∧
          (∀ s ∈ inner, ⟨nested, s⟩ ∈ sheet.places) ∧
          (Within outer nested ↔ own ≠ [] ∨ selectors = []) ∧
          (own = [] → nested = selectors) := by
  refine ⟨fun ledger result p hrun => ?_, fun place => Sheet.mem_places_iff.1,
    fun parents own children hm => ⟨?_, fun selectors inner hc => ?_⟩⟩
  · obtain ⟨taken, rest, hsplit, hall, hfrom⟩ :=
      (Progress.ComesFrom.start sheet ledger).takeAll sheet.places
    have htake : (sheet.begin ledger).takeAll sheet.places = (result, p) :=
      (compileAll_eq_takeAll [] _ sheet.statements).symm.trans hrun
    rw [htake, List.nil_append] at hfrom
    rw [htake] at hall
    exact ⟨taken, rest, hsplit, hall, hfrom.blocks, hfrom.consumers⟩
  · obtain ⟨cs, l, hl, rfl⟩ := isSelectorList_of_read h (Sheet.statement_mem_walk hm)
    exact ⟨cs, l, hl, rfl, selectorsOf_eq_nil_iff⟩
  · have hnested : ⟨nestSelectors parents own, .rule selectors inner⟩ ∈ sheet.places :=
      Sheet.mem_places_iff.2 (.inr ⟨_, hm, own, children, rfl, hc, rfl⟩)
    refine ⟨_, _, rfl, rfl, hnested, rfl, fun s hs => ?_, ?_, ?_⟩
    · exact Sheet.mem_places_iff.2 (.inr ⟨_, hnested, selectors, inner, rfl, hs, rfl⟩)
    · rw [within_nestSelectors_iff, Ne, nestSelectors_eq_nil_iff]
    · intro hown
      rw [nestSelectors_eq_nil_iff.2 hown, nestSelectors_nil_left]

/-- A rule with an extension, and a rule in another one whose list is a comma. -/
def nestedSource : String :=
  ".x \x7b &.y \x7b @extend %a; \x7d , \x7b .b \x7b color: red; \x7d \x7d \x7d"

def nestedRules : List Statement :=
  [.rule ["&.y"] [.extend "a" ""], .rule [] [.rule [".b"] [.declaration ⟨"color", "red"⟩]]]

def nestedSheet : Sheet where
  statements := [.rule [".x"] nestedRules]

theorem within_nestedSheet :
    Sheet.read nestedSource.toList = .ok nestedSheet ∧ Within [".x"] [".x.y"] ∧
      ⟨[".x.y"], .extend "a" ""⟩ ∈ nestedSheet.places ∧ ¬ Within [] [".b"] ∧
      ⟨[".b"], .declaration ⟨"color", "red"⟩⟩ ∈ nestedSheet.places := by
  have hread : Sheet.read nestedSource.toList = .ok nestedSheet := by cbv
  obtain ⟨-, -, hrules⟩ := Sheet.nested_within_iff hread
  have houter : ⟨[], .rule [".x"] nestedRules⟩ ∈ nestedSheet.places := List.mem_cons_self ..
  obtain ⟨-, hchildren⟩ := hrules [] [".x"] nestedRules houter
  obtain ⟨_, _, rfl, rfl, -, -, hextend, hwithin, -⟩ :=
    hchildren ["&.y"] [.extend "a" ""] (List.mem_cons_self ..)
  obtain ⟨_, _, rfl, rfl, hcomma, -⟩ :=
    hchildren [] _ (List.mem_cons_of_mem _ (List.mem_cons_self ..))
  obtain ⟨_, _, rfl, rfl, -, -, hdeclaration, hwithout, hself⟩ :=
    (hrules [".x"] [] _ hcomma).2 [".b"] _ (List.mem_cons_self ..)
  have hx : nestSelectors (nestSelectors [] [".x"]) ["&.y"] = [".x.y"] := by cbv
  rw [hx] at hextend hwithin
  rw [hself rfl] at hdeclaration hwithout
  refine ⟨hread, hwithin.2 (.inl (List.cons_ne_nil _ _)), hextend _ (List.mem_singleton_self _),
    fun h => ?_, hdeclaration _ (List.mem_singleton_self _)⟩
  rcases hwithout.1 h with hne | hne
  · exact hne rfl
  · cases hne

/-- A rule in a rule whose list is a comma. -/
def commaSource : String := ", \x7b .b \x7b color: red; \x7d \x7d"

def commaSheet : Sheet where
  statements := [.rule [] [.rule [".b"] [.declaration ⟨"color", "red"⟩]]]

/-- The rule in it stands under the selectors that it would have at top level, and is
    written with them. -/
theorem not_within_commaSheet :
    Sheet.read commaSource.toList = .ok commaSheet ∧
      ⟨[], .rule [] [.rule [".b"] [.declaration ⟨"color", "red"⟩]]⟩ ∈ commaSheet.places ∧
      nestSelectors [] [] = [] ∧ nestSelectors (nestSelectors [] []) [".b"] = [".b"] ∧
      ¬ Within (nestSelectors [] []) (nestSelectors (nestSelectors [] []) [".b"]) ∧
      (commaSheet.compile none none).result.toOption.map Compiled.css =
        some ".b \x7b\n  color: red;\n\x7d\n" := by
  have hread : Sheet.read commaSource.toList = .ok commaSheet := by cbv
  refine ⟨hread, List.mem_cons_self .., rfl, rfl, by decide, by cbv⟩

end StyleBudget
