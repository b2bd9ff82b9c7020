/-
  What is read and compiled is in normal form.

  * `isSelectorText_of_isSelectorList` and `canonical_of_isDeclaration`: the selectors and the
    declarations of a sheet that has been read are such as can be written;
  * `isSelectorText_nestSelector` and `isSelectorText_replaceWith` are the two steps that
    make selectors of others, nesting and the replacement of a placeholder;
  * `isSelectorText_parents`, `isSelectorText_consumers` and `isSelectorText_expand` are
    the runs: the selectors around the statements of a sheet, those that have extended a
    placeholder, and what they expand to;
  * `forall_parents_placesAll` and `Sheet.forall_consumers` are the first two for any property
    that nesting keeps, and `Sheet.countsOnly_counted` is the same for what is counted.
-/
import StyleBudget.Proofs.Expansion
import StyleBudget.Proofs.History
import StyleBudget.Proofs.Phases
import StyleBudget.Proofs.Reading
import StyleBudget.Proofs.Writing

namespace StyleBudget

/-! ## What is read -/

theorem isBlockMark_of_selectorLexeme? {cs l : List Char} (h : selectorLexeme? cs = some l) :
    ∀ c ∈ l, isBlockMark c = false := by
  unfold selectorLexeme? at h
  split at h
  · split at h
    · cases h
    · rename_i c rest hc
      simp only [Bool.or_eq_true, not_or, Bool.not_eq_true] at hc
      split at h
      · cases h
        intro d hd
        rcases List.mem_cons.1 hd with rfl | hd
        · exact hc.1.1.1.2
        · simpa using List.mem_takeWhile_imp hd
      · cases h
  · cases h

/-- The selectors of a list that stands in a text are in normal form. -/
theorem isSelectorText_of_isSelectorList {selectors : List String} (h : IsSelectorList selectors) :
    ∀ s ∈ selectors, isSelectorText s = true := by
  obtain ⟨cs, l, hl, rfl⟩ := h
  intro s hs
  obtain ⟨part, hp, rfl⟩ := List.mem_map.1 hs
  obtain ⟨hp, hfull⟩ := List.mem_filter.1 hp
  have hchars := of_mem_splitOnP hp
  rw [isSelectorText_iff, String.toList_ofList]
  constructor
  · refine squeezed_squeeze fun hw => ?_
    have hblank : ∀ c ∈ part, isBlank c = true := by
      intro c hc
      cases hb : isBlank c with
      | true => rfl
      | false =>
        have hmem := mem_squeeze hc hb
        rw [squeeze, hw] at hmem
        cases hmem
    rw [trim_of_blank hblank] at hfull
    cases hfull
  · intro c hc
    rcases of_mem_squeeze hc with rfl | hc
    · decide
    · obtain ⟨hm, hcomma⟩ := hchars c hc
      exact ⟨by simpa using hcomma, isBlockMark_of_selectorLexeme? hl c hm⟩

theorem valueLexeme?_cases {cs l : List Char} (h : valueLexeme? cs = some l) :
    ∃ body, (∀ c ∈ body, isBlockMark c = false) ∧ (l = body ++ [';'] ∨ l = body) := by
  refine ⟨cs.takeWhile fun c => !isBlockMark c, fun c hc => ?_, ?_⟩
  · simpa using List.mem_takeWhile_imp hc
  · unfold valueLexeme? at h
    split at h
    · exact .inl (Option.some.inj h).symm
    · exact .inr (Option.some.inj h).symm
    · cases h

/-- A declaration has a name, a colon after white space, and a value with or without a
    semicolon. -/
theorem declarationLexeme?_cases {cs l : List Char} (h : declarationLexeme? cs = some l) :
    ∃ word blanks body tail, isWord (fun c => c.isAlpha || c == '-') word = true ∧
      (∀ c ∈ blanks, isBlank c = true) ∧ (∀ c ∈ body, isBlockMark c = false) ∧
      (tail = body ++ [';'] ∨ tail = body) ∧ l = word ++ (blanks ++ ':' :: tail) := by
  unfold declarationLexeme? at h
  split at h
  · rename_i c rest
    split at h
    · rename_i hc
      obtain ⟨value, hv, rfl⟩ := Option.map_eq_some_iff.1 h
      unfold colonValueLexeme? at hv
      split at hv
      · rename_i more hmore
        obtain ⟨tail, ht, rfl⟩ := Option.map_eq_some_iff.1 hv
        obtain ⟨body, hbody, htail⟩ := valueLexeme?_cases ht
        refine ⟨c :: rest.takeWhile isNameChar, _, body, tail, ?_,
          fun d hd => List.mem_takeWhile_imp hd, hbody, htail, rfl⟩
        simp only [isWord, hc, Bool.true_and, List.all_eq_true]
        exact fun d hd => List.mem_takeWhile_imp hd
      · cases hv
    · cases h
  · cases h

/-- A declaration that stands in a text can be written. -/
theorem canonical_of_isDeclaration {d : Declaration} (h : IsDeclaration d) :
    d.canonical = true := by
  obtain ⟨cs, l, hl, rfl⟩ := h
  obtain ⟨word, blanks, body, tail, hw, hb, hbody, htail, rfl⟩ := declarationLexeme?_cases hl
  have hsub : ∀ c ∈ dropEndWhile (· == ';') (trimEnd tail), isBlockMark c = false := by
    rcases htail with rfl | rfl
    · -- the semicolon at the end is the only mark, and it is taken off
      have htrim : trimEnd (body ++ [';']) = body ++ [';'] := dropEndWhile_append_cons rfl body []
      have hbody' : dropEndWhile (· == ';') (body ++ [';']) = body := by
        rw [dropEndWhile_append _ (List.forall_mem_singleton.2 rfl)]
        refine dropEndWhile_of_forall fun c hc => beq_eq_false_iff_ne.2 ?_
        rintro rfl
        cases hbody ';' hc
      rw [htrim, hbody']
      exact hbody
    · have hinitial : dropEndWhile (· == ';') (trimEnd tail) <+: tail :=
        (List.rdropWhile_prefix _ _).trans (List.rdropWhile_prefix _ tail)
      exact fun c hc => hbody c (hinitial.mem hc)
  rw [declarationOf_eq hw hb rfl, Declaration.canonical_iff]
  simp only [String.toList_ofList]
  exact ⟨hw, trim_trim _, fun c hc => hsub c (mem_of_mem_trim hc)⟩

/-! ## Nesting -/

section

variable {parent child consumer : String}

theorem squeezed_replaceAmpersands {ps : List Char} (hp : Squeezed ps) {a b : Char}
    (hab : isBlank a = isBlank b) {cs : List Char}
    (h : List.IsChain SpacedBy (a :: (cs ++ [' ']))) :
    List.IsChain SpacedBy (b :: (replaceAmpersands ps cs ++ [' '])) := by
  induction cs generalizing a b with
  | nil =>
    have hspace := List.isChain_pair.1 h
    refine List.isChain_pair.2 fun hb => ?_
    rw [← hab]
    exact hspace hb
  | cons c cs ih =>
    obtain ⟨hac, hrest⟩ := List.isChain_cons_cons.1 h
    by_cases hc : c = '&'
    · -- what follows the ampersand follows the last character of the parent
      subst hc
      obtain ⟨front, last, hps⟩ : ∃ front last, ps = front ++ [last] :=
        ⟨_, _, (List.dropLast_append_getLast hp.ne_nil).symm⟩
      have hlast : isBlank last = false := hp.last last (by simp [hps])
      have hback : List.IsChain SpacedBy ([last] ++ (replaceAmpersands ps cs ++ [' '])) :=
        ih (a := '&') (b := last) (hlast ▸ rfl) hrest
      have hfront : List.IsChain SpacedBy ((b :: front) ++ [last]) := by
        rw [List.cons_append, ← hps]
        exact hp.follows b
      have hjoin := hfront.append_overlap hback (by simp)
      rw [List.append_assoc, List.cons_append, ← List.append_assoc front, ← hps] at hjoin
      simpa [replaceAmpersands] using hjoin
    · have hkeep : replaceAmpersands ps (c :: cs) = c :: replaceAmpersands ps cs := by
        simp [replaceAmpersands, hc]
      rw [hkeep]
      refine .cons_cons (fun hb => ?_) (ih rfl hrest)
      rw [← hab]
      exact hac hb

theorem isSelectorText_nestSelector (hp : isSelectorText parent = true)
    (hc : isSelectorText child = true) : isSelectorText (nestSelector parent child) = true := by
  rw [isSelectorText_iff] at hp hc ⊢
  rw [nestSelector]
  split
  · rw [String.toList_ofList]
    refine ⟨squeezed_replaceAmpersands hp.1 rfl hc.1, fun c hm => ?_⟩
    obtain ⟨d, hd, hm⟩ := List.mem_flatMap.1 hm
    split at hm
    · exact hp.2 c hm
    · rw [List.mem_singleton.1 hm]
      exact hc.2 d hd
  · have hsplit : (parent ++ " " ++ child).toList = parent.toList ++ ' ' :: child.toList := by simp
    rw [hsplit]
    refine ⟨hp.1.join hc.1, fun c hm => ?_⟩
    simp only [List.mem_append, List.mem_cons] at hm
    rcases hm with hm | rfl | hm
    · exact hp.2 c hm
    · decide
    · exact hc.2 c hm

/-- What nesting keeps for one selector in another it keeps for all of them. -/
theorem forall_nestSelectors {P : String → Prop}
    (hnest : ∀ parent child, P parent → P child → P (nestSelector parent child))
    {parents children : List String} (hp : ∀ s ∈ parents, P s) (hc : ∀ s ∈ children, P s) :
    ∀ s ∈ nestSelectors parents children, P s := by
  rw [nestSelectors]
  split
  · exact hc
  · intro s hs
    obtain ⟨parent, hm, hs⟩ := List.mem_flatMap.1 hs
    obtain ⟨child, hm', rfl⟩ := List.mem_map.1 hs
    exact hnest parent child (hp parent hm) (hc child hm')

theorem isSelectorText_nestSelectors {parents children : List String}
    (hp : ∀ s ∈ parents, isSelectorText s = true) (hc : ∀ s ∈ children, isSelectorText s = true) :
    ∀ s ∈ nestSelectors parents children, isSelectorText s = true :=
  forall_nestSelectors (P := fun s => isSelectorText s = true)
    (fun _ _ => isSelectorText_nestSelector) hp hc

/-! ## Expansion -/

/-- A selector in the place of a placeholder. -/
theorem isSelectorText_replaceWith {s : String} {o : Occurrence} (hs : isSelectorText s = true)
    (ho : firstPlaceholder? s.toList = some o) (hc : isSelectorText consumer = true) :
    isSelectorText (o.replaceWith consumer) = true := by
  rw [isSelectorText_iff] at hs hc ⊢
  rw [eq_of_firstPlaceholder? ho] at hs
  have hsplit : o.before ++ '%' :: (o.name ++ o.after) =
      o.before ++ (('%' :: o.name) ++ o.after) := by simp
  rw [hsplit] at hs
  rw [toList_replaceWith, List.append_assoc]
  refine ⟨hs.1.replace (by simp) hc.1, fun c hm => ?_⟩
  simp only [List.mem_append] at hm
  rcases hm with hm | hm | hm
  · exact hs.2 c (by simp [hm])
  · exact hc.2 c hm
  · exact hs.2 c (by simp [hm])

end

theorem isSelectorText_of_rewriting {inh : Inheritance}
    (hi : ∀ placeholder, ∀ s ∈ inh.consumers placeholder, isSelectorText s = true)
    {names : List String} {s t : String} (h : Rewriting inh names s t)
    (hs : isSelectorText s = true) : isSelectorText t = true := by
  induction h with
  | stop => exact hs
  | step ho hc _ ih => exact ih (isSelectorText_replaceWith hs ho (hi _ _ hc))

/-- Expansion keeps the normal form if the consumers have it. -/
theorem isSelectorText_expand {inh : Inheritance} {selectors : List String}
    (hi : ∀ placeholder, ∀ s ∈ inh.consumers placeholder, isSelectorText s = true)
    (hs : ∀ s ∈ selectors, isSelectorText s = true) :
    ∀ t ∈ inh.expand selectors, isSelectorText t = true := by
  intro t ht
  obtain ⟨-, s, hm, names, -, hr⟩ := mem_expand_iff.1 ht
  exact isSelectorText_of_rewriting hi hr (hs s hm)

/-! ## Selectors around statements -/

section

variable {P : String → Prop}

mutual

theorem Statement.forall_parents_places
    (hnest : ∀ parent child, P parent → P child → P (nestSelector parent child)) :
    ∀ (t : Statement) {parents : List String}, (∀ s ∈ parents, P s) →
      (∀ selectors children, .rule selectors children ∈ t.walk → ∀ s ∈ selectors, P s) →
      ∀ place ∈ t.places parents, ∀ s ∈ place.parents, P s
  | .rule selectors children, parents, hp, hr, place, hm => by
    rw [Statement.places] at hm
    rw [Statement.walk] at hr
    rcases List.mem_cons.1 hm with rfl | hm
    · exact hp
    · have hs := hr selectors children (List.mem_cons_self ..)
      exact forall_parents_placesAll hnest children (forall_nestSelectors hnest hp hs)
        (fun sel ch hc => hr sel ch (List.mem_cons_of_mem _ hc)) place hm
  | .declaration _, _, hp, _, place, hm => by rw [List.mem_singleton.1 hm]; exact hp
  | .mixin _ _, _, hp, _, place, hm => by rw [List.mem_singleton.1 hm]; exact hp
  | .extend _ _, _, hp, _, place, hm => by rw [List.mem_singleton.1 hm]; exact hp
  | .assign _ _, _, hp, _, place, hm => by rw [List.mem_singleton.1 hm]; exact hp

/-- What nesting keeps holds of the selectors around all statements if it holds of those of the
    rules. -/
theorem forall_parents_placesAll
    (hnest : ∀ parent child, P parent → P child → P (nestSelector parent child)) :
    ∀ (ss : List Statement) {parents : List String}, (∀ s ∈ parents, P s) →
      (∀ selectors children, .rule selectors children ∈ walkAll ss → ∀ s ∈ selectors, P s) →
      ∀ place ∈ placesAll parents ss, ∀ s ∈ place.parents, P s
  | [], _, _, _, place, hm => by cases hm
  | t :: rest, parents, hp, hr, place, hm => by
    rw [placesAll] at hm
    rw [walkAll] at hr
    rcases List.mem_append.1 hm with hm | hm
    · exact t.forall_parents_places hnest hp
        (fun sel ch hc => hr sel ch (List.mem_append_left _ hc)) place hm
    · exact forall_parents_placesAll hnest rest hp
        (fun sel ch hc => hr sel ch (List.mem_append_right _ hc)) place hm

end

end

/-- The selectors of all rules among some statements are in normal form. -/
def NormalRules (ss : List Statement) : Prop :=
  ∀ selectors children, .rule selectors children ∈ ss → ∀ s ∈ selectors, isSelectorText s = true

/-! ## Consumers -/

/-- The placeholder that a directive extends. -/
def Directive.placeholder : Directive → String
  | .counted c => c.placeholder
  | .plain placeholder _ _ => placeholder

/-- The selectors that a directive makes consumers. -/
def Directive.selectors : Directive → List String
  | .counted c => c.selectors
  | .plain _ _ selectors => selectors

theorem Directive.placeholder_extension (d : Directive) :
    d.extension.placeholder = d.placeholder := by
  cases d <;> rfl

theorem Directive.selectors_extension_subset (d : Directive) :
    d.extension.selectors ⊆ d.selectors := by
  cases d with
  | counted c => exact List.filter_subset_self _
  | plain placeholder flag selectors => exact List.Subset.refl _

/-- Directives make their selectors consumers of their placeholders, and no others. -/
theorem of_mem_consumers_foldl {directives : List Directive} {inh : Inheritance} {s q : String}
    (hs : s ∈ (directives.foldl Inheritance.follow inh).consumers q) :
    s ∈ inh.consumers q ∨ ∃ d ∈ directives, q = d.placeholder ∧ s ∈ d.selectors := by
  rw [Inheritance.foldl_follow, Inheritance.mem_consumers_afterAll] at hs
  refine hs.imp_right ?_
  rintro ⟨-, e, he, -, hq, hm⟩
  obtain ⟨d, hd, rfl⟩ := List.mem_map.1 he
  exact ⟨d, hd, hq ▸ d.placeholder_extension, d.selectors_extension_subset hm⟩

theorem of_mem_consumers_follow {inh : Inheritance} {d : Directive} {s q : String}
    (hs : s ∈ (inh.follow d).consumers q) :
    s ∈ inh.consumers q ∨ (q = d.placeholder ∧ s ∈ d.selectors) := by
  have hone : s ∈ ([d].foldl Inheritance.follow inh).consumers q := hs
  simpa using of_mem_consumers_foldl hone

theorem selectors_of_directive? {place : Place} {d : Directive} (h : place.directive? = some d) :
    d.selectors = place.parents := by
  unfold Place.directive? at h
  split at h
  · split at h
    · cases h; rfl
    · cases h
  · cases h; rfl
  · cases h

/-! ## Counted selectors -/

/-- Whatever is counted, under any budget, has a property. -/
def Session.CountsOnly (s : Session) (P : String → Prop) : Prop :=
  ∀ budget placeholder, ∀ consumer ∈ s.ledger.usage.consumers budget placeholder, P consumer

namespace Session.CountsOnly

variable {P : String → Prop} {s : Session}

theorem start (settings : Settings) (inh : Option Inheritance) :
    (Session.start settings inh).CountsOnly P := by
  intro budget placeholder consumer hc
  rw [consumers_start] at hc
  cases hc

theorem call (h : s.CountsOnly P) {c : Call} (hc : ∀ selector ∈ c.selectors, P selector) :
    (s.call c).2.CountsOnly P := by
  intro budget placeholder consumer hm
  rcases s.consumers_call c budget placeholder with ⟨-, hl⟩ | hl
  · rw [hl, mem_distinct, List.mem_append] at hm
    rcases hm with hm | hm
    · exact h _ _ consumer hm
    · exact hc consumer (List.mem_filter.1 hm).1
  · rw [hl] at hm
    exact h budget placeholder consumer hm

theorem foldl {directives : List Directive} (h : s.CountsOnly P)
    (hd : ∀ d ∈ directives, ∀ selector ∈ d.selectors, P selector) :
    (directives.foldl Session.follow s).CountsOnly P := by
  induction directives generalizing s with
  | nil => exact h
  | cons d rest ih =>
    obtain ⟨hfirst, hrest⟩ := List.forall_mem_cons.1 hd
    refine ih ?_ hrest
    cases d with
    | counted c => exact h.call hfirst
    | plain placeholder flag selectors => exact h

end Session.CountsOnly

/-! ## Selectors of a sheet -/

namespace Sheet

variable {sheet : Sheet}

section

variable {P : String → Prop}

/-- The selectors of a directive stand around a statement. -/
theorem forall_selectors_directives
    (hparents : ∀ place ∈ sheet.places, ∀ s ∈ place.parents, P s) :
    ∀ d ∈ sheet.directives, ∀ s ∈ d.selectors, P s := by
  intro d hd
  obtain ⟨place, hm, hp⟩ := List.mem_filterMap.1 hd
  rw [selectors_of_directive? hp]
  exact hparents place hm

/-- So do the selectors that have extended a placeholder. -/
theorem forall_consumers (hparents : ∀ place ∈ sheet.places, ∀ s ∈ place.parents, P s) :
    ∀ placeholder, ∀ s ∈ sheet.inherited.consumers placeholder, P s := by
  intro placeholder s hs
  rcases of_mem_consumers_foldl hs with hs | ⟨d, hd, -, hs⟩
  · rw [Inheritance.consumers_declare] at hs
    cases hs
  · exact forall_selectors_directives hparents d hd s hs

/-- And so do those that are counted. -/
theorem countsOnly_counted (hparents : ∀ place ∈ sheet.places, ∀ s ∈ place.parents, P s)
    (settings : Settings) : (sheet.counted settings).CountsOnly P :=
  (Session.CountsOnly.start settings (some (.declare sheet.placeholders))).foldl
    (forall_selectors_directives hparents)

end

/-- The selectors around a statement have the normal form. -/
theorem isSelectorText_parents (h : NormalRules sheet.walk) :
    ∀ place ∈ sheet.places, ∀ s ∈ place.parents, isSelectorText s = true :=
  forall_parents_placesAll (P := fun s => isSelectorText s = true)
    (fun _ _ => isSelectorText_nestSelector) sheet.statements (List.forall_mem_nil _) h

/-- The selectors that have extended a placeholder have the normal form. -/
theorem isSelectorText_consumers (h : NormalRules sheet.walk) :
    ∀ placeholder, ∀ s ∈ sheet.inherited.consumers placeholder, isSelectorText s = true :=
  forall_consumers (isSelectorText_parents h)

end Sheet

end StyleBudget
