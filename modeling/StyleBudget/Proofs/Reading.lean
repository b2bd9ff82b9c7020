/-
  What the statements of a sheet that has been read look like.

  The invariant of reading is about rules and declarations: the selectors of every
  rule, whole, open or still without a brace, are those of a selector list that
  stands in the text, and every declaration is one that stands in the text.

  * `ReadState.Move` are the ways in which a terminal changes a state, and
    `ReadState.move_of_advance` says that there are no others;
  * `ReadState.Written` is the invariant, `ReadState.Written.move` its step and
    `written_of_readFrom` its run;
  * `spelled_of_read`, `isSelectorList_of_read` and `notMem_empty_of_read` say what
    follows for a sheet.
-/
import StyleBudget.Syntax.Reading

namespace StyleBudget

/-! ## Moves -/

def Phase.isRuleHead : Phase → Bool
  | .ruleHead _ => true
  | _ => false

def Statement.isRule : Statement → Bool
  | .rule _ _ => true
  | _ => false

namespace ReadState

variable {st st' : ReadState} {t : Terminal} {l : List Char}

/-- What a terminal can do to a state. -/
inductive Move (st : ReadState) (t : Terminal) (l : List Char) : ReadState → Prop
  /-- The statement at hand goes on. -/
  | within (phase : Phase) (overlong : Option Nat) (hp : phase.isRuleHead = false) :
    Move st t l { st with phase, overlong }
  /-- A rule has got its selectors. -/
  | head (ht : t = .selector) : Move st t l (st.enter (.ruleHead (selectorsOf l)))
  /-- A statement that is no rule is whole. -/
  | whole (phase : Phase) (s : Statement) (hp : phase.isRuleHead = false)
    (hs : s.isRule = false)
    (hd : ∀ d, s = .declaration d → t = .declaration ∧ d = declarationOf l) :
    Move st t l (st.finish phase s)
  /-- A rule is opened. -/
  | opened (selectors : List String) (hp : st.phase = .ruleHead selectors) :
    Move st t l (st.openRule selectors)
  /-- The innermost rule is whole. -/
  | closed (r : OpenRule) (rs : List OpenRule) (hr : st.rules = r :: rs) :
    Move st t l ({ st with rules := rs }.finish .between (.rule r.selectors r.children.reverse))

theorem move_of_scalar? {f : Scalar → Phase} (hf : ∀ value, (f value).isRuleHead = false)
    (h : ((st.scalar? t l).map fun (value, st) => st.enter (f value)) = some st') :
    Move st t l st' := by
  unfold scalar? at h
  split at h
  · cases h; exact .within _ _ (hf _)
  · cases h; exact .within _ _ (hf _)
  · cases h; exact .within _ _ (hf _)
  · cases h

theorem move_of_argument? {f : String → Phase} (hf : ∀ a, (f a).isRuleHead = false)
    (h : ((argument? t l).map fun a => st.enter (f a)) = some st') : Move st t l st' := by
  obtain ⟨a, -, rfl⟩ := Option.map_eq_some_iff.1 h
  exact .within _ _ (hf a)

theorem move_of_start? (h : st.start? t l = some st') : Move st t l st' := by
  cases t with
  | selector => cases h; exact .head rfl
  | includeWord | extendWord => cases h; exact .within _ _ rfl
  | dollarName =>
    rw [start?] at h
    split at h
    · cases h; exact .within _ _ rfl
    · cases h
  | declaration =>
    rw [start?] at h
    split at h
    · cases h
    · cases h; exact .whole _ _ rfl rfl (by rintro d ⟨⟩; exact ⟨rfl, rfl⟩)
  | closeBrace =>
    rw [start?, closeRule?] at h
    cases hr : st.rules with
    | nil => rw [hr] at h; cases h
    | cons r rs => rw [hr] at h; cases h; exact .closed r rs hr
  | _ => cases h

theorem move_of_advance (h : st.advance t l = some st') : Move st t l st' := by
  unfold advance at h
  split at h
  case h_4 hp => cases h; exact .opened _ hp
  case h_12 name entries key _ =>
    exact move_of_scalar?
      (f := fun value => .mapEntry name (insertPair (.text key) (.scalar value) entries))
      (fun _ => rfl) h
  -- the branches are of five kinds: most of them enter a phase
  all_goals first
    | exact move_of_start? h
    | exact move_of_scalar? (fun _ => rfl) h
    | exact move_of_argument? (fun _ => rfl) h
    | cases h; exact .within _ _ rfl
    | cases h; exact .whole _ _ rfl rfl nofun
    | cases h

end ReadState

/-! ## Statements one by one -/

theorem Statement.mem_walk_self (s : Statement) : s ∈ s.walk := by
  cases s <;> simp [Statement.walk]

theorem mem_walkAll {t : Statement} :
    ∀ {l : List Statement}, t ∈ walkAll l ↔ ∃ s ∈ l, t ∈ s.walk
  | [] => by simp [walkAll]
  | s :: rest => by
    rw [walkAll, List.mem_append, mem_walkAll (l := rest)]
    simp only [List.mem_cons, exists_eq_or_imp]

/-- The selectors of a selector list that stands in some text. -/
def IsSelectorList (selectors : List String) : Prop :=
  ∃ cs l, selectorLexeme? cs = some l ∧ selectors = selectorsOf l

/-- A declaration that stands in some text. -/
def IsDeclaration (d : Declaration) : Prop :=
  ∃ cs l, declarationLexeme? cs = some l ∧ d = declarationOf l

/-- The statement itself, without what stands in it, is spelled as lexemes are. -/
def Statement.Spelled : Statement → Prop
  | .rule selectors _ => IsSelectorList selectors
  | .declaration d => IsDeclaration d
  | _ => True

def Statement.Written (s : Statement) : Prop := ∀ t ∈ s.walk, t.Spelled

theorem Statement.written_of_isRule_eq_false {s : Statement} (hs : s.isRule = false)
    (h : s.Spelled) : s.Written := by
  intro t ht
  have hself : t = s := by
    cases s with
    | rule _ _ => cases hs
    | _ => simpa [Statement.walk] using ht
  rw [hself]
  exact h

theorem Statement.written_rule {selectors : List String} {children : List Statement}
    (hs : IsSelectorList selectors) (hc : ∀ s ∈ children, s.Written) :
    (Statement.rule selectors children).Written := by
  intro t ht
  rw [Statement.walk] at ht
  rcases List.mem_cons.1 ht with rfl | ht
  · exact hs
  · obtain ⟨s, hm, ht⟩ := mem_walkAll.1 ht
    exact hc s hm t ht

/-! ## The invariant -/

/-- All rules read so far have the selectors of a selector list, and all statements are
    spelled as lexemes are. -/
structure ReadState.Written (st : ReadState) : Prop where
  head : ∀ selectors, st.phase = .ruleHead selectors → IsSelectorList selectors
  rules : ∀ r ∈ st.rules, IsSelectorList r.selectors ∧ ∀ s ∈ r.children, s.Written
  statements : ∀ s ∈ st.statements, s.Written

namespace ReadState.Written

variable {st st' : ReadState} {t : Terminal} {l : List Char}

theorem start : ({} : ReadState).Written := by
  refine ⟨fun selectors h => ?_, fun r h => ?_, fun s h => ?_⟩
  · cases h
  · cases h
  · cases h

theorem head_of_isRuleHead_eq_false {phase : Phase} (hp : phase.isRuleHead = false)
    (selectors : List String) (h : phase = .ruleHead selectors) : IsSelectorList selectors := by
  rw [h] at hp; cases hp

theorem finish (h : st.Written) {phase : Phase} {s : Statement} (hp : phase.isRuleHead = false)
    (hs : s.Written) : (st.finish phase s).Written := by
  rw [ReadState.finish]
  split
  · refine ⟨head_of_isRuleHead_eq_false hp, h.rules, fun s' hm => ?_⟩
    rcases List.mem_cons.1 hm with rfl | hm
    · exact hs
    · exact h.statements s' hm
  · rename_i r rs hr
    refine ⟨head_of_isRuleHead_eq_false hp, fun r' hm => ?_, h.statements⟩
    have hrules := fun r' hm => h.rules r' (hr ▸ hm)
    rcases List.mem_cons.1 hm with rfl | hm
    · obtain ⟨hl, hc⟩ := hrules r (List.mem_cons_self ..)
      refine ⟨hl, fun s' hm => ?_⟩
      rcases List.mem_cons.1 hm with rfl | hm
      · exact hs
      · exact hc s' hm
    · exact hrules r' (List.mem_cons_of_mem r hm)

theorem move {cs : List Char} (h : st.Written) (hl : t.lexeme? cs = some l) (hm : Move st t l st') :
    st'.Written := by
  cases hm with
  | within phase overlong hp => exact ⟨head_of_isRuleHead_eq_false hp, h.rules, h.statements⟩
  | head ht =>
    subst ht
    exact ⟨fun selectors hs => ⟨cs, l, hl, (Phase.ruleHead.inj hs).symm⟩, h.rules, h.statements⟩
  | whole phase s hp hs hd =>
    refine h.finish hp (Statement.written_of_isRule_eq_false hs ?_)
    cases s with
    | declaration d =>
      obtain ⟨rfl, rfl⟩ := hd d rfl
      exact ⟨cs, l, hl, rfl⟩
    | rule _ _ => cases hs
    | _ => trivial
  | opened selectors hp =>
    refine ⟨head_of_isRuleHead_eq_false rfl, fun r hr => ?_, h.statements⟩
    rcases List.mem_cons.1 hr with rfl | hr
    · exact ⟨h.head selectors hp, fun s hs => by cases hs⟩
    · exact h.rules r hr
  | closed r rs hr =>
    obtain ⟨hl, hc⟩ := h.rules r (hr ▸ List.mem_cons_self ..)
    have hrest : { st with rules := rs }.Written :=
      ⟨h.head, fun r' hm => h.rules r' (hr ▸ List.mem_cons_of_mem r hm), h.statements⟩
    exact hrest.finish rfl
      (Statement.written_rule hl fun s hs => hc s (List.mem_reverse.1 hs))

end ReadState.Written

theorem written_of_readFrom {st st' : ReadState} {last : Option Token} {offset : Nat}
    {cs : List Char} (h : st.Written) (hr : readFrom st last offset cs = .ok st') :
    st'.Written := by
  fun_induction readFrom st last offset cs with
  | case1 st last offset cs he hc => cases hr; exact h
  | case2 => cases hr
  | case3 => cases hr
  | case4 st last offset cs he t l hl _ hs ih => exact ih h hr
  | case5 => cases hr
  | case6 st last offset cs he t l hl _ hs st'' ha ih =>
    exact ih (h.move (lexeme?_of_firstLexeme? hl) (ReadState.move_of_advance ha)) hr

/-! ## Sheets -/

/-- The statements of a sheet are spelled as the lexemes in its text. -/
theorem spelled_of_read {source : List Char} {sheet : Sheet}
    (h : Sheet.read source = .ok sheet) {t : Statement} (hm : t ∈ sheet.walk) : t.Spelled := by
  unfold Sheet.read at h
  split at h
  · cases h
  · rename_i st hr
    have hw := written_of_readFrom .start hr
    unfold ReadState.sheet at h
    split at h
    · cases h
    · cases h
      obtain ⟨s, hs, hm⟩ := mem_walkAll.1 hm
      exact hw.statements s (List.mem_reverse.1 hs) t hm

/-- The rules of a sheet have the selectors of selector lists in its text. -/
theorem isSelectorList_of_read {source : List Char} {sheet : Sheet}
    (h : Sheet.read source = .ok sheet) {selectors : List String} {children : List Statement}
    (hm : .rule selectors children ∈ sheet.walk) : IsSelectorList selectors :=
  spelled_of_read h hm

/-- No rule of a sheet has an empty selector. -/
theorem notMem_empty_of_read {source : List Char} {sheet : Sheet}
    (h : Sheet.read source = .ok sheet) {selectors : List String} {children : List Statement}
    (hm : .rule selectors children ∈ sheet.walk) : "" ∉ selectors := by
  obtain ⟨cs, l, -, rfl⟩ := isSelectorList_of_read h hm
  exact fun he => ne_empty_of_mem_selectorsOf he rfl

end StyleBudget
