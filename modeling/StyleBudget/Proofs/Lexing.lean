/-
  Which terminal stands at a place of a text.

  The terminals are tried in an order of rank, but the order never decides: of those that
  are looked for in a phase, at most one has a lexeme at the front of a text.  Two
  terminals start with different characters, or they are twins, which are told apart by
  more of the text.

  * `Terminal.mayStart` are the characters that a lexeme may start with, and
    `Terminal.twin` is the one terminal that may start in the same way;
  * `firstMark?` tells a declaration from a selector list: a brace ends the one, a
    semicolon or a closing brace the other;
  * `Phase.eq_of_lexeme?` is the result, `Phase.firstLexeme?_eq_some_iff` what it says
    about the walk over a text, and `Phase.lexemeIn?_eq_firstLexeme?` that another order
    would not change it.
-/
import Mathlib
import StyleBudget.Syntax.ReadState

namespace StyleBudget

namespace Terminal

/-- The characters that a lexeme may start with, where they are few. -/
def marks : Terminal → List Char
  | dollarName => ['$']
  | blockComment | lineComment => ['/']
  | placeholder => ['%']
  | string => ['"', '\'']
  | space => [' ', '\t', '\x0c', '\r', '\n']
  | flag => ['!']
  | includeWord | extendWord => ['@']
  | colon => [':']
  | comma => [',']
  | openBrace => ['{']
  | openParen => ['(']
  | closeBrace => ['}']
  | closeParen => [')']
  | semicolon => [';']
  | declaration | selector | name | number => []

/-- A lexeme may start with the character. -/
def mayStart (t : Terminal) (c : Char) : Bool :=
  match t with
  | declaration => c.isAlpha || c == '-'
  | selector => !(isBlank c || isBlockMark c || c == '@' || c == '$' || c == '/')
  | name => isNameStart c || c == '%' || c == '-'
  | number => isDecimalDigit c || c == '-'
  | t => t.marks.contains c

theorem mayStart_of_hyphenated? {f : List Char → Option (List Char)} {p : Char → Bool}
    (hf : ∀ c cs l, f (c :: cs) = some l → p c = true) {c : Char} {cs l : List Char}
    (h : hyphenated? f (c :: cs) = some l) : p c = true ∨ c = '-' := by
  obtain ⟨m, hm, -⟩ := Option.map_eq_some_iff.1 h
  by_cases hc : c = '-'
  · exact .inr hc
  · refine .inl (hf c cs m ?_)
    rwa [takeHyphen] at hm
    rintro rest ⟨⟩
    exact hc rfl

theorem mayStart_of_wordLexeme? {d c : Char} {word cs l : List Char}
    (h : wordLexeme? (d :: word) (c :: cs) = some l) : c = d := by
  simp only [wordLexeme?, List.isPrefixOf_cons_cons, Bool.and_eq_true, beq_iff_eq] at h
  split at h
  · rename_i hp
    exact hp.1.symm
  · cases h

theorem start_of_plainNameLexeme? {c : Char} {cs l : List Char}
    (h : plainNameLexeme? (c :: cs) = some l) : (isNameStart c || c == '%') = true := by
  simp only [plainNameLexeme?] at h
  split at h
  · rename_i hc
    exact hc
  · cases h

theorem start_of_plainNumberLexeme? {c : Char} {cs l : List Char}
    (h : plainNumberLexeme? (c :: cs) = some l) : isDecimalDigit c = true := by
  simp only [plainNumberLexeme?] at h
  split at h
  · rename_i hc
    exact hc
  · cases h

theorem mayStart_of_lexeme? {t : Terminal} {c : Char} {cs l : List Char}
    (h : t.lexeme? (c :: cs) = some l) : t.mayStart c = true := by
  cases t with
  | declaration =>
    simp only [lexeme?, declarationLexeme?] at h
    split at h
    · rename_i hc; exact hc
    · cases h
  | selector =>
    simp only [lexeme?, selectorLexeme?] at h
    split at h
    · cases h
    · rename_i hc
      simpa [mayStart] using hc
  | name =>
    rcases mayStart_of_hyphenated? (fun _ _ _ => start_of_plainNameLexeme?) h with hc | hc
    · simp [mayStart, hc]
    · simp [mayStart, hc]
  | number =>
    rcases mayStart_of_hyphenated? (fun _ _ _ => start_of_plainNumberLexeme?) h with hc | hc
    · simp [mayStart, hc]
    · simp [mayStart, hc]
  | string =>
    simp only [lexeme?, stringLexeme?] at h
    split at h
    · rename_i hc
      simpa [mayStart, marks] using hc
    · cases h
  | space =>
    simp only [lexeme?, spaceLexeme?] at h
    split at h
    · rename_i hc
      simpa [mayStart, marks, isSpace, or_assoc] using hc
    · cases h
  | dollarName | placeholder =>
    simp only [lexeme?] at h
    cases cs with
    | nil => cases h
    | cons d cs =>
      simp only [markedNameLexeme?] at h
      split at h
      · rename_i hc
        simp only [Bool.and_eq_true, beq_iff_eq] at hc
        simp [mayStart, marks, hc.1]
      · cases h
  | flag =>
    simp only [lexeme?] at h
    unfold flagLexeme? at h
    split at h
    · rename_i heq; cases heq; rfl
    · cases h
  | blockComment =>
    simp only [lexeme?] at h
    unfold blockCommentLexeme? at h
    split at h
    · rename_i heq; cases heq; rfl
    · cases h
  | lineComment =>
    simp only [lexeme?] at h
    unfold lineCommentLexeme? at h
    split at h
    · rename_i heq; cases heq; rfl
    · cases h
  | includeWord | extendWord | colon | comma | openBrace | openParen | closeBrace | closeParen
  | semicolon =>
    have := mayStart_of_wordLexeme? h
    subst this
    rfl

/-- The terminal whose lexemes may start like those of this one, where both are looked for. -/
def twin : Terminal → Terminal
  | declaration => selector
  | selector => declaration
  | name => number
  | number => name
  | blockComment => lineComment
  | lineComment => blockComment
  | includeWord => extendWord
  | extendWord => includeWord
  | t => t

/-- No character that starts a lexeme of the one terminal starts one of the other. -/
def apart (t u : Terminal) : Bool := !t.marks.isEmpty && t.marks.all fun c => !u.mayStart c

theorem mem_marks_of_mayStart {t : Terminal} {c : Char} (hm : t.marks ≠ [])
    (h : t.mayStart c = true) : c ∈ t.marks := by
  cases t <;> simp_all [mayStart, marks]

theorem lexeme?_eq_none_of_apart {t u : Terminal} {cs l : List Char} (ha : apart t u = true)
    (h : t.lexeme? cs = some l) : u.lexeme? cs = none := by
  simp only [apart, Bool.and_eq_true, Bool.not_eq_true', List.isEmpty_eq_false_iff,
    List.all_eq_true] at ha
  cases hu : u.lexeme? cs with
  | none => rfl
  | some m =>
    cases cs with
    | nil =>
      obtain ⟨hne, hp⟩ := isLexeme h
      exact absurd (List.prefix_nil.1 hp) hne
    | cons c cs =>
      have hc := ha.2 c (mem_marks_of_mayStart ha.1 (mayStart_of_lexeme? h))
      rw [mayStart_of_lexeme? hu] at hc
      cases hc

end Terminal

/-- The terminals that are looked for in a phase, white space and comments among them. -/
def Phase.looked (p : Phase) : List Terminal := p.allowed ++ [.space, .blockComment, .lineComment]

/-- Any two of the terminals are equal, twins, or start apart. -/
def sorted (ts : List Terminal) : Bool :=
  ts.all fun t => ts.all fun u => t == u || u == t.twin || t.apart u || u.apart t

theorem Phase.sorted_looked (p : Phase) : sorted p.looked = true := by
  cases p <;> rfl

/-! ## Twins -/

theorem isBlockMark_cases {c : Char} (h : isBlockMark c = true) : c = ';' ∨ c = '{' ∨ c = '}' := by
  simpa [isBlockMark, or_assoc] using h

theorem isBlockMark_of_isNameChar {c : Char} (h : isNameChar c = true) : isBlockMark c = false := by
  cases hm : isBlockMark c with
  | false => rfl
  | true =>
    rcases isBlockMark_cases hm with rfl | rfl | rfl
    · cases h
    · cases h
    · cases h

theorem isBlockMark_of_isBlank {c : Char} (h : isBlank c = true) : isBlockMark c = false := by
  cases hm : isBlockMark c with
  | false => rfl
  | true =>
    rcases isBlockMark_cases hm with rfl | rfl | rfl
    · cases h
    · cases h
    · cases h

/-- The first semicolon or brace of a text. -/
def firstMark? (cs : List Char) : Option Char := (cs.dropWhile fun c => !isBlockMark c).head?

theorem firstMark?_append {cs ds : List Char} (h : ∀ c ∈ cs, isBlockMark c = false) :
    firstMark? (cs ++ ds) = firstMark? ds := by
  rw [firstMark?, List.dropWhile_append_of_pos (by simpa using h)]
  rfl

theorem firstMark?_cons {c : Char} {cs : List Char} (h : isBlockMark c = false) :
    firstMark? (c :: cs) = firstMark? cs := by
  change firstMark? ([c] ++ cs) = firstMark? cs
  exact firstMark?_append (by simpa using h)

theorem firstMark?_of_selectorLexeme? {cs l : List Char} (h : selectorLexeme? cs = some l) :
    firstMark? cs = some '{' := by
  unfold selectorLexeme? at h
  split at h
  · split at h
    · cases h
    · rename_i c rest hc
      simp only [Bool.or_eq_true, not_or, Bool.not_eq_true] at hc
      split at h
      · rename_i hrest
        rw [firstMark?_cons hc.1.1.1.2, firstMark?, hrest]; rfl
      · cases h
  · cases h

theorem firstMark?_of_valueLexeme? {cs l : List Char} (h : valueLexeme? cs = some l) :
    firstMark? cs = some ';' ∨ firstMark? cs = some '}' := by
  unfold valueLexeme? at h
  rw [firstMark?]
  split at h
  · rename_i hrest; exact .inl (by rw [hrest]; rfl)
  · rename_i hrest; exact .inr (by rw [hrest]; rfl)
  · cases h

/-- Characters that are no marks may be left out in front. -/
theorem firstMark?_dropWhile {p : Char → Bool} (hp : ∀ c, p c = true → isBlockMark c = false)
    (cs : List Char) : firstMark? (cs.dropWhile p) = firstMark? cs := by
  conv => rhs; rw [← List.takeWhile_append_dropWhile (p := p) (l := cs)]
  exact (firstMark?_append fun c hc => hp c (List.mem_takeWhile_imp hc)).symm

theorem firstMark?_of_colonValueLexeme? {cs l : List Char} (h : colonValueLexeme? cs = some l) :
    firstMark? cs = some ';' ∨ firstMark? cs = some '}' := by
  unfold colonValueLexeme? at h
  split at h
  · rename_i rest hrest
    obtain ⟨m, hm, -⟩ := Option.map_eq_some_iff.1 h
    rw [← firstMark?_dropWhile (fun c => isBlockMark_of_isBlank) cs, hrest, firstMark?_cons rfl]
    exact firstMark?_of_valueLexeme? hm
  · cases h

theorem firstMark?_of_declarationLexeme? {cs l : List Char} (h : declarationLexeme? cs = some l) :
    firstMark? cs = some ';' ∨ firstMark? cs = some '}' := by
  unfold declarationLexeme? at h
  split at h
  · rename_i c rest
    split at h
    · rename_i hc
      have hmark : isBlockMark c = false := by
        cases hb : isBlockMark c with
        | false => rfl
        | true => rcases isBlockMark_cases hb with rfl | rfl | rfl <;> cases hc
      obtain ⟨m, hm, -⟩ := Option.map_eq_some_iff.1 h
      rw [firstMark?_cons hmark, ← firstMark?_dropWhile (fun c => isBlockMark_of_isNameChar) rest]
      exact firstMark?_of_colonValueLexeme? hm
    · cases h
  · cases h

theorem isDecimalDigit_of_isNameStart {c : Char} (h : isNameStart c = true) :
    isDecimalDigit c = false := by
  simp only [isNameStart, Char.isAlpha, Char.isUpper, Char.isLower, Bool.or_eq_true,
    Bool.and_eq_true, decide_eq_true_eq, UInt32.le_iff_toNat_le, beq_iff_eq] at h
  have hn : (65 ≤ c.toNat ∧ c.toNat ≤ 90) ∨ (97 ≤ c.toNat ∧ c.toNat ≤ 122) ∨ c.toNat = 95 := by
    rcases h with (h | h) | rfl
    · exact .inl h
    · exact .inr (.inl h)
    · exact .inr (.inr rfl)
  have hd : c.isDigit = false := by
    cases hd : c.isDigit with
    | false => rfl
    | true =>
      simp only [Char.isDigit, Bool.and_eq_true, decide_eq_true_eq, UInt32.le_iff_toNat_le] at hd
      change 48 ≤ c.toNat ∧ c.toNat ≤ 57 at hd
      omega
  rw [isDecimalDigit, digitValue?, if_pos (by omega), hd]
  rfl

theorem not_selector_of_declaration {cs l m : List Char} (h : declarationLexeme? cs = some l)
    (h' : selectorLexeme? cs = some m) : False := by
  have hs := firstMark?_of_selectorLexeme? h'
  rcases firstMark?_of_declarationLexeme? h with hd | hd
  · rw [hs] at hd; cases hd
  · rw [hs] at hd; cases hd

theorem not_number_of_name {cs l m : List Char} (h : nameLexeme? cs = some l)
    (h' : numberLexeme? cs = some m) : False := by
  obtain ⟨l', hl, -⟩ := Option.map_eq_some_iff.1 h
  obtain ⟨m', hm, -⟩ := Option.map_eq_some_iff.1 h'
  generalize (takeHyphen cs).2 = body at hl hm
  cases body with
  | nil => cases hl
  | cons c rest =>
    have hdigit := Terminal.start_of_plainNumberLexeme? hm
    have hname := Terminal.start_of_plainNameLexeme? hl
    simp only [Bool.or_eq_true, beq_iff_eq] at hname
    rcases hname with hname | rfl
    · rw [isDecimalDigit_of_isNameStart hname] at hdigit
      cases hdigit
    · revert hdigit; decide

theorem not_lineComment_of_blockComment {cs l m : List Char} (h : blockCommentLexeme? cs = some l)
    (h' : lineCommentLexeme? cs = some m) : False := by
  unfold blockCommentLexeme? at h
  split at h
  · cases h'
  · cases h

theorem not_extendWord_of_includeWord {cs l m : List Char}
    (h : Terminal.includeWord.lexeme? cs = some l) (h' : Terminal.extendWord.lexeme? cs = some m) :
    False := by
  simp only [Terminal.lexeme?, wordLexeme?] at h h'
  split at h
  · rename_i hi
    split at h'
    · rename_i he
      obtain ⟨_, rfl⟩ := List.isPrefixOf_iff_prefix.1 hi
      cases he
    · cases h'
  · cases h

theorem Terminal.eq_twin_of_lexeme? {t : Terminal} {cs l m : List Char} (h : t.lexeme? cs = some l)
    (h' : t.twin.lexeme? cs = some m) : t.twin = t := by
  cases t with
  | declaration => exact (not_selector_of_declaration h h').elim
  | selector => exact (not_selector_of_declaration h' h).elim
  | name => exact (not_number_of_name h h').elim
  | number => exact (not_number_of_name h' h).elim
  | blockComment => exact (not_lineComment_of_blockComment h h').elim
  | lineComment => exact (not_lineComment_of_blockComment h' h).elim
  | includeWord => exact (not_extendWord_of_includeWord h h').elim
  | extendWord => exact (not_extendWord_of_includeWord h' h).elim
  | _ => rfl

/-! ## One terminal at a place -/

/-- The first terminal, in a given order, that is allowed or skipped and has a lexeme at the
    front of the text. -/
def lexemeIn? (order allowed : List Terminal) (cs : List Char) :
    Option (Terminal × List Char) :=
  order.findSome? fun t =>
    if t ∈ allowed ∨ t.skipped then (t.lexeme? cs).map fun l => (t, l) else none

namespace Phase

variable {p : Phase} {t u : Terminal} {cs l m : List Char}

theorem mem_looked : t ∈ p.looked ↔ t ∈ p.allowed ∨ t.skipped = true := by
  rw [looked, List.mem_append]
  refine or_congr_right ?_
  cases t <;> decide

/-- **No two terminals compete.**  Of the terminals that are looked for in a phase, at
    most one has a lexeme at the front of a text. -/
theorem eq_of_lexeme? (ht : t ∈ p.looked) (hu : u ∈ p.looked) (h : t.lexeme? cs = some l)
    (h' : u.lexeme? cs = some m) : t = u := by
  have hs := p.sorted_looked
  simp only [sorted, List.all_eq_true, Bool.or_eq_true, beq_iff_eq] at hs
  rcases hs t ht u hu with ((rfl | rfl) | ha) | ha
  · rfl
  · exact (Terminal.eq_twin_of_lexeme? h h').symm
  · rw [Terminal.lexeme?_eq_none_of_apart ha h] at h'
    cases h'
  · rw [Terminal.lexeme?_eq_none_of_apart ha h'] at h
    cases h

/-- Whatever the order in which the terminals are tried, it finds the one that has a lexeme. -/
theorem lexemeIn?_eq_some_iff {order : List Terminal} (ho : ∀ t, t ∈ order) :
    lexemeIn? order p.allowed cs = some (t, l) ↔ t ∈ p.looked ∧ t.lexeme? cs = some l := by
  have hsome : ∀ {u m}, lexemeIn? order p.allowed cs = some (u, m) →
      u ∈ p.looked ∧ u.lexeme? cs = some m := by
    intro u m h
    obtain ⟨v, _, hv⟩ := List.exists_of_findSome?_eq_some h
    split at hv
    · rename_i ha
      obtain ⟨_, hm, e⟩ := Option.map_eq_some_iff.1 hv
      cases e
      exact ⟨mem_looked.2 ha, hm⟩
    · cases hv
  constructor
  · exact hsome
  · rintro ⟨ht, hl⟩
    cases hf : lexemeIn? order p.allowed cs with
    | none =>
      have hn := List.findSome?_eq_none_iff.1 hf t (ho t)
      rw [if_pos (mem_looked.1 ht), hl] at hn
      cases hn
    | some found =>
      obtain ⟨u, m⟩ := found
      obtain ⟨hu, hm⟩ := hsome hf
      obtain rfl := eq_of_lexeme? ht hu hl hm
      rw [Option.some.inj (hl.symm.trans hm)]

theorem firstLexeme?_eq_some_iff :
    firstLexeme? p.allowed cs = some (t, l) ↔ t ∈ p.looked ∧ t.lexeme? cs = some l :=
  lexemeIn?_eq_some_iff Terminal.mem_ranked

/-- The order in which the terminals are tried makes no difference. -/
theorem lexemeIn?_eq_firstLexeme? {order : List Terminal} (ho : ∀ t, t ∈ order) (p : Phase)
    (cs : List Char) : lexemeIn? order p.allowed cs = firstLexeme? p.allowed cs :=
  Option.ext fun _ => (lexemeIn?_eq_some_iff ho).trans firstLexeme?_eq_some_iff.symm

end Phase

end StyleBudget
