/-
  Lexemes: the text at the front of the input that forms a terminal.

  * `Terminal.lexeme?` is the text of a terminal at the front of a text;
  * `firstLexeme?` is the first terminal, in the order in which they are
    tried, that is allowed and has a lexeme at the front;
  * `Terminal.isLexeme`: a lexeme is a non-empty initial piece of the text, so
    what follows it is shorter (`IsLexeme.sub_length_lt`).
-/
import StyleBudget.Syntax.Terminal
import StyleBudget.Text.Blank
import StyleBudget.Text.Digit
import StyleBudget.Text.WordChar

namespace StyleBudget

/-! ## Characters -/

/-- The characters that a name may go on with. -/
def isNameChar (c : Char) : Bool := isWordChar c || c == '-'

/-- The letters and the underscore: what a variable or a placeholder may start with. -/
def isNameStart (c : Char) : Bool := c.isAlpha || c == '_'

/-- The characters that end a selector list or a declaration. -/
def isBlockMark (c : Char) : Bool := c == ';' || c == '{' || c == '}'

def isSpace (c : Char) : Bool :=
  c == ' ' || c == '\t' || c == '\x0c' || c == '\r' || c == '\n'

/-! ## Lexemes with a pattern -/

/-- An optional hyphen at the front of a text, and what follows it. -/
def takeHyphen : List Char → List Char × List Char
  | '-' :: rest => (['-'], rest)
  | cs => ([], cs)

/-- A lexeme with an optional hyphen in front. -/
def hyphenated? (lexeme? : List Char → Option (List Char)) (cs : List Char) :
    Option (List Char) :=
  (lexeme? (takeHyphen cs).2).map ((takeHyphen cs).1 ++ ·)

/-- A name without a hyphen: a letter, underscore or percent sign, and name
    characters. -/
def plainNameLexeme? : List Char → Option (List Char)
  | c :: rest =>
    if isNameStart c || c == '%' then some (c :: rest.takeWhile isNameChar) else none
  | [] => none

def nameLexeme? : List Char → Option (List Char) := hyphenated? plainNameLexeme?

/-- A mark, a letter or underscore, and name characters. -/
def markedNameLexeme? (mark : Char) : List Char → Option (List Char)
  | m :: c :: rest =>
    if m == mark && isNameStart c then some (m :: c :: rest.takeWhile isNameChar) else none
  | _ => none

def flagLexeme? : List Char → Option (List Char)
  | '!' :: c :: rest =>
    if c.isAlpha then some ('!' :: c :: rest.takeWhile Char.isAlpha) else none
  | _ => none

def fractionLexeme : List Char → List Char
  | '.' :: c :: rest =>
    if isDecimalDigit c then '.' :: c :: rest.takeWhile isDecimalDigit else []
  | _ => []

def plainNumberLexeme? : List Char → Option (List Char)
  | c :: rest =>
    if isDecimalDigit c then
      some (c :: rest.takeWhile isDecimalDigit
        ++ fractionLexeme (rest.dropWhile isDecimalDigit))
    else none
  | [] => none

def numberLexeme? : List Char → Option (List Char) := hyphenated? plainNumberLexeme?

/-- A string: a quote, anything but that quote, and the quote again. -/
def stringLexeme? : List Char → Option (List Char)
  | q :: rest =>
    if q == '"' || q == '\'' then
      match rest.dropWhile (· != q) with
      | [] => none
      | _ :: _ => some (q :: rest.takeWhile (· != q) ++ [q])
    else none
  | [] => none

/-- A selector list: it starts with no white space, mark, at sign, dollar sign
    or slash, and runs up to an opening brace, which is not part of it. -/
def selectorLexeme? : List Char → Option (List Char)
  | c :: rest =>
    if isBlank c || isBlockMark c || c == '@' || c == '$' || c == '/' then none
    else match rest.dropWhile (fun d => !isBlockMark d) with
      | '{' :: _ => some (c :: rest.takeWhile fun d => !isBlockMark d)
      | _ => none
  | [] => none

/-- The value of a declaration with the semicolon that ends it, or up to the
    closing brace that follows it. -/
def valueLexeme? (cs : List Char) : Option (List Char) :=
  match cs.dropWhile (fun d => !isBlockMark d) with
  | ';' :: _ => some (cs.takeWhile (fun d => !isBlockMark d) ++ [';'])
  | '}' :: _ => some (cs.takeWhile fun d => !isBlockMark d)
  | _ => none

/-- A colon and a value, after any white space. -/
def colonValueLexeme? (cs : List Char) : Option (List Char) :=
  match cs.dropWhile isBlank with
  | ':' :: rest => (valueLexeme? rest).map fun value => cs.takeWhile isBlank ++ ':' :: value
  | _ => none

/-- A declaration: a name that starts with a letter or a hyphen, a colon and a
    value. -/
def declarationLexeme? : List Char → Option (List Char)
  | c :: rest =>
    if c.isAlpha || c == '-' then
      (colonValueLexeme? (rest.dropWhile isNameChar)).map fun value =>
        c :: (rest.takeWhile isNameChar ++ value)
    else none
  | [] => none

/-- The rest of a block comment, up to the mark that closes it. -/
def commentTail? : List Char → Option (List Char)
  | '*' :: '/' :: _ => some ['*', '/']
  | c :: rest => (commentTail? rest).map (c :: ·)
  | [] => none

def blockCommentLexeme? : List Char → Option (List Char)
  | '/' :: '*' :: rest => (commentTail? rest).map fun tail => '/' :: '*' :: tail
  | _ => none

def lineCommentLexeme? : List Char → Option (List Char)
  | '/' :: '/' :: rest => some ('/' :: '/' :: rest.takeWhile (· != '\n'))
  | _ => none

def spaceLexeme? : List Char → Option (List Char)
  | c :: rest => if isSpace c then some (c :: rest.takeWhile isSpace) else none
  | [] => none

def wordLexeme? (word cs : List Char) : Option (List Char) :=
  if word.isPrefixOf cs then some word else none

/-! ## The lexeme of a terminal -/

/-- The text that forms the terminal at the front of a text. -/
def Terminal.lexeme? : Terminal → List Char → Option (List Char)
  | .declaration => declarationLexeme?
  | .selector => selectorLexeme?
  | .name => nameLexeme?
  | .dollarName => markedNameLexeme? '$'
  | .blockComment => blockCommentLexeme?
  | .placeholder => markedNameLexeme? '%'
  | .number => numberLexeme?
  | .string => stringLexeme?
  | .space => spaceLexeme?
  | .flag => flagLexeme?
  | .lineComment => lineCommentLexeme?
  | .includeWord => wordLexeme? ['@', 'i', 'n', 'c', 'l', 'u', 'd', 'e']
  | .extendWord => wordLexeme? ['@', 'e', 'x', 't', 'e', 'n', 'd']
  | .colon => wordLexeme? [':']
  | .comma => wordLexeme? [',']
  | .openBrace => wordLexeme? ['{']
  | .openParen => wordLexeme? ['(']
  | .closeBrace => wordLexeme? ['}']
  | .closeParen => wordLexeme? [')']
  | .semicolon => wordLexeme? [';']

/-! ## What a lexeme is -/

/-- A non-empty initial piece of a text. -/
def IsLexeme (l cs : List Char) : Prop := l ≠ [] ∧ l <+: cs

theorem takeWhile_initial (p : Char → Bool) (cs : List Char) : cs.takeWhile p <+: cs :=
  List.takeWhile_prefix p

theorem IsLexeme.cons {l cs : List Char} (c : Char) (h : l <+: cs) :
    IsLexeme (c :: l) (c :: cs) :=
  ⟨by simp, List.cons_prefix_cons.2 ⟨rfl, h⟩⟩

theorem isLexeme_of_append {l cs : List Char} (hl : l ≠ []) (rest : List Char)
    (h : l ++ rest = cs) : IsLexeme l cs := ⟨hl, rest, h⟩

theorem commentTail?_prefix {cs l : List Char} (h : commentTail? cs = some l) : l <+: cs := by
  fun_induction commentTail? cs generalizing l with
  | case1 rest => cases h; exact ⟨rest, rfl⟩
  | case2 c rest _ ih =>
    obtain ⟨m, hm, rfl⟩ := Option.map_eq_some_iff.1 h
    exact List.cons_prefix_cons.2 ⟨rfl, ih hm⟩
  | case3 => cases h

theorem fractionLexeme_prefix (cs : List Char) : fractionLexeme cs <+: cs := by
  unfold fractionLexeme
  split
  · split
    · exact List.cons_prefix_cons.2 ⟨rfl, List.cons_prefix_cons.2 ⟨rfl, takeWhile_initial _ _⟩⟩
    · exact List.nil_prefix
  · exact List.nil_prefix

theorem takeHyphen_append (cs : List Char) : (takeHyphen cs).1 ++ (takeHyphen cs).2 = cs := by
  unfold takeHyphen
  split <;> rfl

theorem isLexeme_of_hyphenated? {f : List Char → Option (List Char)}
    (hf : ∀ cs l, f cs = some l → IsLexeme l cs) {cs l : List Char}
    (h : hyphenated? f cs = some l) : IsLexeme l cs := by
  obtain ⟨m, hm, rfl⟩ := Option.map_eq_some_iff.1 h
  obtain ⟨hne, rest, hrest⟩ := hf _ _ hm
  refine isLexeme_of_append (by simp [hne]) rest ?_
  rw [List.append_assoc, hrest, takeHyphen_append]

theorem isLexeme_of_plainNameLexeme? (cs l : List Char) (h : plainNameLexeme? cs = some l) :
    IsLexeme l cs := by
  unfold plainNameLexeme? at h
  split at h
  · split at h
    · cases h; exact .cons _ (takeWhile_initial _ _)
    · cases h
  · cases h

theorem isLexeme_of_plainNumberLexeme? (cs l : List Char) (h : plainNumberLexeme? cs = some l) :
    IsLexeme l cs := by
  unfold plainNumberLexeme? at h
  split at h
  · split at h
    · rename_i c rest _
      cases h
      refine .cons c ?_
      obtain ⟨tail, htail⟩ := fractionLexeme_prefix (rest.dropWhile isDecimalDigit)
      refine ⟨tail, ?_⟩
      simp only [List.append_eq]
      rw [List.append_assoc, htail, List.takeWhile_append_dropWhile]
    · cases h
  · cases h

theorem isLexeme_of_markedNameLexeme? {mark : Char} {cs l : List Char}
    (h : markedNameLexeme? mark cs = some l) : IsLexeme l cs := by
  unfold markedNameLexeme? at h
  split at h
  · split at h
    · cases h; exact .cons _ (List.cons_prefix_cons.2 ⟨rfl, takeWhile_initial _ _⟩)
    · cases h
  · cases h

theorem isLexeme_of_flagLexeme? {cs l : List Char} (h : flagLexeme? cs = some l) :
    IsLexeme l cs := by
  unfold flagLexeme? at h
  split at h
  · split at h
    · cases h; exact .cons _ (List.cons_prefix_cons.2 ⟨rfl, takeWhile_initial _ _⟩)
    · cases h
  · cases h

theorem isLexeme_of_stringLexeme? {cs l : List Char} (h : stringLexeme? cs = some l) :
    IsLexeme l cs := by
  unfold stringLexeme? at h
  split at h
  · rename_i q rest
    split at h
    · split at h
      · cases h
      · rename_i d tail hd
        cases h
        have hq : d = q := by
          have := List.head?_dropWhile_not (· != q) rest
          simpa [hd] using this
        subst hq
        refine .cons d ⟨tail, ?_⟩
        simp only [List.append_eq]
        rw [List.append_assoc, List.singleton_append, ← hd, List.takeWhile_append_dropWhile]
    · cases h
  · cases h

theorem isLexeme_of_selectorLexeme? {cs l : List Char} (h : selectorLexeme? cs = some l) :
    IsLexeme l cs := by
  unfold selectorLexeme? at h
  split at h
  · split at h
    · cases h
    · split at h
      · cases h; exact .cons _ (takeWhile_initial _ _)
      · cases h
  · cases h

theorem valueLexeme?_prefix {cs l : List Char} (h : valueLexeme? cs = some l) : l <+: cs := by
  unfold valueLexeme? at h
  split at h
  · rename_i tail htail
    cases h
    refine ⟨tail, ?_⟩
    rw [List.append_assoc, List.singleton_append, ← htail, List.takeWhile_append_dropWhile]
  · cases h; exact takeWhile_initial _ _
  · cases h

theorem colonValueLexeme?_prefix {cs l : List Char} (h : colonValueLexeme? cs = some l) :
    l <+: cs := by
  unfold colonValueLexeme? at h
  split at h
  · rename_i rest hrest
    obtain ⟨m, hm, rfl⟩ := Option.map_eq_some_iff.1 h
    obtain ⟨tail, htail⟩ := valueLexeme?_prefix hm
    refine ⟨tail, ?_⟩
    rw [List.append_assoc, List.cons_append, htail, ← hrest, List.takeWhile_append_dropWhile]
  · cases h

theorem isLexeme_of_declarationLexeme? {cs l : List Char} (h : declarationLexeme? cs = some l) :
    IsLexeme l cs := by
  unfold declarationLexeme? at h
  split at h
  · split at h
    · obtain ⟨m, hm, rfl⟩ := Option.map_eq_some_iff.1 h
      obtain ⟨tail, htail⟩ := colonValueLexeme?_prefix hm
      refine .cons _ ⟨tail, ?_⟩
      rw [List.append_assoc, htail, List.takeWhile_append_dropWhile]
    · cases h
  · cases h

theorem isLexeme_of_blockCommentLexeme? {cs l : List Char} (h : blockCommentLexeme? cs = some l) :
    IsLexeme l cs := by
  unfold blockCommentLexeme? at h
  split at h
  · obtain ⟨m, hm, rfl⟩ := Option.map_eq_some_iff.1 h
    exact .cons _ (List.cons_prefix_cons.2 ⟨rfl, commentTail?_prefix hm⟩)
  · cases h

theorem isLexeme_of_lineCommentLexeme? {cs l : List Char} (h : lineCommentLexeme? cs = some l) :
    IsLexeme l cs := by
  unfold lineCommentLexeme? at h
  split at h
  · cases h; exact .cons _ (List.cons_prefix_cons.2 ⟨rfl, takeWhile_initial _ _⟩)
  · cases h

theorem isLexeme_of_spaceLexeme? {cs l : List Char} (h : spaceLexeme? cs = some l) :
    IsLexeme l cs := by
  unfold spaceLexeme? at h
  split at h
  · split at h
    · cases h; exact .cons _ (takeWhile_initial _ _)
    · cases h
  · cases h

theorem isLexeme_of_wordLexeme? {word cs l : List Char} (hw : word ≠ [])
    (h : wordLexeme? word cs = some l) : IsLexeme l cs := by
  unfold wordLexeme? at h
  split at h
  · rename_i hp
    cases h
    exact ⟨hw, List.isPrefixOf_iff_prefix.1 hp⟩
  · cases h

/-- The lexeme of a terminal is a non-empty initial piece of the text. -/
theorem Terminal.isLexeme {t : Terminal} {cs l : List Char} (h : t.lexeme? cs = some l) :
    IsLexeme l cs := by
  cases t with
  | declaration => exact isLexeme_of_declarationLexeme? h
  | selector => exact isLexeme_of_selectorLexeme? h
  | name => exact isLexeme_of_hyphenated? isLexeme_of_plainNameLexeme? h
  | dollarName => exact isLexeme_of_markedNameLexeme? h
  | blockComment => exact isLexeme_of_blockCommentLexeme? h
  | placeholder => exact isLexeme_of_markedNameLexeme? h
  | number => exact isLexeme_of_hyphenated? isLexeme_of_plainNumberLexeme? h
  | string => exact isLexeme_of_stringLexeme? h
  | space => exact isLexeme_of_spaceLexeme? h
  | flag => exact isLexeme_of_flagLexeme? h
  | lineComment => exact isLexeme_of_lineCommentLexeme? h
  | includeWord | extendWord | colon | comma | openBrace | openParen | closeBrace | closeParen
  | semicolon => exact isLexeme_of_wordLexeme? (by simp) h

/-! ## The next lexeme -/

/-- The first terminal, in the order in which they are tried, that is allowed
    or skipped and has a lexeme at the front of the text. -/
def firstLexeme? (allowed : List Terminal) (cs : List Char) : Option (Terminal × List Char) :=
  Terminal.ranked.findSome? fun t =>
    if t ∈ allowed ∨ t.skipped then (t.lexeme? cs).map fun l => (t, l) else none

theorem lexeme?_of_firstLexeme? {allowed : List Terminal} {cs l : List Char} {t : Terminal}
    (h : firstLexeme? allowed cs = some (t, l)) : t.lexeme? cs = some l := by
  obtain ⟨u, _, hu⟩ := List.exists_of_findSome?_eq_some h
  split at hu
  · obtain ⟨m, hm, e⟩ := Option.map_eq_some_iff.1 hu
    cases e; exact hm
  · cases hu

theorem IsLexeme.sub_length_lt {l cs : List Char} (h : IsLexeme l cs) :
    cs.length - l.length < cs.length := by
  have h₁ := List.length_pos_iff.2 h.1
  have h₂ := h.2.length_le
  omega

end StyleBudget
