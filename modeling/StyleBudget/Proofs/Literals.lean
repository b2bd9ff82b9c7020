/-
  Texts as strings of the language, and back.

  A string is read from the left, after its opening quote.  A backslash takes the meaning
  away from the character behind it, and with an `A` and a space it is a line feed.

  * `readLiteral` is the reader; `readLiteral_append` says that a string ends where it ends,
    whatever follows it;
  * `readLiteral_literalChar` reads one character of a text back, `readLiteral_literalBody`
    all of them;
  * `flatMap_literalChar`: the escapes are those of three replacements, one after the other;
  * `stringLiteral_lossless` is the result, for strings and for the overlay that holds one.
-/
import StyleBudget.Css

namespace StyleBudget

/-! ## Reading a string -/

/-- Why no string ends in a text. -/
inductive LiteralFault where
  | lineFeed
  | unended
  deriving DecidableEq, Repr

/-- A character in front of what has been read. -/
def prependChar (c : Char) (read : List Char × List Char) : List Char × List Char :=
  (c :: read.1, read.2)

/-- The text of the string whose opening quote stands before the given text, and what
    stands behind its closing quote. -/
def readLiteral : List Char → Except LiteralFault (List Char × List Char)
  | [] => .error .unended
  | '"' :: rest => .ok ([], rest)
  | '\n' :: _ => .error .lineFeed
  | '\\' :: 'A' :: ' ' :: rest => (readLiteral rest).map (prependChar '\n')
  | '\\' :: c :: rest => (readLiteral rest).map (prependChar c)
  | ['\\'] => .error .unended
  | c :: rest => (readLiteral rest).map (prependChar c)

section

variable {cs text rest : List Char} {c : Char}

/-- A character that is no quote, line feed or backslash stands for itself. -/
theorem readLiteral_cons (hq : c ≠ '"') (hl : c ≠ '\n') (hb : c ≠ '\\') (cs : List Char) :
    readLiteral (c :: cs) = (readLiteral cs).map (prependChar c) := by
  rw [readLiteral]
  · exact fun h => hq h
  · exact fun h => hl h
  · exact fun _ h => absurd h hb
  · exact fun _ _ h => absurd h hb
  · exact fun h => absurd h hb

/-- A character behind a backslash stands for itself, unless the two begin a line feed. -/
theorem readLiteral_backslash (h : c = 'A' → cs.head? ≠ some ' ') :
    readLiteral ('\\' :: c :: cs) = (readLiteral cs).map (prependChar c) := by
  rw [readLiteral]
  rintro rest rfl rfl
  exact h rfl rfl

theorem map_prependChar_eq_ok_iff {read : Except LiteralFault (List Char × List Char)} :
    read.map (prependChar c) = .ok (text, rest) ↔
      ∃ more, read = .ok (more, rest) ∧ text = c :: more := by
  cases read with
  | error f => simp [Except.map]
  | ok read =>
    obtain ⟨more, behind⟩ := read
    simp only [Except.map, prependChar, Except.ok.injEq, Prod.mk.injEq]
    constructor
    · rintro ⟨rfl, rfl⟩
      exact ⟨more, ⟨rfl, rfl⟩, rfl⟩
    · rintro ⟨_, ⟨rfl, rfl⟩, rfl⟩
      exact ⟨rfl, rfl⟩

/-- A string that has been read ends where it does, whatever follows. -/
theorem readLiteral_append (h : readLiteral cs = .ok (text, rest)) (more : List Char) :
    readLiteral (cs ++ more) = .ok (text, rest ++ more) := by
  fun_induction readLiteral cs generalizing text with
  | case1 => cases h
  | case2 cs =>
    cases h
    rfl
  | case3 => cases h
  | case4 cs ih =>
    obtain ⟨front, hfront, rfl⟩ := map_prependChar_eq_ok_iff.1 h
    simp only [List.cons_append, readLiteral]
    exact map_prependChar_eq_ok_iff.2 ⟨front, ih hfront, rfl⟩
  | case5 c cs hfeed ih =>
    obtain ⟨front, hfront, rfl⟩ := map_prependChar_eq_ok_iff.1 h
    have hfollows : c = 'A' → (cs ++ more).head? ≠ some ' ' := by
      rintro rfl hspace
      -- something follows the `A`, as the string does not end there
      cases cs with
      | nil => cases hfront
      | cons d ds =>
        cases hspace
        exact hfeed ds rfl rfl
    rw [List.cons_append, List.cons_append, readLiteral_backslash hfollows]
    exact map_prependChar_eq_ok_iff.2 ⟨front, ih hfront, rfl⟩
  | case6 => cases h
  | case7 c cs hq hl hfeed hescape hb ih =>
    obtain ⟨front, hfront, rfl⟩ := map_prependChar_eq_ok_iff.1 h
    have hbackslash : c ≠ '\\' := by
      rintro rfl
      cases cs with
      | nil => cases hfront
      | cons d ds => exact hescape d ds rfl rfl
    rw [List.cons_append, readLiteral_cons hq hl hbackslash]
    exact map_prependChar_eq_ok_iff.2 ⟨front, ih hfront, rfl⟩

end

/-! ## Reading a text back -/

/-- What stands behind the opening quote of the string for a text. -/
def literalBody (text : List Char) : List Char := text.flatMap literalChar ++ ['"']

theorem toList_stringLiteral (text : String) :
    (stringLiteral text).toList = '"' :: literalBody text.toList := by
  rw [stringLiteral, String.toList_ofList]
  rfl

/-- **One character** is read back, and nothing else with it. -/
theorem readLiteral_literalChar (c : Char) (cs : List Char) :
    readLiteral (literalChar c ++ cs) = (readLiteral cs).map (prependChar c) := by
  rw [literalChar]
  split
  · rename_i hb
    subst hb
    exact readLiteral_backslash fun h => by cases h
  · rename_i hb
    split
    · rename_i hq
      subst hq
      exact readLiteral_backslash fun h => by cases h
    · rename_i hq
      split
      · rename_i hl
        subst hl
        rfl
      · rename_i hl
        exact readLiteral_cons hq hl hb cs

/-- **A whole text** is read back, and the string ends behind it. -/
theorem readLiteral_literalBody (text rest : List Char) :
    readLiteral (literalBody text ++ rest) = .ok (text, rest) := by
  induction text with
  | nil => rfl
  | cons c text ih =>
    have hsplit : literalBody (c :: text) ++ rest = literalChar c ++ (literalBody text ++ rest) := by
      simp [literalBody]
    rw [hsplit, readLiteral_literalChar, ih]
    rfl

/-- No part of a string before its closing quote is a string. -/
theorem readLiteral_ne_ok_of_cut {text front back : List Char} (h : literalBody text = front ++ back)
    (hb : back ≠ []) (read : List Char × List Char) : readLiteral front ≠ .ok read := by
  intro hread
  have hwhole := readLiteral_literalBody text []
  rw [List.append_nil, h, readLiteral_append hread back] at hwhole
  have hrest : read.2 ++ back = [] := congrArg Prod.snd (Except.ok.inj hwhole)
  exact hb (List.append_eq_nil_iff.1 hrest).2

theorem lineFeed_notMem_literalBody (text : List Char) : '\n' ∉ literalBody text := by
  intro h
  rcases List.mem_append.1 h with h | h
  · obtain ⟨c, -, hc⟩ := List.mem_flatMap.1 h
    rw [literalChar] at hc
    split at hc
    · simp at hc
    · split at hc
      · simp at hc
      · split at hc
        · simp at hc
        · rename_i hl
          exact hl (List.mem_singleton.1 hc).symm
  · simp at h

/-- Texts with different strings differ, whatever stands behind the strings. -/
theorem literalBody_append_inj {text other rest behind : List Char}
    (h : literalBody text ++ rest = literalBody other ++ behind) : text = other ∧ rest = behind := by
  have hread := readLiteral_literalBody text rest
  rw [h, readLiteral_literalBody] at hread
  obtain ⟨htext, hrest⟩ := Prod.mk.inj (Except.ok.inj hread)
  exact ⟨htext.symm, hrest.symm⟩

theorem stringLiteral_inj {text other : String} :
    stringLiteral other = stringLiteral text ↔ other = text := by
  constructor
  · intro h
    have hbody := congrArg String.toList h
    rw [toList_stringLiteral, toList_stringLiteral, List.cons.injEq] at hbody
    exact String.toList_inj.1
      (literalBody_append_inj (congrArg (fun body => body ++ []) hbody.2)).1
  · intro h
    rw [h]

/-! ## Three replacements -/

/-- A text with another one in the place of every occurrence of a character. -/
def replaceChar (old : Char) (new cs : List Char) : List Char :=
  cs.flatMap fun c => if c = old then new else [c]

theorem replaceChar_append (old : Char) (new cs ds : List Char) :
    replaceChar old new (cs ++ ds) = replaceChar old new cs ++ replaceChar old new ds :=
  List.flatMap_append

/-- Escapes for the backslashes, then for the quotes, then for the line feeds.  The later
    ones put in backslashes that have no escape themselves, so the order matters. -/
def escapeInTurn (cs : List Char) : List Char :=
  replaceChar '\n' ['\\', 'A', ' '] (replaceChar '"' ['\\', '"'] (replaceChar '\\' ['\\', '\\'] cs))

theorem escapeInTurn_append (cs ds : List Char) :
    escapeInTurn (cs ++ ds) = escapeInTurn cs ++ escapeInTurn ds := by
  rw [escapeInTurn, replaceChar_append, replaceChar_append, replaceChar_append]
  rfl

theorem escapeInTurn_singleton (c : Char) : escapeInTurn [c] = literalChar c := by
  rw [literalChar]
  split
  · rename_i hb
    subst hb
    rfl
  · rename_i hb
    split
    · rename_i hq
      subst hq
      rfl
    · rename_i hq
      split
      · rename_i hl
        subst hl
        rfl
      · rename_i hl
        simp [escapeInTurn, replaceChar, hb, hq, hl]

/-- Escaping each character by itself is escaping one kind of them after the other. -/
theorem flatMap_literalChar (cs : List Char) : cs.flatMap literalChar = escapeInTurn cs := by
  induction cs with
  | nil => rfl
  | cons c cs ih =>
    rw [List.flatMap_cons, ih, ← escapeInTurn_singleton, ← escapeInTurn_append]
    rfl

/-! ## The overlay -/

/-- The rule of the overlay before its string. -/
def overlayFront : List Char := "body::before \x7b\n  content: ".toList

/-- The rule of the overlay behind its string. -/
def overlayBack : List Char :=
  (";\n" ++ String.join (overlayLook.map declarationText) ++ "\x7d\n").toList

theorem toList_overlayRule (report : String) :
    (overlayRule report).toList =
      overlayFront ++ '"' :: (literalBody report.toList ++ overlayBack) := by
  have htext : overlayRule report =
      "body::before \x7b\n  content: " ++ (stringLiteral report ++
        (";\n" ++ String.join (overlayLook.map declarationText) ++ "\x7d\n")) := by
    simp only [overlayRule, ruleText, List.map_cons, String.join_cons, declarationText,
      String.intercalate_singleton, String.append_assoc]
    rfl
  rw [htext, String.toList_append, String.toList_append, toList_stringLiteral]
  rfl

theorem overlayRule_inj {report other : String} :
    overlayRule other = overlayRule report ↔ other = report := by
  constructor
  · intro h
    have hrule := congrArg String.toList h
    rw [toList_overlayRule, toList_overlayRule, List.append_cancel_left_eq, List.cons.injEq] at hrule
    exact String.toList_inj.1 (literalBody_append_inj hrule.2).1
  · intro h
    rw [h]

/-- **Strings lose nothing.**  The string for a text is a quote and a body that holds no line
    feed, made by the three replacements.  The reader takes the body up to its end, whatever
    follows, and gives the text back; no shorter part of the body is a string, so nothing in a
    text ends its string.  Two texts with one string are one text.  The overlay holds the string
    for its report, so it is read from there, and no two reports have the same overlay. -/
theorem stringLiteral_lossless (text : String) :
    ∃ body, (stringLiteral text).toList = '"' :: body ∧
      body = escapeInTurn text.toList ++ ['"'] ∧ '\n' ∉ body ∧
      (∀ rest, readLiteral (body ++ rest) = .ok (text.toList, rest)) ∧
      (∀ front back, body = front ++ back → back ≠ [] → ∀ read, readLiteral front ≠ .ok read) ∧
      (∀ other, stringLiteral other = stringLiteral text ↔ other = text) ∧
      (overlayRule text).toList = overlayFront ++ '"' :: (body ++ overlayBack) ∧
      (∀ other, overlayRule other = overlayRule text ↔ other = text) := by
  refine ⟨literalBody text.toList, toList_stringLiteral text, ?_,
    lineFeed_notMem_literalBody text.toList, readLiteral_literalBody text.toList,
    fun front back h hb => readLiteral_ne_ok_of_cut h hb, fun other => stringLiteral_inj,
    toList_overlayRule text, fun other => overlayRule_inj⟩
  rw [literalBody, flatMap_literalChar]

/-- A backslash that stands before an `A` and a space itself, and a quote. -/
example : readLiteral "\\\\A \\\"\"; top".toList =
    .ok (['\\', 'A', ' ', '"'], "; top".toList) := by
  rfl

end StyleBudget
