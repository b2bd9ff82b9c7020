/-
  The patterns of selector lists and declarations, with all their matches.

  A scan takes what it can of a text and never goes back.  A pattern may match in many ways, and
  an engine that backtracks tries them one after the other.  Of the patterns of a selector list
  and of a declaration there is never more than one match at a place, which is what the scan
  takes; and a place has no match of both, so that it does not matter which is tried first.

  * `Pattern.Matches` says what a match is, `Pattern.results` tries them in order, and
    `Pattern.mem_results_iff` says that it misses none;
  * `Pattern.results_seq_many`: a repetition never goes back if what follows it cannot start
    with the characters that are repeated;
  * `results_selectorPattern` and `results_declarationPattern`: the scans are these patterns;
  * `Phase.lexemeIn?_eq_firstLexeme?`: the order in which terminals are tried never matters;
  * `selector_declaration_exclusive` is the result.
-/
import StyleBudget.Proofs.Gaps
import StyleBudget.Proofs.Spacing

namespace StyleBudget

/-! ## Patterns -/

/-- What may stand at a place of a text. -/
inductive Pattern where
  /-- One character of a kind. -/
  | char (kind : Char → Bool)
  /-- Characters of a kind, as many as there are, or else fewer. -/
  | many (kind : Char → Bool)
  | seq (p q : Pattern)
  /-- The first pattern, or else the second. -/
  | alt (p q : Pattern)
  /-- The pattern matches what follows, of which nothing is taken. -/
  | ahead (p : Pattern)

/-- The initial pieces of a text that consist of characters of a kind, from the longest down. -/
def runs (kind : Char → Bool) : List Char → List (List Char)
  | [] => [[]]
  | c :: cs => if kind c then (runs kind cs).map (c :: ·) ++ [[]] else [[]]

namespace Pattern

/-- The pattern may take a piece of a text in front of the rest. -/
inductive Matches : Pattern → List Char → List Char → Prop
  | char {kind : Char → Bool} {c : Char} {rest : List Char} (h : kind c = true) :
    Matches (char kind) [c] rest
  | many {kind : Char → Bool} {l rest : List Char} (h : ∀ c ∈ l, kind c = true) :
    Matches (many kind) l rest
  | seq {p q : Pattern} {l m rest : List Char} (hp : Matches p l (m ++ rest))
    (hq : Matches q m rest) : Matches (seq p q) (l ++ m) rest
  | altLeft {p q : Pattern} {l rest : List Char} (h : Matches p l rest) : Matches (alt p q) l rest
  | altRight {p q : Pattern} {l rest : List Char} (h : Matches q l rest) : Matches (alt p q) l rest
  | ahead {p : Pattern} {l rest : List Char} (h : Matches p l rest) :
    Matches (ahead p) [] (l ++ rest)

/-- What the pattern takes at the front of a text: all that it may take, in the order in which
    backtracking comes to it. -/
def results : Pattern → List Char → List (List Char)
  | char kind, c :: _ => if kind c then [[c]] else []
  | char _, [] => []
  | many kind, cs => runs kind cs
  | seq p q, cs => (p.results cs).flatMap fun l => (q.results (cs.drop l.length)).map (l ++ ·)
  | alt p q, cs => p.results cs ++ q.results cs
  | ahead p, cs => if (p.results cs).isEmpty then [] else [[]]

/-- The pattern matches at the front of a text in some way. -/
def MatchesAt (p : Pattern) (cs : List Char) : Prop := ∃ l rest, cs = l ++ rest ∧ p.Matches l rest

variable {p q : Pattern} {kind : Char → Bool} {c : Char} {cs l : List Char}

/-! ### The results of each pattern -/

@[simp] theorem runs_nil : runs kind [] = [[]] := rfl

theorem runs_cons :
    runs kind (c :: cs) = if kind c then (runs kind cs).map (c :: ·) ++ [[]] else [[]] := rfl

@[simp] theorem results_char_nil : (char kind).results [] = [] := rfl

@[simp] theorem results_char_cons :
    (char kind).results (c :: cs) = if kind c then [[c]] else [] := rfl

theorem results_many : (many kind).results cs = runs kind cs := rfl

theorem results_seq : (seq p q).results cs =
    (p.results cs).flatMap fun l => (q.results (cs.drop l.length)).map (l ++ ·) := rfl

@[simp] theorem results_alt : (alt p q).results cs = p.results cs ++ q.results cs := rfl

@[simp] theorem results_ahead :
    (ahead p).results cs = if (p.results cs).isEmpty then [] else [[]] := rfl

/-! ### Matches -/

theorem mem_runs_iff : l ∈ runs kind cs ↔ l <+: cs ∧ ∀ c ∈ l, kind c = true := by
  induction cs generalizing l with
  | nil => simp +contextual
  | cons c cs ih =>
    rw [runs_cons]
    cases l with
    | nil => split <;> simp
    | cons d l =>
      rw [List.cons_prefix_cons, List.forall_mem_cons]
      split
      · rename_i hc
        simp only [List.mem_append, List.mem_map, List.mem_singleton, ih]
        grind
      · rename_i hc
        simp only [List.mem_singleton]
        grind

/-- **The results are the matches.** -/
theorem mem_results_iff : l ∈ p.results cs ↔ ∃ rest, cs = l ++ rest ∧ p.Matches l rest := by
  induction p generalizing cs l with
  | char kind =>
    constructor
    · intro h
      cases cs with
      | nil => cases h
      | cons c cs =>
        rw [results_char_cons] at h
        split at h
        · rename_i hc
          obtain rfl := List.mem_singleton.1 h
          exact ⟨cs, rfl, .char hc⟩
        · cases h
    · rintro ⟨rest, rfl, h⟩
      cases h with
      | char hc => simp [hc]
  | many kind =>
    rw [results_many, mem_runs_iff]
    constructor
    · rintro ⟨⟨rest, rfl⟩, hl⟩
      exact ⟨rest, rfl, .many hl⟩
    · rintro ⟨rest, rfl, h⟩
      cases h with
      | many hl => exact ⟨List.prefix_append _ _, hl⟩
  | seq p q ihp ihq =>
    rw [results_seq, List.mem_flatMap]
    constructor
    · rintro ⟨l, hl, h⟩
      obtain ⟨m, hm, rfl⟩ := List.mem_map.1 h
      obtain ⟨tail, rfl, hp⟩ := ihp.1 hl
      rw [List.drop_left] at hm
      obtain ⟨rest, rfl, hq⟩ := ihq.1 hm
      exact ⟨rest, by rw [List.append_assoc], .seq hp hq⟩
    · rintro ⟨rest, rfl, h⟩
      cases h with
      | @seq _ _ l m _ hp hq =>
        refine ⟨l, ihp.2 ⟨m ++ rest, by rw [List.append_assoc], hp⟩, ?_⟩
        rw [List.append_assoc, List.drop_left]
        exact List.mem_map_of_mem (ihq.2 ⟨rest, rfl, hq⟩)
  | alt p q ihp ihq =>
    rw [results_alt, List.mem_append, ihp, ihq]
    constructor
    · rintro (⟨rest, hcs, h⟩ | ⟨rest, hcs, h⟩)
      · exact ⟨rest, hcs, .altLeft h⟩
      · exact ⟨rest, hcs, .altRight h⟩
    · rintro ⟨rest, hcs, h⟩
      cases h with
      | altLeft h => exact .inl ⟨rest, hcs, h⟩
      | altRight h => exact .inr ⟨rest, hcs, h⟩
  | ahead p ih =>
    rw [results_ahead]
    constructor
    · intro h
      split at h
      · cases h
      · rename_i hne
        obtain rfl := List.mem_singleton.1 h
        obtain ⟨m, hm⟩ := List.exists_mem_of_ne_nil _ (mt List.isEmpty_iff.2 hne)
        obtain ⟨rest, rfl, hp⟩ := ih.1 hm
        exact ⟨m ++ rest, rfl, .ahead hp⟩
    · rintro ⟨rest, hcs, h⟩
      cases h with
      | @ahead _ m rest h =>
        have hm : m ∈ p.results cs := ih.2 ⟨rest, hcs, h⟩
        rw [if_neg (by simpa using List.ne_nil_of_mem hm)]
        exact List.mem_singleton_self _

theorem matchesAt_iff : p.MatchesAt cs ↔ p.results cs ≠ [] := by
  constructor
  · rintro ⟨l, rest, hcs, h⟩
    exact List.ne_nil_of_mem (mem_results_iff.2 ⟨rest, hcs, h⟩)
  · intro h
    obtain ⟨l, hl⟩ := List.exists_mem_of_ne_nil _ h
    obtain ⟨rest, hcs, hm⟩ := mem_results_iff.1 hl
    exact ⟨l, rest, hcs, hm⟩

/-- Where a scan takes all that a pattern may take, the pattern matches if the scan finds
    anything. -/
theorem matchesAt_iff_of_results {found : Option (List Char)}
    (h : p.results cs = found.toList) : p.MatchesAt cs ↔ ∃ l, found = some l := by
  rw [matchesAt_iff, h]
  cases found <;> simp

/-! ## Patterns that never go back -/

/-- The pattern matches no text that starts with a character of a kind. -/
def Refuses (p : Pattern) (kind : Char → Bool) : Prop :=
  ∀ c cs, kind c = true → p.results (c :: cs) = []

theorem refuses_char {other : Char → Bool} (h : ∀ c, kind c = true → other c = false) :
    (char other).Refuses kind := by
  intro c cs hc
  rw [results_char_cons, h c hc]
  rfl

theorem refuses_char_beq {mark : Char} (h : kind mark = false) :
    (char (· == mark)).Refuses kind := by
  refine refuses_char fun c hc => ?_
  rw [beq_eq_false_iff_ne]
  rintro rfl
  rw [h] at hc
  cases hc

theorem Refuses.seq (h : p.Refuses kind) (q : Pattern) : (seq p q).Refuses kind := by
  intro c cs hc
  rw [results_seq, h c cs hc]
  rfl

theorem Refuses.alt (hp : p.Refuses kind) (hq : q.Refuses kind) : (alt p q).Refuses kind := by
  intro c cs hc
  rw [results_alt, hp c cs hc, hq c cs hc]
  rfl

theorem Refuses.ahead (h : p.Refuses kind) : (ahead p).Refuses kind := by
  intro c cs hc
  rw [results_ahead, h c cs hc]
  rfl

@[simp] theorem results_seq_char_nil : (seq (char kind) q).results [] = [] := rfl

theorem results_seq_char_cons : (seq (char kind) q).results (c :: cs) =
    if kind c then (q.results cs).map (c :: ·) else [] := by
  rw [results_seq, results_char_cons]
  split
  · simp
  · rfl

/-- **A repetition takes all it can**, if what follows it cannot start with what it takes: going
    back leads nowhere. -/
theorem results_seq_many (h : q.Refuses kind) (cs : List Char) :
    (seq (many kind) q).results cs =
      (q.results (cs.dropWhile kind)).map (cs.takeWhile kind ++ ·) := by
  rw [results_seq, results_many]
  induction cs with
  | nil => simp
  | cons c cs ih =>
    rw [runs_cons]
    split
    · rename_i hc
      rw [List.dropWhile_cons_of_pos hc, List.takeWhile_cons_of_pos hc, List.flatMap_append,
        List.flatMap_map, List.flatMap_singleton]
      simp only [List.length_cons, List.drop_succ_cons, List.length_nil, List.drop_zero, h c cs hc,
        List.map_nil, List.append_nil, List.cons_append]
      rw [← Function.comp_def (c :: ·), ← List.map_map, ← ih, List.map_flatMap]
      simp only [List.map_map, Function.comp_def]
    · rename_i hc
      rw [List.dropWhile_cons_of_neg hc, List.takeWhile_cons_of_neg hc]
      simp

theorem refuses_seq_many {other : Char → Bool} (h : ∀ c, kind c = true → other c = false)
    (hq : q.Refuses kind) (hq' : q.Refuses other) : (seq (many other) q).Refuses kind := by
  intro c cs hc
  have hother : ¬ other c = true := by rw [h c hc]; exact Bool.false_ne_true
  rw [results_seq_many hq', List.dropWhile_cons_of_neg hother, hq c cs hc]
  rfl

end Pattern

/-! ## Selector lists and declarations -/

section

open Pattern

variable {cs : List Char}

/-- A selector list: a first character, and all up to the opening brace that follows. -/
def selectorPattern : Pattern :=
  .seq (.char fun c => !(isBlank c || isBlockMark c || c == '@' || c == '$' || c == '/')) <|
    .seq (.many fun c => !isBlockMark c) (.ahead (.char (· == '{')))

/-- The value of a declaration: all up to a semicolon, which belongs to it, or up to the closing
    brace that follows. -/
def valuePattern : Pattern :=
  .seq (.many fun c => !isBlockMark c) (.alt (.char (· == ';')) (.ahead (.char (· == '}'))))

/-- What follows the name of a declaration. -/
def colonValuePattern : Pattern :=
  .seq (.many isBlank) <| .seq (.char (· == ':')) valuePattern

/-- A declaration: a name, a colon, perhaps after white space, and a value. -/
def declarationPattern : Pattern :=
  .seq (.char fun c => c.isAlpha || c == '-') <| .seq (.many isNameChar) colonValuePattern

theorem results_selectorPattern (cs : List Char) :
    selectorPattern.results cs = (selectorLexeme? cs).toList := by
  cases cs with
  | nil => rfl
  | cons c rest =>
    have hrefuses : (Pattern.ahead (.char (· == '{'))).Refuses fun c => !isBlockMark c :=
      (refuses_char_beq rfl).ahead
    rw [selectorPattern, results_seq_char_cons, results_seq_many hrefuses, selectorLexeme?]
    cases isBlank c || isBlockMark c || c == '@' || c == '$' || c == '/' with
    | true => rfl
    | false =>
      cases rest.dropWhile fun d => !isBlockMark d with
      | nil => rfl
      | cons d tail =>
        by_cases hd : d = '{'
        · subst hd
          simp
        · simp [hd]

theorem results_valuePattern (cs : List Char) :
    valuePattern.results cs = (valueLexeme? cs).toList := by
  have hrefuses : (Pattern.alt (.char (· == ';')) (.ahead (.char (· == '}')))).Refuses
      fun c => !isBlockMark c :=
    (refuses_char_beq rfl).alt (refuses_char_beq rfl).ahead
  rw [valuePattern, results_seq_many hrefuses, valueLexeme?]
  cases cs.dropWhile fun d => !isBlockMark d with
  | nil => rfl
  | cons d tail =>
    by_cases hs : d = ';'
    · subst hs
      simp
    · by_cases hb : d = '}'
      · subst hb
        simp
      · simp [hs, hb]

theorem results_colonValuePattern (cs : List Char) :
    colonValuePattern.results cs = (colonValueLexeme? cs).toList := by
  have hrefuses : (Pattern.seq (.char (· == ':')) valuePattern).Refuses isBlank :=
    (refuses_char_beq rfl).seq _
  rw [colonValuePattern, results_seq_many hrefuses, colonValueLexeme?]
  cases cs.dropWhile isBlank with
  | nil => rfl
  | cons d tail =>
    by_cases hd : d = ':'
    · subst hd
      rw [results_seq_char_cons, if_pos (beq_self_eq_true _), results_valuePattern]
      cases hv : valueLexeme? tail <;> simp [hv]
    · simp [results_seq_char_cons, hd]

theorem refuses_colonValuePattern : colonValuePattern.Refuses isNameChar :=
  refuses_seq_many (fun _ => isBlank_of_isNameChar) ((refuses_char_beq rfl).seq _)
    ((refuses_char_beq rfl).seq _)

theorem results_declarationPattern (cs : List Char) :
    declarationPattern.results cs = (declarationLexeme? cs).toList := by
  cases cs with
  | nil => rfl
  | cons c rest =>
    rw [declarationPattern, results_seq_char_cons, results_seq_many refuses_colonValuePattern,
      results_colonValuePattern, declarationLexeme?]
    cases c.isAlpha || c == '-' with
    | false => rfl
    | true =>
      cases colonValueLexeme? (rest.dropWhile isNameChar) <;> rfl

theorem firstMark?_of_selectorPattern (h : selectorPattern.MatchesAt cs) :
    firstMark? cs = some '{' := by
  obtain ⟨l, hl⟩ := (matchesAt_iff_of_results (results_selectorPattern cs)).1 h
  exact firstMark?_of_selectorLexeme? hl

theorem firstMark?_of_declarationPattern (h : declarationPattern.MatchesAt cs) :
    firstMark? cs = some ';' ∨ firstMark? cs = some '}' := by
  obtain ⟨l, hl⟩ := (matchesAt_iff_of_results (results_declarationPattern cs)).1 h
  exact firstMark?_of_declarationLexeme? hl

/-- **Selector lists and declarations never compete.**  At no position of a text do both patterns
    match, in whichever way: the first semicolon or brace from there on leaves only one of them,
    or none.  Each match in one way only, and that is what the scan takes.  So the terminals may
    be tried in any order. -/
theorem selector_declaration_exclusive (source : List Char) (position : ℕ) :
    let rest := source.drop position
    ¬ (selectorPattern.MatchesAt rest ∧ declarationPattern.MatchesAt rest) ∧
    (firstMark? rest = some '{' → ¬ declarationPattern.MatchesAt rest) ∧
    (firstMark? rest = some ';' ∨ firstMark? rest = some '}' →
      ¬ selectorPattern.MatchesAt rest) ∧
    (firstMark? rest = none →
      ¬ selectorPattern.MatchesAt rest ∧ ¬ declarationPattern.MatchesAt rest) ∧
    selectorPattern.results rest = (Terminal.selector.lexeme? rest).toList ∧
    declarationPattern.results rest = (Terminal.declaration.lexeme? rest).toList ∧
    ∀ order : List Terminal, order.Perm Terminal.ranked → ∀ p : Phase,
      lexemeIn? order p.allowed rest = firstLexeme? p.allowed rest := by
  intro rest
  have hs : selectorPattern.MatchesAt rest → firstMark? rest = some '{' :=
    firstMark?_of_selectorPattern
  have hd : declarationPattern.MatchesAt rest →
      firstMark? rest = some ';' ∨ firstMark? rest = some '}' := firstMark?_of_declarationPattern
  refine ⟨by grind, by grind, by grind, by grind, results_selectorPattern rest,
    results_declarationPattern rest, fun order ho p => ?_⟩
  exact p.lexemeIn?_eq_firstLexeme? (fun t => ho.mem_iff.2 (Terminal.mem_ranked t)) rest

/-- The space after the colon makes no difference, but the brace does. -/
example : declarationPattern.results "a:hover \x7b \x7d".toList = [] ∧
    selectorPattern.results "a:hover \x7b \x7d".toList = ["a:hover ".toList] ∧
    declarationPattern.results "a: hover; b \x7b".toList = ["a: hover;".toList] ∧
    selectorPattern.results "a: hover; b \x7b".toList = [] := by
  decide

end

end StyleBudget
