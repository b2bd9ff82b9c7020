/-
  Replacing the text of a placeholder where it first occurs.

  There are two notions of what comes first in a selector: a search for the pattern of a
  placeholder gives the first place at which it matches, with the longest name, and a
  replacement of a text is made where that text first occurs.  For the text that the search has
  found, the two are the same place.

  * `replaceFirst_eq`: what a replacement does where there is no earlier occurrence;
  * `Pattern.search?` is the search, and `search?_placeholderPattern` says that the scan for the
    first placeholder is one;
  * `before_length_le`: no placeholder starts before the first one;
  * `replaceFirst_placeholder` is the result.
-/
import StyleBudget.Proofs.Patterns
import StyleBudget.Proofs.Undeclared

namespace StyleBudget

/-! ## Replacement -/

section

variable {piece new before after cs : List Char}

/-- The text with a new text in the place of the first occurrence of a piece, if there is one. -/
def replaceFirst (piece new : List Char) : List Char → List Char
  | [] => if piece.isEmpty then new else []
  | c :: cs =>
    if piece.isPrefixOf (c :: cs) then new ++ (c :: cs).drop piece.length
    else c :: replaceFirst piece new cs

theorem replaceFirst_append (piece new after : List Char) :
    replaceFirst piece new (piece ++ after) = new ++ after := by
  cases h : piece ++ after with
  | nil =>
    obtain ⟨rfl, rfl⟩ := List.append_eq_nil_iff.1 h
    simp [replaceFirst]
  | cons c cs =>
    have hprefix : piece.isPrefixOf (c :: cs) = true :=
      List.isPrefixOf_iff_prefix.2 ⟨after, h⟩
    rw [replaceFirst, if_pos hprefix, ← h, List.drop_left]

theorem replaceFirst_eq
    (h : ∀ x y, before ++ piece ++ after = x ++ piece ++ y → before.length ≤ x.length) :
    replaceFirst piece new (before ++ piece ++ after) = before ++ new ++ after := by
  induction before with
  | nil => exact replaceFirst_append piece new after
  | cons c before ih =>
    have hprefix : ¬ piece.isPrefixOf (c :: (before ++ piece ++ after)) = true := by
      intro hp
      obtain ⟨y, hy⟩ := List.isPrefixOf_iff_prefix.1 hp
      have hlength := h [] y hy.symm
      cases hlength
    have hrest := ih fun x y hxy => Nat.le_of_succ_le_succ (h (c :: x) y (congrArg (c :: ·) hxy))
    rw [List.cons_append, List.cons_append, replaceFirst, if_neg hprefix, hrest]
    rfl

end

/-! ## Search -/

/-- A match of a pattern inside a text: the text before it, what is taken, and the text after
    it. -/
structure Match where
  before : List Char
  taken : List Char
  after : List Char
  deriving DecidableEq

/-- The match at the first place of a text that has one, and of those at that place the first to
    which backtracking comes. -/
def Pattern.search? (p : Pattern) : List Char → Option Match
  | [] => (p.results []).head?.map fun l => ⟨[], l, []⟩
  | c :: cs =>
    match p.results (c :: cs) with
    | l :: _ => some ⟨[], l, (c :: cs).drop l.length⟩
    | [] => (p.search? cs).map fun m => { m with before := c :: m.before }

/-- A placeholder: a percent sign and a name. -/
def placeholderPattern : Pattern :=
  .seq (.char (· == '%')) <| .seq (.char isNameStart) (.many isNameChar)

/-- What a match of the pattern has found. -/
def Occurrence.toMatch (o : Occurrence) : Match := ⟨o.before, '%' :: o.name, o.after⟩

section

open Pattern

variable {c : Char} {cs : List Char}

/-- Of the pieces of a text with characters of a kind, the longest comes first. -/
theorem head?_runs (kind : Char → Bool) (cs : List Char) :
    (runs kind cs).head? = some (cs.takeWhile kind) := by
  induction cs with
  | nil => rfl
  | cons c cs ih =>
    rw [runs]
    split
    · rename_i hc
      rw [List.head?_append, List.head?_map, ih, List.takeWhile_cons_of_pos hc]
      rfl
    · rename_i hc
      rw [List.takeWhile_cons_of_neg hc]
      rfl

theorem head?_results_of_opens (h : Opens c cs) :
    (placeholderPattern.results (c :: cs)).head? = some ('%' :: cs.takeWhile isNameChar) := by
  obtain ⟨rfl, hs⟩ := h
  cases cs with
  | nil => cases hs
  | cons d cs =>
    have hd : isNameStart d = true := hs
    rw [placeholderPattern, results_seq_char_cons, if_pos (beq_self_eq_true _),
      results_seq_char_cons, if_pos hd, List.head?_map, List.head?_map, results, head?_runs,
      List.takeWhile_cons_of_pos (isNameChar_of_isNameStart hd)]
    rfl

theorem results_of_not_opens (h : ¬ Opens c cs) : placeholderPattern.results (c :: cs) = [] := by
  rw [placeholderPattern, results_seq_char_cons]
  split
  · rename_i hc
    cases cs with
    | nil => rfl
    | cons d cs =>
      have hd : ¬ isNameStart d = true := fun hd => h ⟨beq_iff_eq.1 hc, hd⟩
      rw [results_seq_char_cons, if_neg hd]
      rfl
  · rfl

/-- The pattern of a placeholder matches where a placeholder opens. -/
theorem matchesAt_placeholderPattern :
    placeholderPattern.MatchesAt cs ↔ ∃ ds, cs = '%' :: ds ∧ startsName ds = true := by
  rw [matchesAt_iff]
  cases cs with
  | nil => simp [placeholderPattern]
  | cons c cs =>
    by_cases h : Opens c cs
    · obtain ⟨rfl, hs⟩ := h
      refine iff_of_true (fun hn => ?_) ⟨cs, rfl, hs⟩
      have hhead := head?_results_of_opens ⟨rfl, hs⟩
      rw [hn] at hhead
      cases hhead
    · refine iff_of_false (fun hn => hn (results_of_not_opens h)) ?_
      rintro ⟨ds, hcs, hs⟩
      cases hcs
      exact h ⟨rfl, hs⟩

/-- The scan for the first placeholder is the search for its pattern. -/
theorem search?_placeholderPattern (cs : List Char) :
    placeholderPattern.search? cs = (firstPlaceholder? cs).map Occurrence.toMatch := by
  induction cs with
  | nil => rfl
  | cons c cs ih =>
    rw [search?]
    by_cases h : Opens c cs
    · obtain ⟨_, hresults⟩ := List.head?_eq_some_iff.1 (head?_results_of_opens h)
      have hdrop : (cs.takeWhile isNameChar ++ cs.dropWhile isNameChar).drop
          (cs.takeWhile isNameChar).length = cs.dropWhile isNameChar := List.drop_left
      rw [List.takeWhile_append_dropWhile] at hdrop
      rw [firstPlaceholder?_of_opens h, hresults]
      simp [Occurrence.toMatch, hdrop]
    · rw [firstPlaceholder?_of_not_opens h, results_of_not_opens h, ih, Option.map_map,
        Option.map_map]
      rfl

/-- No placeholder opens before the first one. -/
theorem before_length_le {o : Occurrence} (h : firstPlaceholder? cs = some o)
    {x ds : List Char} (hcs : cs = x ++ '%' :: ds) (hs : startsName ds = true) :
    o.before.length ≤ x.length := by
  induction x generalizing cs o with
  | nil =>
    subst hcs
    rw [List.nil_append, firstPlaceholder?_of_opens ⟨rfl, hs⟩] at h
    cases h
    rfl
  | cons c x ih =>
    subst hcs
    by_cases hc : Opens c (x ++ '%' :: ds)
    · rw [List.cons_append, firstPlaceholder?_of_opens hc] at h
      cases h
      exact Nat.zero_le _
    · rw [List.cons_append, firstPlaceholder?_of_not_opens hc] at h
      obtain ⟨o', ho', rfl⟩ := Option.map_eq_some_iff.1 h
      exact Nat.succ_le_succ (ih ho' rfl)

end

/-- **A replacement is made where the search has found the placeholder.**  If the search for a
    placeholder finds one in a selector, then its text does not occur earlier, nor is there an
    earlier match of the pattern, and its name is not part of a longer one.  So to replace the
    first occurrence of its text by a consumer is to put the consumer between the text before
    the match and the text after it, which expansion does. -/
theorem replaceFirst_placeholder {selector : String} {m : Match}
    (h : placeholderPattern.search? selector.toList = some m) :
    selector.toList = m.before ++ m.taken ++ m.after ∧
    (∀ consumer : String, replaceFirst m.taken consumer.toList selector.toList =
      m.before ++ consumer.toList ++ m.after) ∧
    (∀ x y, selector.toList = x ++ m.taken ++ y → m.before.length ≤ x.length) ∧
    (∀ x y, selector.toList = x ++ y → placeholderPattern.MatchesAt y →
      m.before.length ≤ x.length) ∧
    Bounded m.after ∧
    ∃ o, firstPlaceholder? selector.toList = some o ∧ m = o.toMatch ∧
      isWord isNameStart o.name = true ∧
      ∀ consumer : String, (o.replaceWith consumer).toList =
        replaceFirst m.taken consumer.toList selector.toList := by
  rw [search?_placeholderPattern] at h
  obtain ⟨o, ho, rfl⟩ := Option.map_eq_some_iff.1 h
  have hword := token_of_firstPlaceholder? ho
  have hsplit : selector.toList = o.before ++ ('%' :: o.name) ++ o.after := by
    rw [List.append_assoc]
    exact eq_of_firstPlaceholder? ho
  have hfirst : ∀ x y, selector.toList = x ++ ('%' :: o.name) ++ y →
      o.before.length ≤ x.length := by
    intro x y hxy
    rw [List.append_assoc] at hxy
    exact before_length_le ho hxy (startsName_of_isWord hword y)
  have hreplace : ∀ consumer : String,
      replaceFirst ('%' :: o.name) consumer.toList selector.toList =
        o.before ++ consumer.toList ++ o.after := by
    intro consumer
    rw [hsplit]
    exact replaceFirst_eq fun x y hxy => hfirst x y (hsplit.trans hxy)
  refine ⟨hsplit, hreplace, hfirst, fun x y hxy hy => ?_, bounded_after ho, o, ho, rfl, hword,
    fun consumer => ?_⟩
  · obtain ⟨ds, rfl, hs⟩ := matchesAt_placeholderPattern.1 hy
    exact before_length_le ho hxy hs
  · rw [toList_replaceWith]
    exact (hreplace consumer).symm

theorem replaceFirst_placeholder_accented :
    placeholderPattern.search? "50% %%é .x%aé%aéb %aé".toList =
      some ⟨"50% %%é .x".toList, "%aé".toList, "%aéb %aé".toList⟩ ∧
    replaceFirst "%aé".toList ".c".toList "50% %%é .x%aé%aéb %aé".toList =
      "50% %%é .x".toList ++ ".c".toList ++ "%aéb %aé".toList :=
  have h : placeholderPattern.search? "50% %%é .x%aé%aéb %aé".toList =
      some ⟨"50% %%é .x".toList, "%aé".toList, "%aéb %aé".toList⟩ := by decide
  ⟨h, (replaceFirst_placeholder h).2.1 ".c"⟩

end StyleBudget
